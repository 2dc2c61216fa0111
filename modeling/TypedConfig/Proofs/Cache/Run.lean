import Mathlib.Data.Set.Function
import TypedConfig.Proofs.Cache.Key

/-! # Runs of a shared cache

Many calls share one cache. A call looks its key up, loads on a miss and then stores what it
loaded; between these steps other calls take theirs, and the cache may be cleared. The invariant
is that what is kept under a key is what a request with this key loads.
-/

namespace TypedConfig

inductive Progress
  | waiting
  | missed
  | loaded (schema : Schema)
  | done (result : Except SchemaError CachedSchema)

structure Call where
  loader : Loader
  progress : Progress

/-- The next step of a call: a look-up, a load or a store. Keys are kept as their digests. -/
def Call.step (digest : CacheKey → CacheKey) (call : Call) (c : SchemaCache) :
    Progress × SchemaCache :=
  match call.progress with
  | .waiting =>
    match c.find (digest call.loader.key) with
    | (some cached, c) => (.done (.ok cached), c)
    | (none, c) => (.missed, c)
  | .missed =>
    match call.loader.load with
    | .error e => (.done (.error e), c)
    | .ok schema => (.loaded schema, c)
  | .loaded schema =>
    let (cached, c) := c.store (digest call.loader.key) schema
    (.done (.ok cached), c)
  | .done result => (.done result, c)

/-- A cache with the calls that have been made on it. -/
structure SharedCache where
  cache : SchemaCache
  calls : List Call

namespace SharedCache

/-- What happens next: a call begins, a call takes a step, or the cache is cleared. -/
inductive Action
  | begin (loader : Loader)
  | advance (index : Nat)
  | clear

def advance (digest : CacheKey → CacheKey) (m : SharedCache) (i : Nat) : SharedCache :=
  match m.calls[i]? with
  | some call =>
    let (progress, cache) := call.step digest m.cache
    ⟨cache, m.calls.set i ⟨call.loader, progress⟩⟩
  | none => m

def step (digest : CacheKey → CacheKey) (m : SharedCache) : Action → SharedCache
  | .begin loader => { m with calls := m.calls ++ [⟨loader, .waiting⟩] }
  | .advance i => m.advance digest i
  | .clear => { m with cache := m.cache.clear }

def run (digest : CacheKey → CacheKey) (m : SharedCache) (actions : List Action) : SharedCache :=
  actions.foldl (step digest) m

def loaders (actions : List Action) : List Loader :=
  actions.filterMap fun
    | .begin loader => some loader
    | _ => none

end SharedCache

variable {digest : CacheKey → CacheKey} {known : List Loader} {capacity : Nat}
  {c : SchemaCache} {call : Call}

/-- The three steps of a call in a row, on the keys themselves. -/
theorem SchemaCache.getOrLoad_eq_steps (c : SchemaCache) (l : Loader) :
    let looked := Call.step id ⟨l, .waiting⟩ c
    let loaded := Call.step id ⟨l, looked.1⟩ looked.2
    Call.step id ⟨l, loaded.1⟩ loaded.2 =
      (.done (c.getOrLoad l.limits l.sources).1, (c.getOrLoad l.limits l.sources).2) := by
  unfold getOrLoad
  simp only [Call.step, id_eq, Loader.key]
  rcases c.find (.of l.limits l.sources) with ⟨_ | cached, c'⟩
  · simp only [Loader.load]
    cases Schema.load l.limits l.sources with
    | error e => rfl
    | ok schema => rfl
  · rfl

namespace SchemaCache

/-- What is kept under a digest is what a known request with a key of this digest loads. -/
structure Faithful (digest : CacheKey → CacheKey) (known : List Loader) (capacity : Nat)
    (c : SchemaCache) : Prop where
  entries : ∀ e ∈ c.entries, ∃ l ∈ known, digest l.key = e.1 ∧ l.load = .ok e.2.schema
  bound : c.entries.length ≤ capacity
  capacity_eq : c.capacity = capacity

/-- A miss changes nothing. -/
theorem eq_of_find_none {key : CacheKey} {c' : SchemaCache} (h : c.find key = (none, c')) :
    c' = c := by
  unfold find at h
  split at h
  · cases h
  · exact (Prod.mk.inj h).2.symm

namespace Faithful

variable {key : CacheKey}

theorem find (h : c.Faithful digest known capacity) (key : CacheKey) :
    (c.find key).2.Faithful digest known capacity := by
  unfold SchemaCache.find
  split
  · rename_i e he
    have hmem := List.mem_of_find?_eq_some he
    have hkey : e.1 = key := by simpa using List.find?_some he
    refine ⟨List.forall_mem_cons.2 ⟨hkey ▸ h.entries e hmem, fun f hf => ?_⟩, ?_, h.capacity_eq⟩
    · exact h.entries f (List.mem_of_mem_filter hf)
    · have hless : (c.others key).length < c.entries.length :=
        List.length_filter_lt_length_iff_exists.2 ⟨e, hmem, by simp [hkey]⟩
      exact Nat.le_trans hless h.bound
  · exact h

/-- A hit comes from a request with the digest of the key. -/
theorem of_find {cached : CachedSchema} (h : c.Faithful digest known capacity)
    (hf : (c.find key).1 = some cached) :
    ∃ l ∈ known, digest l.key = key ∧ l.load = .ok cached.schema := by
  unfold SchemaCache.find at hf
  split at hf
  · rename_i e he
    cases hf
    have hkey : e.1 = key := by simpa using List.find?_some he
    exact hkey ▸ h.entries e (List.mem_of_find?_eq_some he)
  · cases hf

theorem store {l : Loader} {schema : Schema} (h : c.Faithful digest known capacity)
    (hl : l ∈ known) (hs : l.load = .ok schema) :
    (c.store (digest l.key) schema).2.Faithful digest known capacity := by
  refine ⟨fun e he => ?_, ?_, h.capacity_eq⟩
  · rcases List.mem_cons.1 (List.mem_of_mem_take he) with rfl | he
    · exact ⟨l, hl, rfl, hs⟩
    · exact h.entries e (List.mem_of_mem_filter he)
  · exact Nat.le_trans (List.length_take_le ..) h.capacity_eq.le

theorem clear (h : c.Faithful digest known capacity) :
    c.clear.Faithful digest known capacity := ⟨nofun, Nat.zero_le _, h.capacity_eq⟩

end Faithful

end SchemaCache

/-- What a call has got so far is what its request loads. -/
def Call.Agrees (call : Call) : Prop :=
  match call.progress with
  | .loaded schema => call.loader.load = .ok schema
  | .done result => result.map CachedSchema.schema = call.loader.load
  | _ => True

theorem Call.step_faithful (hd : Set.InjOn digest {k | ∃ l ∈ known, l.key = k})
    (hc : c.Faithful digest known capacity) (hk : call.loader ∈ known) (ha : call.Agrees) :
    Call.Agrees ⟨call.loader, (call.step digest c).1⟩ ∧
      (call.step digest c).2.Faithful digest known capacity := by
  obtain ⟨loader, progress⟩ := call
  cases progress with
  | waiting =>
    have hfind := hc.find (digest loader.key)
    simp only [Call.step]
    split
    · rename_i cached c' heq
      rw [heq] at hfind
      obtain ⟨l, hl, hdigest, hload⟩ := hc.of_find (congrArg Prod.fst heq)
      have hkey : l.key = loader.key := hd ⟨l, hl, rfl⟩ ⟨loader, hk, rfl⟩ hdigest
      refine ⟨?_, hfind⟩
      rw [Call.Agrees, ← Loader.load_eq_of_key hkey, hload]
      rfl
    · rename_i heq
      rw [heq] at hfind
      exact ⟨trivial, hfind⟩
  | missed =>
    simp only [Call.step]
    split
    · exact ⟨Eq.symm ‹_›, hc⟩
    · exact ⟨‹_›, hc⟩
  | loaded schema => exact ⟨Eq.symm ha, hc.store hk ha⟩
  | done result => exact ⟨ha, hc⟩

/-- A call whose request does not load leaves the cache as it was. -/
theorem Call.step_of_error {e : SchemaError}
    (hd : Set.InjOn digest {k | ∃ l ∈ known, l.key = k})
    (hc : c.Faithful digest known capacity) (hk : call.loader ∈ known) (ha : call.Agrees)
    (he : call.loader.load = .error e) : (call.step digest c).2 = c := by
  obtain ⟨loader, progress⟩ := call
  cases progress with
  | waiting =>
    rcases hf : c.find (digest loader.key) with ⟨_ | cached, c'⟩
    · simp only [Call.step, hf]
      exact SchemaCache.eq_of_find_none hf
    · obtain ⟨l, hl, hdigest, hload⟩ := hc.of_find (congrArg Prod.fst hf)
      have hkey : l.key = loader.key := hd ⟨l, hl, rfl⟩ ⟨loader, hk, rfl⟩ hdigest
      rw [Loader.load_eq_of_key hkey, he] at hload
      cases hload
  | missed =>
    dsimp only at he
    simp only [Call.step, he]
  | loaded schema =>
    rw [Call.Agrees, he] at ha
    cases ha
  | done result => rfl

/-- A call whose steps meet the cache in some states, one after another. -/
def Call.through (digest : CacheKey → CacheKey) (call : Call) (caches : List SchemaCache) : Call :=
  caches.foldl (fun call c => ⟨call.loader, (call.step digest c).1⟩) call

/-- A call completes with its third step, whatever others do between its steps. -/
theorem Call.through_done (digest : CacheKey → CacheKey) (l : Loader) (c₁ c₂ c₃ : SchemaCache) :
    ∃ result, (Call.through digest ⟨l, .waiting⟩ [c₁, c₂, c₃]).progress = .done result := by
  simp only [through, List.foldl_cons, List.foldl_nil]
  rcases hf : c₁.find (digest l.key) with ⟨_ | cached, c⟩
  · cases hl : l.load with
    | error e => simp [step, hf, hl]
    | ok schema => simp [step, hf, hl]
  · simp [step, hf]

namespace SharedCache

open SchemaCache

/-- The invariant of a run whose requests are known. -/
structure Sound (digest : CacheKey → CacheKey) (known : List Loader) (capacity : Nat)
    (m : SharedCache) : Prop where
  cache : m.cache.Faithful digest known capacity
  calls : ∀ call ∈ m.calls, call.loader ∈ known ∧ call.Agrees

theorem Sound.advance {m : SharedCache} (hd : Set.InjOn digest {k | ∃ l ∈ known, l.key = k})
    (h : m.Sound digest known capacity) (i : Nat) :
    (m.advance digest i).Sound digest known capacity := by
  unfold SharedCache.advance
  cases hi : m.calls[i]? with
  | none => exact h
  | some call =>
    obtain ⟨hk, hagrees⟩ := h.calls call (List.mem_of_getElem? hi)
    obtain ⟨hagrees', hcache⟩ := call.step_faithful hd h.cache hk hagrees
    refine ⟨hcache, fun call' hm => ?_⟩
    rcases List.mem_or_eq_of_mem_set hm with hm | rfl
    · exact h.calls call' hm
    · exact ⟨hk, hagrees'⟩

theorem Sound.step {m : SharedCache} (hd : Set.InjOn digest {k | ∃ l ∈ known, l.key = k})
    (h : m.Sound digest known capacity) {action : Action}
    (ha : ∀ l ∈ loaders [action], l ∈ known) :
    (m.step digest action).Sound digest known capacity := by
  cases action with
  | begin loader =>
    refine ⟨h.cache, fun call hm => ?_⟩
    rcases List.mem_append.1 hm with hm | hm
    · exact h.calls call hm
    · rw [List.mem_singleton.1 hm]
      exact ⟨ha loader (List.mem_singleton_self _), trivial⟩
  | advance i => exact h.advance hd i
  | clear => exact ⟨h.cache.clear, h.calls⟩

theorem loaders_cons (action : Action) (rest : List Action) :
    loaders (action :: rest) = loaders [action] ++ loaders rest :=
  List.filterMap_append (l := [action])

theorem Sound.run {m : SharedCache} (hd : Set.InjOn digest {k | ∃ l ∈ known, l.key = k})
    (h : m.Sound digest known capacity) {actions : List Action}
    (ha : ∀ l ∈ loaders actions, l ∈ known) :
    (m.run digest actions).Sound digest known capacity := by
  induction actions generalizing m with
  | nil => exact h
  | cons action rest ih =>
    rw [loaders_cons] at ha
    exact ih (h.step hd fun l hl => ha l (List.mem_append_left _ hl))
      fun l hl => ha l (List.mem_append_right _ hl)

theorem map_loader_advance (digest : CacheKey → CacheKey) (m : SharedCache) (i : Nat) :
    (m.advance digest i).calls.map Call.loader = m.calls.map Call.loader := by
  unfold SharedCache.advance
  cases hi : m.calls[i]? with
  | none => rfl
  | some call =>
    have hloader : (m.calls.map Call.loader)[i]? = some call.loader := by
      rw [List.getElem?_map, hi, Option.map_some]
    obtain ⟨hlt, hget⟩ := List.getElem?_eq_some_iff.1 hloader
    simp only [List.map_set]
    rw [← hget, List.set_getElem_self]

/-- The calls of a run are those that began, in this order. -/
theorem map_loader_run (digest : CacheKey → CacheKey) (m : SharedCache) (actions : List Action) :
    (m.run digest actions).calls.map Call.loader =
      m.calls.map Call.loader ++ loaders actions := by
  induction actions generalizing m with
  | nil => exact (List.append_nil _).symm
  | cons action rest ih =>
    have hstep : (m.step digest action).calls.map Call.loader =
        m.calls.map Call.loader ++ loaders [action] := by
      cases action with
      | begin loader => exact List.map_append
      | advance i => exact (map_loader_advance digest m i).trans (List.append_nil _).symm
      | clear => exact (List.append_nil _).symm
    rw [run, List.foldl_cons, ← run, ih, hstep, loaders_cons action rest, List.append_assoc]

/-- However the steps of calls and clearings of a cache interleave: a call that completes gives
what its request loads, the cache keeps to its capacity, and a call whose request does not load
leaves the entries as they were; a call completes with its third step. What is digested
determines the sources and the limits that loading goes by. -/
theorem run_transparent (digest : CacheKey → CacheKey) (hc : 0 < capacity)
    (actions : List Action)
    (hd : Set.InjOn digest {k | ∃ l ∈ loaders actions, l.key = k}) :
    ∃ cache, SchemaCache.ofCapacity capacity = .ok cache ∧
      let m := run digest ⟨cache, []⟩ actions
      m.calls.map Call.loader = loaders actions ∧
      (∀ call ∈ m.calls, ∀ result, call.progress = .done result →
        result.map CachedSchema.schema = call.loader.load) ∧
      m.cache.size ≤ capacity ∧
      (∀ i call e, m.calls[i]? = some call → call.loader.load = .error e →
        (m.advance digest i).cache.entries = m.cache.entries) ∧
      (∀ l c₁ c₂ c₃, ∃ result,
        (Call.through digest ⟨l, .waiting⟩ [c₁, c₂, c₃]).progress = .done result) ∧
      ∀ a b : Loader, a.key = b.key → a.sources = b.sources ∧
        a.limits.maxSourceBytes = b.limits.maxSourceBytes ∧
        a.limits.maxDepth = b.limits.maxDepth := by
  refine ⟨⟨capacity, hc, [], 0⟩, dif_pos hc, ?_⟩
  have hstart : Sound digest (loaders actions) capacity ⟨⟨capacity, hc, [], 0⟩, []⟩ :=
    ⟨⟨nofun, Nat.zero_le _, rfl⟩, nofun⟩
  have hsound := hstart.run hd fun _ => id
  intro m
  refine ⟨?_, fun call hm result hdone => ?_, hsound.cache.bound, fun i call e hi he => ?_,
    Call.through_done digest, fun a b => Loader.eq_of_key⟩
  · exact map_loader_run digest _ actions
  · have hagrees := (hsound.calls call hm).2
    rwa [Call.Agrees, hdone] at hagrees
  · obtain ⟨hk, hagrees⟩ := hsound.calls call (List.mem_of_getElem? hi)
    have hsame := call.step_of_error hd hsound.cache hk hagrees he
    rw [SharedCache.advance, hi]
    exact congrArg SchemaCache.entries hsame

def labelLoader : Loader where
  limits := .standard
  sources := [⟨"labels.d.ts", "declare var label: string;"⟩]
  maxSourceBytes_lt := by decide
  maxDepth_lt := by decide
  sources_lt := by decide

def brokenLoader : Loader where
  limits := .standard
  sources := [⟨"labels.d.ts", "declare var label: ;"⟩]
  maxSourceBytes_lt := by decide
  maxDepth_lt := by decide
  sources_lt := by decide

def sha256 (k : CacheKey) : CacheKey :=
  if k = labelLoader.key then
    [197, 159, 205, 111, 132, 200, 4, 145, 39, 76, 166, 100, 246, 37, 120, 218, 48, 74, 22, 246,
      222, 190, 183, 28, 80, 38, 143, 181, 82, 243, 174, 206]
  else if k = brokenLoader.key then
    [98, 46, 168, 132, 42, 143, 79, 52, 101, 171, 45, 160, 53, 211, 155, 188, 170, 242, 100, 177,
      62, 254, 22, 207, 92, 207, 224, 201, 177, 212, 102, 26]
  else []

/-- Two calls miss before either stores, a third fails, and the cache is cleared between them. -/
def racing : List Action :=
  [.begin labelLoader, .begin labelLoader, .begin brokenLoader, .advance 0, .advance 1,
    .advance 2, .advance 0, .advance 0, .clear, .advance 1, .advance 2, .advance 1]

theorem run_transparent_racing :
    0 < 1 ∧ Set.InjOn sha256 {k | ∃ l ∈ loaders racing, l.key = k} ∧
    ∃ cache, SchemaCache.ofCapacity 1 = .ok cache ∧
      let m := run sha256 ⟨cache, []⟩ racing
      m.calls.map Call.loader = [labelLoader, labelLoader, brokenLoader] ∧
      (∀ call ∈ m.calls, ∀ result, call.progress = .done result →
        result.map CachedSchema.schema = call.loader.load) ∧
      m.cache.size ≤ 1 := by
  have hne : brokenLoader.key ≠ labelLoader.key := fun h =>
    absurd (Loader.eq_of_key h).1 (by simp [brokenLoader, labelLoader])
  have hlabel : sha256 labelLoader.key ≠ sha256 brokenLoader.key := by
    rw [sha256, sha256, if_pos rfl, if_neg hne, if_pos rfl]
    decide
  have hd : Set.InjOn sha256 {k | ∃ l ∈ loaders racing, l.key = k} := by
    have hloaders : loaders racing = [labelLoader, labelLoader, brokenLoader] := rfl
    rintro _ ⟨a, ha, rfl⟩ _ ⟨b, hb, rfl⟩ h
    simp only [hloaders, List.mem_cons, List.not_mem_nil, or_false] at ha hb
    rcases ha with rfl | rfl | rfl <;> rcases hb with rfl | rfl | rfl <;>
      first | rfl | exact absurd h hlabel | exact absurd h hlabel.symm
  obtain ⟨cache, hcache, hcalls, hdone, hsize, -⟩ :=
    run_transparent sha256 Nat.one_pos racing hd
  exact ⟨Nat.one_pos, hd, cache, hcache, hcalls, hdone, hsize⟩

end SharedCache

end TypedConfig
