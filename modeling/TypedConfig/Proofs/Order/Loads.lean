import Mathlib
import TypedConfig.Proofs.Schema.Loaded

/-! # Sources in any order

What a list of sources declares is the declarations of each of them, one after another. The list
loads if and only if every source can be read, no name is declared twice, one source has the root
binding, and the references and the names pass their checks. None of this depends on the order of
the sources, so sources in another order load as well, and each name stands for the same.
-/

namespace TypedConfig.Schema

variable {limits : Limits} {source : Source} {sources sources' : List Source}

namespace Draft

structure Unique (d : Draft) : Prop where
  types : (d.types.map (·.name)).Nodup
  constants : (d.constants.map (·.name)).Nodup

def append (d e : Draft) : Draft :=
  ⟨d.types ++ e.types, d.constants ++ e.constants, d.root.or e.root, d.references ++ e.references⟩

def ofSource (source : Source) (ds : List Declaration) : Draft where
  types := typesOf source.name ds
  constants := constantsOf ds
  root := rootOf source.name ds
  references := (ds.flatMap Declaration.references).map (·, source)

theorem append_assoc (d e f : Draft) : (d.append e).append f = d.append (e.append f) := by
  simp only [append, List.append_assoc, Option.or_assoc]

variable {d e : Draft} {ds : List Declaration}

theorem Unique.of_append (h : (d.append e).Unique) : d.Unique := by
  obtain ⟨ht, hc⟩ := h
  simp only [append, List.map_append] at ht hc
  exact ⟨ht.of_append_left, hc.of_append_left⟩

/-- A function that adds declarations one by one and fails at the first whose name is known. -/
structure Adds {α : Type} (name : α → String)
    (f : List α → List α → Except SchemaError (List α)) : Prop where
  nil : ∀ known, f known [] = .ok known
  repeated : ∀ known d ds, name d ∈ known.map name → ∃ e, f known (d :: ds) = .error e
  fresh : ∀ known d ds, name d ∉ known.map name → f known (d :: ds) = f (known ++ [d]) ds

theorem Adds.eq_ok_iff {α : Type} {name : α → String}
    {f : List α → List α → Except SchemaError (List α)} (h : Adds name f) {known new all : List α}
    (hu : (known.map name).Nodup) :
    f known new = .ok all ↔ all = known ++ new ∧ (all.map name).Nodup := by
  induction new generalizing known with
  | nil =>
    rw [h.nil, List.append_nil]
    exact ⟨by rintro ⟨⟩; exact ⟨rfl, hu⟩, by rintro ⟨rfl, -⟩; rfl⟩
  | cons d ds ih =>
    by_cases hd : name d ∈ known.map name
    · obtain ⟨e, he⟩ := h.repeated known d ds hd
      rw [he]
      refine ⟨nofun, ?_⟩
      rintro ⟨rfl, hall⟩
      rw [List.map_append, List.nodup_append] at hall
      exact absurd rfl (hall.2.2 _ hd _ (.head _))
    · have hu' : ((known ++ [d]).map name).Nodup := by
        rw [List.map_append]
        exact hu.append (List.pairwise_singleton ..) (by simpa using hd)
      rw [h.fresh known d ds hd, ih hu', List.append_assoc, List.singleton_append]

theorem adds_addTypes (source : Source) : Adds (·.name) (addTypes source) where
  nil _ := rfl
  repeated known d ds h := by
    have hany : known.any (·.name == d.name) = true := by simpa using h
    exact ⟨_, if_pos hany⟩
  fresh known d ds h := by
    have hany : ¬ known.any (·.name == d.name) = true := by simpa using h
    exact if_neg hany

theorem adds_addConstants (source : Source) : Adds (·.name) (addConstants source) where
  nil _ := rfl
  repeated known d ds h := by
    have hany : known.any (·.name == d.name) = true := by simpa using h
    exact ⟨_, if_pos hany⟩
  fresh known d ds h := by
    have hany : ¬ known.any (·.name == d.name) = true := by simpa using h
    exact if_neg hany

theorem addRoot_eq_ok_iff {known new root : Option RootBinding} :
    addRoot source known new = .ok root ↔
      root = known.or new ∧ (known.toList ++ new.toList).length ≤ 1 := by
  cases known <;> cases new <;> simp [addRoot, eq_comm]

theorem add_eq_ok_iff (hd : d.Unique) :
    d.add source ds = .ok e ↔ e = d.append (ofSource source ds) ∧ e.Unique ∧
      (d.root.toList ++ (rootOf source.name ds).toList).length ≤ 1 := by
  unfold add
  simp only [bind_eq_ok_iff, (adds_addTypes source).eq_ok_iff hd.types,
    (adds_addConstants source).eq_ok_iff hd.constants, addRoot_eq_ok_iff]
  constructor
  · rintro ⟨types, ⟨rfl, ht⟩, constants, ⟨rfl, hc⟩, root, ⟨rfl, hr⟩, ⟨⟩⟩
    exact ⟨rfl, ⟨ht, hc⟩, hr⟩
  · rintro ⟨rfl, ⟨ht, hc⟩, hr⟩
    exact ⟨_, ⟨rfl, ht⟩, _, ⟨rfl, hc⟩, _, ⟨rfl, hr⟩, rfl⟩

end Draft

/-- The declarations of a source, none if it cannot be read. -/
def declared (limits : Limits) (source : Source) : List Declaration :=
  (declarations limits source).toOption.getD []

def rootIn (limits : Limits) (source : Source) : Option RootBinding :=
  Draft.rootOf source.name (declared limits source)

def draftOf (limits : Limits) (sources : List Source) : Draft where
  types := sources.flatMap fun s => Draft.typesOf s.name (declared limits s)
  constants := sources.flatMap fun s => Draft.constantsOf (declared limits s)
  root := (sources.filterMap (rootIn limits)).head?
  references := sources.flatMap fun s =>
    ((declared limits s).flatMap Declaration.references).map (·, s)

theorem draftOf_cons (s : Source) (rest : List Source) : draftOf limits (s :: rest) =
    (Draft.ofSource s (declared limits s)).append (draftOf limits rest) := by
  have hroot : ((s :: rest).filterMap (rootIn limits)).head? =
      (rootIn limits s).or (rest.filterMap (rootIn limits)).head? := by
    rw [List.filterMap_cons]
    cases rootIn limits s <;> rfl
  simp only [draftOf, hroot]
  rfl

/-- The sources can be read, and of what they declare nothing is declared twice. -/
structure Compatible (limits : Limits) (sources : List Source) : Prop where
  readable : ∀ s ∈ sources, ∃ ds, declarations limits s = .ok ds
  unique : (draftOf limits sources).Unique
  root : (sources.filterMap (rootIn limits)).length ≤ 1

theorem toList_or {α : Type} {a b : Option α} (h : (a.toList ++ b.toList).length ≤ 1) :
    (a.or b).toList = a.toList ++ b.toList := by
  cases a <;> cases b <;> simp at h ⊢

theorem filterMap_rootIn_cons (s : Source) (rest : List Source) :
    (s :: rest).filterMap (rootIn limits) =
      (rootIn limits s).toList ++ rest.filterMap (rootIn limits) := by
  rw [List.filterMap_cons]
  cases rootIn limits s <;> rfl

/-- Sources are added to what is declared already if they can be read and nothing is declared
twice. -/
theorem draft_eq_ok_iff_of_unique {d e : Draft} (hd : d.Unique) :
    draft limits d sources = .ok e ↔ (∀ s ∈ sources, ∃ ds, declarations limits s = .ok ds) ∧
      e = d.append (draftOf limits sources) ∧ e.Unique ∧
      (d.root.toList ++ sources.filterMap (rootIn limits)).length ≤ 1 := by
  induction sources generalizing d with
  | nil =>
    have happend : d.append (draftOf limits []) = d := by simp [Draft.append, draftOf]
    have hlength : (d.root.toList ++ [].filterMap (rootIn limits)).length ≤ 1 := by
      cases d.root <;> simp
    rw [happend]
    constructor
    · rintro ⟨⟩
      exact ⟨nofun, rfl, hd, hlength⟩
    · rintro ⟨-, rfl, -⟩
      rfl
  | cons s rest ih =>
    rw [filterMap_rootIn_cons, draftOf_cons, ← Draft.append_assoc, List.forall_mem_cons]
    constructor
    · intro h
      obtain ⟨ds, hds, h⟩ := bind_eq_ok_iff.1 h
      obtain ⟨d', hadd, h⟩ := bind_eq_ok_iff.1 h
      obtain rfl : declared limits s = ds := by rw [declared, hds]; rfl
      obtain ⟨rfl, hu, hroot⟩ := (Draft.add_eq_ok_iff hd).1 hadd
      obtain ⟨hread, rfl, hu', hlength⟩ := (ih hu).1 h
      have hor : (d.append (Draft.ofSource s (declared limits s))).root.toList =
          d.root.toList ++ (rootIn limits s).toList := toList_or hroot
      refine ⟨⟨⟨_, hds⟩, hread⟩, rfl, hu', ?_⟩
      rwa [hor, List.append_assoc] at hlength
    · rintro ⟨⟨⟨ds, hds⟩, hread⟩, rfl, hu', hlength⟩
      obtain rfl : declared limits s = ds := by rw [declared, hds]; rfl
      have hu : (d.append (Draft.ofSource s (declared limits s))).Unique := hu'.of_append
      have hroot : (d.root.toList ++ (rootIn limits s).toList).length ≤ 1 := by
        rw [← List.append_assoc, List.length_append] at hlength
        omega
      refine bind_eq_ok_iff.2 ⟨_, hds, bind_eq_ok_iff.2 ⟨_, ?_, (ih hu).2 ⟨hread, rfl, hu', ?_⟩⟩⟩
      · exact (Draft.add_eq_ok_iff hd).2 ⟨rfl, hu, hroot⟩
      · have hor : (d.append (Draft.ofSource s (declared limits s))).root.toList =
            d.root.toList ++ (rootIn limits s).toList := toList_or hroot
        rwa [hor, List.append_assoc]

theorem draft_eq_ok_iff {d : Draft} :
    draft limits .empty sources = .ok d ↔
      Compatible limits sources ∧ d = draftOf limits sources := by
  have hempty : Draft.empty.Unique := ⟨List.nodup_nil, List.nodup_nil⟩
  have happend : Draft.empty.append (draftOf limits sources) = draftOf limits sources := rfl
  rw [draft_eq_ok_iff_of_unique hempty, happend]
  constructor
  · rintro ⟨hread, rfl, hu, hr⟩
    exact ⟨⟨hread, hu, hr⟩, rfl⟩
  · rintro ⟨⟨hread, hu, hr⟩, rfl⟩
    exact ⟨hread, rfl, hu, hr⟩

theorem checkReferences_eq_ok_iff {types : List TypeDeclaration}
    {refs : List (Reference × Source)} :
    checkReferences types refs = .ok () ↔ ∀ r ∈ refs, ∃ d ∈ types, d.name = r.1.name := by
  refine ⟨declared_of_checkReferences, fun h => ?_⟩
  induction refs with
  | nil => rfl
  | cons r rest ih =>
    obtain ⟨hr, hrest⟩ := List.forall_mem_cons.1 h
    have hany : types.any (·.name == r.1.name) = true := by simpa using hr
    exact (if_pos hany).trans (ih hrest)

theorem checkCycles_eq_ok_iff {types ds : List TypeDeclaration} :
    checkCycles sources types ds = .ok () ↔
      ∀ d ∈ ds, returnsTo types d.name (types.length + 1) [] d.type = false := by
  refine ⟨not_returnsTo_of_checkCycles, fun h => ?_⟩
  induction ds with
  | nil => rfl
  | cons d ds ih =>
    obtain ⟨hd, hds⟩ := List.forall_mem_cons.1 h
    have hnot : ¬ returnsTo types d.name (types.length + 1) [] d.type = true := by simp [hd]
    exact (if_neg hnot).trans (ih hds)

/-- A list of sources loads if what they declare fits together and passes its checks. -/
theorem load_eq_ok_iff {schema : Schema} :
    load limits sources = .ok schema ↔ Compatible limits sources ∧
      (∀ r ∈ (draftOf limits sources).references,
        ∃ d ∈ (draftOf limits sources).types, d.name = r.1.name) ∧
      (∀ d ∈ (draftOf limits sources).types, returnsTo (draftOf limits sources).types d.name
        ((draftOf limits sources).types.length + 1) [] d.type = false) ∧
      (draftOf limits sources).root = some schema.root ∧
      schema.types = (draftOf limits sources).types ∧
      schema.constants = (draftOf limits sources).constants := by
  constructor
  · intro h
    obtain ⟨d, hd, h⟩ := bind_eq_ok_iff.1 h
    obtain ⟨hc, rfl⟩ := draft_eq_ok_iff.1 hd
    obtain ⟨_, hr, h⟩ := bind_eq_ok_iff.1 h
    cases hroot : (draftOf limits sources).root with
    | none => rw [hroot] at h; cases h
    | some root =>
      rw [hroot] at h
      obtain ⟨_, hcycles, h⟩ := bind_eq_ok_iff.1 h
      cases h
      exact ⟨hc, checkReferences_eq_ok_iff.1 hr, checkCycles_eq_ok_iff.1 hcycles, rfl, rfl, rfl⟩
  · rintro ⟨hc, hr, hcycles, hroot, ht, hconst⟩
    refine bind_eq_ok_iff.2 ⟨_, draft_eq_ok_iff.2 ⟨hc, rfl⟩, bind_eq_ok_iff.2 ⟨(), ?_, ?_⟩⟩
    · exact checkReferences_eq_ok_iff.2 hr
    · rw [hroot]
      refine bind_eq_ok_iff.2 ⟨(), checkCycles_eq_ok_iff.2 hcycles, ?_⟩
      rw [← ht, ← hconst]
      rfl

/-- What is declared by a source comes from the tokens of its text. -/
theorem ofTokens_of_declared {source : Source} {d : Declaration}
    (h : d ∈ declared limits source) :
    ∃ tokens ds, tokenizeWithin limits.maxDepth source.text = .ok tokens ∧
      Declaration.ofTokens limits.maxDepth tokens = .ok ds ∧ d ∈ ds := by
  unfold declared declarations at h
  split at h
  · cases h
  · split at h
    · cases h
    · split at h
      · cases h
      · exact ⟨_, _, ‹_›, ‹_›, h⟩

/-- What holds of the types of all expressions that are declared holds of the types of a schema
that loads. -/
theorem forall_of_load {P : Ty → Prop} {schema : Schema} (h : load limits sources = .ok schema)
    (hP : ∀ source, ∀ d ∈ declared limits source, d.BodyHas fun body => P body.type) :
    (∀ d ∈ schema.types, P d.type) ∧ P schema.root.type := by
  obtain ⟨-, -, -, hroot, ht, -⟩ := load_eq_ok_iff.1 h
  constructor
  · intro t hm
    rw [ht] at hm
    obtain ⟨source, -, hm⟩ := List.mem_flatMap.1 hm
    obtain ⟨d, hd, hsome⟩ := List.mem_filterMap.1 hm
    have hbody := hP source d hd
    cases d with
    | type name body doc span => cases hsome; exact hbody
    | constant => cases hsome
    | root => cases hsome
  · obtain ⟨source, -, hin⟩ := List.mem_filterMap.1 (List.mem_of_head? hroot)
    obtain ⟨d, hd, hsome⟩ := List.mem_filterMap.1 (List.mem_of_getLast? hin)
    have hbody := hP source d hd
    cases d with
    | root name body span => exact Option.some.inj hsome ▸ hbody
    | constant => cases hsome
    | type => cases hsome

/-- No constant of a schema that loads is declared twice. -/
theorem uniqueConstants_of_load {schema : Schema} (h : load limits sources = .ok schema) :
    (schema.constants.map (·.name)).Nodup := by
  obtain ⟨hc, -, -, -, -, hconst⟩ := load_eq_ok_iff.1 h
  exact hconst ▸ hc.unique.constants

/-- A walk along names depends on what each name stands for only. -/
theorem returnsTo_congr {types types' : List TypeDeclaration}
    (h : ∀ name, types.find? (·.name == name) = types'.find? (·.name == name)) (name : String)
    (n : Nat) (seen : List String) (t : Ty) :
    returnsTo types name n seen t = returnsTo types' name n seen t := by
  induction n generalizing seen t with
  | zero => rfl
  | succ n ih =>
    cases t with
    | named next =>
      rw [returnsTo_named, returnsTo_named, h]
      split
      · rfl
      · cases types'.find? (·.name == next) with
        | none => rfl
        | some d => exact ih ..
    | _ => rfl

theorem head?_perm {α : Type} {l l' : List α} (h : l.Perm l') (hl : l.length ≤ 1) :
    l.head? = l'.head? := by
  match l, hl with
  | [], _ => rw [h.nil_eq]
  | [a], _ => rw [List.singleton_perm.1 h]

theorem find?_perm {α : Type} {name : α → String} {l l' : List α} (h : l.Perm l')
    (hu : (l.map name).Nodup) (key : String) :
    l.find? (name · == key) = l'.find? (name · == key) := by
  refine List.find?_eq_find?_of_perm h fun a ha b hb => ?_
  have hname : name a = name b := by
    simpa using (beq_iff_eq.1 ha.2).trans (beq_iff_eq.1 hb.2).symm
  exact List.inj_on_of_nodup_map hu ha.1 hb.1 hname

/-- Schemas of the same declarations, each declared once, in any order. -/
structure Reorders (s s' : Schema) : Prop where
  types : s.types.Perm s'.types
  constants : s.constants.Perm s'.constants
  root : s.root = s'.root
  uniqueTypes : (s.types.map (·.name)).Nodup
  uniqueConstants : (s.constants.map (·.name)).Nodup

theorem Reorders.type? {s s' : Schema} (h : s.Reorders s') (name : String) :
    s.type? name = s'.type? name := find?_perm h.types h.uniqueTypes name

theorem Reorders.constant? {s s' : Schema} (h : s.Reorders s') (name : String) :
    s.constant? name = s'.constant? name := find?_perm h.constants h.uniqueConstants name

theorem Compatible.perm (h : Compatible limits sources) (hp : sources.Perm sources') :
    Compatible limits sources' where
  readable s hs := h.readable s (hp.mem_iff.2 hs)
  unique := by
    refine ⟨?_, ?_⟩
    · exact ((hp.flatMap_right _).map _).nodup_iff.1 h.unique.types
    · exact ((hp.flatMap_right _).map _).nodup_iff.1 h.unique.constants
  root := (hp.filterMap _).length_eq ▸ h.root

/-- Sources in another order load as well, as a schema of the same declarations. -/
theorem load_perm (hp : sources.Perm sources') {schema : Schema}
    (h : load limits sources = .ok schema) :
    ∃ schema', load limits sources' = .ok schema' ∧ schema.Reorders schema' := by
  obtain ⟨hc, hr, hcycles, hroot, ht, hconst⟩ := load_eq_ok_iff.1 h
  have htypes : (draftOf limits sources).types.Perm (draftOf limits sources').types :=
    hp.flatMap_right _
  have hconstants : (draftOf limits sources).constants.Perm (draftOf limits sources').constants :=
    hp.flatMap_right _
  have hroots : (draftOf limits sources').root = some schema.root := by
    rw [← hroot]
    exact (head?_perm (hp.filterMap _) hc.root).symm
  refine ⟨⟨(draftOf limits sources').types, (draftOf limits sources').constants, schema.root⟩,
    load_eq_ok_iff.2 ⟨hc.perm hp, ?_, ?_, hroots, rfl, rfl⟩, ?_⟩
  · intro r hm
    obtain ⟨d, hd, hname⟩ := hr r ((hp.flatMap_right _).mem_iff.2 hm)
    exact ⟨d, htypes.mem_iff.1 hd, hname⟩
  · intro d hd
    rw [← returnsTo_congr (find?_perm htypes hc.unique.types), ← htypes.length_eq]
    exact hcycles d (htypes.mem_iff.2 hd)
  · exact ⟨ht ▸ htypes, hconst ▸ hconstants, rfl, ht ▸ hc.unique.types,
      hconst ▸ hc.unique.constants⟩

end TypedConfig.Schema
