import Mathlib.Data.List.Nodup
import Mathlib.Data.List.Perm.Subperm
import TypedConfig.Schema.Load

/-! # Following names

A walk along names either comes to a structural type, after at most one step for each
declaration, or closes: then each of its names leads to another of them, for ever. The walk that
looks for cycles tells the two apart, so without cycles no type resolves to a name.
-/

namespace TypedConfig.Schema

variable {s : Schema} {d : TypeDeclaration} {t : Ty} {name next : String}
  {names seen : List String}

theorem name_of_type? (h : s.type? name = some d) : d ∈ s.types ∧ d.name = name :=
  ⟨List.mem_of_find?_eq_some h, by simpa using List.find?_some h⟩

theorem type?_of_declared (h : ∃ d ∈ s.types, d.name = name) : ∃ d, s.type? name = some d := by
  obtain ⟨d, hd, hname⟩ := h
  exact Option.isSome_iff_exists.1 (List.find?_isSome.2 ⟨d, hd, by simpa using hname⟩)

/-- A type declared once is found under its name. -/
theorem type?_of_mem (hu : (s.types.map (·.name)).Nodup) (hd : d ∈ s.types) :
    s.type? d.name = some d := by
  obtain ⟨e, he⟩ := type?_of_declared ⟨d, hd, rfl⟩
  obtain ⟨hm, hname⟩ := name_of_type? he
  rw [he, List.inj_on_of_nodup_map hu hm hd hname]

theorem follow_named (h : s.type? name = some d) (n : Nat) :
    s.follow (n + 1) (.named name) = s.follow n d.type := by
  rw [follow, h]

theorem follow_structural (h : ∀ name, t ≠ .named name) (n : Nat) : s.follow n t = t := by
  cases n with
  | zero => rfl
  | succ n =>
    unfold follow
    split
    · exact absurd rfl (h _)
    · rfl

/-- Different declared names are at most as many as the declarations. -/
theorem length_le_of_declared (hn : names.Nodup)
    (hd : ∀ name ∈ names, ∃ d ∈ s.types, d.name = name) : names.length ≤ s.types.length := by
  have hsub : names ⊆ s.types.map (·.name) := fun name hm => List.mem_map.2 (hd name hm)
  have hle := (List.subperm_of_subset hn hsub).length_le
  rwa [List.length_map] at hle

/-- Each of the names stands for another of them. -/
def Closed (s : Schema) (names : List String) : Prop :=
  ∀ name ∈ names, ∃ d, s.type? name = some d ∧ ∃ next ∈ names, d.type = .named next

theorem Closed.follow (h : s.Closed names) (hm : name ∈ names) (n : Nat) :
    ∃ next ∈ names, s.follow n (.named name) = .named next := by
  induction n generalizing name with
  | zero => exact ⟨name, hm, rfl⟩
  | succ n ih =>
    obtain ⟨d, hd, next, hnext, ht⟩ := h name hm
    rw [follow_named hd, ht]
    exact ih hnext

/-- Each of the names stands for another of them or for a type, the one that a walk has come
to. -/
def LeadTo (s : Schema) (names : List String) (t : Ty) : Prop :=
  ∀ name ∈ names, ∃ d, s.type? name = some d ∧
    (d.type = t ∨ ∃ next ∈ names, d.type = .named next)

theorem LeadTo.closed (h : s.LeadTo names (.named next)) (hm : next ∈ names) :
    s.Closed names := by
  intro name hname
  obtain ⟨d, hd, ht | ht⟩ := h name hname
  · exact ⟨d, hd, next, hm, ht⟩
  · exact ⟨d, hd, ht⟩

theorem LeadTo.step (h : s.LeadTo (name :: seen) (.named next)) (hd : s.type? next = some d) :
    s.LeadTo (name :: next :: seen) d.type := by
  have hsub : ∀ a ∈ name :: seen, a ∈ name :: next :: seen := by
    intro a ha
    rcases List.mem_cons.1 ha with rfl | ha
    · exact List.mem_cons_self
    · exact List.mem_cons_of_mem _ (List.mem_cons_of_mem _ ha)
  have hold : ∀ a ∈ name :: seen, ∃ e, s.type? a = some e ∧
      (e.type = d.type ∨ ∃ b ∈ name :: next :: seen, e.type = .named b) := by
    intro a ha
    obtain ⟨e, he, ht | ⟨b, hb, ht⟩⟩ := h a ha
    · exact ⟨e, he, .inr ⟨next, by simp, ht⟩⟩
    · exact ⟨e, he, .inr ⟨b, hsub b hb, ht⟩⟩
  intro a ha
  rcases List.mem_cons.1 ha with rfl | ha
  · exact hold _ List.mem_cons_self
  · rcases List.mem_cons.1 ha with rfl | ha
    · exact ⟨d, hd, .inl rfl⟩
    · exact hold a (List.mem_cons_of_mem _ ha)

theorem returnsTo_named {types : List TypeDeclaration} {n : Nat} :
    returnsTo types name (n + 1) seen (.named next) =
      if next ∈ name :: seen then true
      else
        match types.find? fun d => d.name == next with
        | some d => returnsTo types name n (next :: seen) d.type
        | none => false := by
  rw [returnsTo]
  by_cases h : next ∈ name :: seen
  · have h' : (next == name || seen.contains next) = true := by simpa using h
    rw [if_pos h, if_pos h']
  · have h' : ¬ (next == name || seen.contains next) = true := by simpa using h
    exact (if_neg h').trans (if_neg h).symm

/-- The names of a walk before the next one, which is none of them, and that one. -/
theorem nodup_step (hn : (name :: seen).Nodup) (hm : next ∉ name :: seen) :
    (name :: next :: seen).Nodup := by
  simp only [List.nodup_cons, List.mem_cons, not_or] at hn hm ⊢
  exact ⟨⟨fun h => hm.1 h.symm, hn.1⟩, hm.2, hn.2⟩

/-- A walk that comes back has closed, as there are too few names for it to run out of steps. -/
theorem closed_of_returnsTo {budget : Nat} (hn : (name :: seen).Nodup)
    (hl : s.LeadTo (name :: seen) t)
    (hb : s.types.length < budget + (name :: seen).length)
    (hr : returnsTo s.types name budget seen t = true) :
    ∃ names, name ∈ names ∧ s.Closed names := by
  induction budget generalizing seen t with
  | zero =>
    have hle := length_le_of_declared hn fun a ha =>
      have ⟨d, hd, _⟩ := hl a ha
      ⟨d, name_of_type? hd⟩
    omega
  | succ n ih =>
    cases t with
    | named next =>
      rw [returnsTo_named] at hr
      by_cases hm : next ∈ name :: seen
      · exact ⟨_, List.mem_cons_self, hl.closed hm⟩
      · rw [if_neg hm] at hr
        cases hd : s.type? next with
        | none =>
          rw [type?] at hd
          rw [hd] at hr
          cases hr
        | some d =>
          have hlen : s.types.length < n + (name :: next :: seen).length := by
            simp only [List.length_cons] at hb ⊢
            omega
          refine ih (nodup_step hn hm) (hl.step hd) hlen ?_
          rw [type?] at hd
          rw [hd] at hr
          exact hr
    | _ => cases hr

/-- A declaration that returns to itself leads from name to name for ever. -/
theorem follow_of_returnsTo (hu : (s.types.map (·.name)).Nodup) (hd : d ∈ s.types)
    (hr : returnsTo s.types d.name (s.types.length + 1) [] d.type = true) (n : Nat) :
    ∃ next, s.follow n d.type = .named next ∧ (s.type? next).isSome := by
  have hfound := type?_of_mem hu hd
  have hl : s.LeadTo [d.name] d.type := by
    intro a ha
    rw [List.mem_singleton.1 ha]
    exact ⟨d, hfound, .inl rfl⟩
  obtain ⟨names, hm, hc⟩ :=
    closed_of_returnsTo (List.pairwise_singleton ..) hl (by rw [List.length_singleton]; omega) hr
  obtain ⟨e, he, next, hnext, ht⟩ := hc d.name hm
  rw [hfound] at he
  cases he
  obtain ⟨last, hlast, hf⟩ := hc.follow hnext n
  obtain ⟨e, he, -⟩ := hc last hlast
  exact ⟨last, by rw [ht, hf], by rw [he]; rfl⟩

/-- Every name that a declaration stands for is declared. -/
def NamesDeclared (s : Schema) : Prop :=
  ∀ d ∈ s.types, ∀ name, d.type = .named name → ∃ e ∈ s.types, e.name = name

/-- A walk that does not come back ends at a structural type, after no more steps than there are
declarations that it has not seen. -/
theorem structural_of_not_returnsTo {budget : Nat} (hs : s.NamesDeclared)
    (hn : (name :: seen).Nodup) (hseen : ∀ a ∈ name :: seen, ∃ d ∈ s.types, d.name = a)
    (ht : ∀ next, t = .named next → ∃ d ∈ s.types, d.name = next)
    (hr : returnsTo s.types name budget seen t = false) {m : Nat}
    (hm : s.types.length ≤ m + (name :: seen).length) :
    ∀ next, s.follow m t ≠ .named next := by
  induction budget generalizing seen t m with
  | zero => cases hr
  | succ n ih =>
    by_cases hnamed : ∃ next, t = .named next
    · obtain ⟨next, rfl⟩ := hnamed
      obtain ⟨d, hd⟩ := type?_of_declared (ht next rfl)
      obtain ⟨hmem, hname⟩ := name_of_type? hd
      rw [returnsTo_named] at hr
      have hnot : next ∉ name :: seen := by
        intro h
        rw [if_pos h] at hr
        cases hr
      rw [if_neg hnot] at hr
      have hfind : (s.types.find? fun d => d.name == next) = some d := hd
      rw [hfind] at hr
      have hn' := nodup_step hn hnot
      have hseen' : ∀ a ∈ name :: next :: seen, ∃ d ∈ s.types, d.name = a := by
        simp only [List.forall_mem_cons] at hseen ⊢
        exact ⟨hseen.1, ⟨d, hmem, hname⟩, hseen.2⟩
      have hle := length_le_of_declared hn' hseen'
      simp only [List.length_cons] at hle hm
      obtain ⟨k, rfl⟩ : ∃ k, m = k + 1 := ⟨m - 1, by omega⟩
      rw [follow_named hd]
      exact ih hn' hseen' (hs d hmem) hr (by simp only [List.length_cons]; omega)
    · have hstructural : ∀ next, t ≠ .named next := fun next h => hnamed ⟨next, h⟩
      rw [follow_structural hstructural]
      exact hstructural

/-- Where no declaration returns to itself, what a type resolves to is not a name. -/
theorem resolve_ne_named (hs : s.NamesDeclared)
    (hr : ∀ d ∈ s.types, returnsTo s.types d.name (s.types.length + 1) [] d.type = false)
    (ht : ∀ name, t = .named name → ∃ d ∈ s.types, d.name = name) :
    ∀ name, s.resolve t ≠ .named name := by
  by_cases hnamed : ∃ name, t = .named name
  · obtain ⟨name, rfl⟩ := hnamed
    obtain ⟨d, hd⟩ := type?_of_declared (ht name rfl)
    have hmem := (name_of_type? hd).1
    rw [resolve, follow_named hd]
    refine structural_of_not_returnsTo hs (List.pairwise_singleton ..) ?_ (hs d hmem)
      (hr d hmem) (by simp)
    simp only [List.forall_mem_singleton]
    exact ⟨d, hmem, rfl⟩
  · have hstructural : ∀ name, t ≠ .named name := fun name h => hnamed ⟨name, h⟩
    rw [resolve, follow_structural hstructural]
    exact hstructural

variable {sources : List Source} {types ds : List TypeDeclaration}

theorem not_returnsTo_of_checkCycles (h : checkCycles sources types ds = .ok ()) :
    ∀ d ∈ ds, returnsTo types d.name (types.length + 1) [] d.type = false := by
  induction ds with
  | nil => exact nofun
  | cons d ds ih =>
    rw [checkCycles] at h
    split at h
    · cases h
    · rename_i hr
      exact List.forall_mem_cons.2 ⟨eq_false_of_ne_true hr, ih h⟩

/-- A cycle is reported for a declaration that returns to itself. -/
theorem returnsTo_of_checkCycles {e : SchemaError} (h : checkCycles sources types ds = .error e) :
    ∃ d ∈ ds, e.cause = .cyclicAlias d.name ∧
      returnsTo types d.name (types.length + 1) [] d.type = true := by
  induction ds with
  | nil => cases h
  | cons d ds ih =>
    rw [checkCycles] at h
    split at h
    · rename_i hr
      cases h
      exact ⟨d, List.mem_cons_self, rfl, hr⟩
    · obtain ⟨d', hd', he⟩ := ih h
      exact ⟨d', List.mem_cons_of_mem _ hd', he⟩

end TypedConfig.Schema
