import Mathlib.Data.List.Nodup
import Mathlib.Data.List.Perm.Basic
import TypedConfig.Entries

/-! # Looking entries up

What is found under a key after entries are put, and what holds of all values. Entries with
distinct keys may stand in any order.
-/

namespace TypedConfig

namespace Entries

variable {α β : Type} {P : α → Prop} {es fs : Entries α} {key : String} {v : α}

theorem mem_of_get? (h : get? es key = some v) : (key, v) ∈ es := by
  induction es with
  | nil => cases h
  | cons e es ih =>
    obtain ⟨k, w⟩ := e
    rw [get?] at h
    split at h
    · rename_i hk
      cases h
      exact hk ▸ .head _
    · exact .tail _ (ih h)

theorem get?_eq_none (h : key ∉ keys es) : get? es key = none := by
  have hc : contains es key = false := by
    rw [← Bool.not_eq_true, contains_iff_mem_keys]
    exact h
  exact Option.isNone_iff_eq_none.1 (by simpa [contains] using hc)

theorem contains_put (es : Entries α) (key : String) (v : α) (other : String) :
    contains (put es key v) other = (decide (key = other) || contains es other) := by
  rw [contains, get?_put]
  split
  · simp [*]
  · simp [*, contains]

theorem forall_put (h : ∀ e ∈ es, P e.2) (hv : P v) : ∀ e ∈ put es key v, P e.2 := by
  induction es with
  | nil => exact List.forall_mem_singleton.2 hv
  | cons e es ih =>
    obtain ⟨he, hes⟩ := List.forall_mem_cons.1 h
    rw [put]
    split
    · exact List.forall_mem_cons.2 ⟨hv, hes⟩
    · exact List.forall_mem_cons.2 ⟨he, ih hes⟩

theorem forall_putAll (h : ∀ e ∈ es, P e.2) (hf : ∀ e ∈ fs, P e.2) :
    ∀ e ∈ putAll es fs, P e.2 := by
  induction fs generalizing es with
  | nil => exact h
  | cons f fs ih =>
    obtain ⟨hf, hfs⟩ := List.forall_mem_cons.1 hf
    exact ih (forall_put h hf) hfs

/-- Of entries with distinct keys, each put is found again. -/
theorem get?_putAll (hf : Distinct fs) (es : Entries α) (key : String) :
    get? (putAll es fs) key = (get? fs key).or (get? es key) := by
  induction fs generalizing es with
  | nil => rfl
  | cons f fs ih =>
    obtain ⟨k, w⟩ := f
    obtain ⟨hk, hfs⟩ := List.nodup_cons.1 hf
    have hput : putAll es ((k, w) :: fs) = putAll (put es k w) fs := rfl
    rw [hput, ih hfs, get?_put, get?]
    split
    · rename_i heq
      subst heq
      rw [get?_eq_none hk]
      rfl
    · rfl

theorem get?_ofList (hd : Distinct es) (key : String) : get? (ofList es) key = get? es key := by
  rw [ofList, get?_putAll hd]
  exact Option.or_none

theorem get?_of_mem (hd : Distinct es) (h : (key, v) ∈ es) : get? es key = some v := by
  induction h with
  | head es => exact if_pos rfl
  | @tail e es h ih =>
    obtain ⟨hk, hes⟩ := List.nodup_cons.1 hd
    have hne : e.1 ≠ key := fun heq => hk (heq ▸ List.mem_map_of_mem h)
    exact (if_neg hne).trans (ih hes)

theorem get?_perm (h : es.Perm fs) (hd : Distinct es) (key : String) :
    get? es key = get? fs key := by
  induction h with
  | nil => rfl
  | cons e _ ih =>
    rw [get?, get?, ih (List.nodup_cons.1 hd).2]
  | swap e f es =>
    obtain ⟨k, v⟩ := e
    obtain ⟨l, w⟩ := f
    have hne : l ≠ k := fun h => (List.nodup_cons.1 hd).1 (h ▸ .head _)
    simp only [get?]
    split
    · rename_i hl
      rw [if_neg (fun hk => hne (hl.trans hk.symm))]
    · rfl
  | trans hp _ ih ih' => exact (ih hd).trans (ih' ((hp.map Prod.fst).nodup_iff.1 hd))

/-- What entries of distinct keys bind does not depend on their order. -/
theorem get?_ofList_perm (h : es.Perm fs) (hd : Distinct es) (key : String) :
    get? (ofList es) key = get? (ofList fs) key := by
  rw [get?_ofList hd, get?_ofList ((h.map Prod.fst).nodup_iff.1 hd), get?_perm h hd]

variable (f : α → β)

/-- The same keys with every value put through a function. -/
def mapValues (es : Entries α) : Entries β := es.map fun e => (e.1, f e.2)

theorem get?_mapValues (es : Entries α) (key : String) :
    get? (mapValues f es) key = (get? es key).map f := by
  induction es with
  | nil => rfl
  | cons e es ih =>
    simp only [mapValues, List.map_cons, get?] at ih ⊢
    split
    · rfl
    · exact ih

theorem contains_mapValues (es : Entries α) (key : String) :
    contains (mapValues f es) key = contains es key := by
  rw [contains, get?_mapValues, Option.isSome_map, contains]

theorem put_mapValues (es : Entries α) (key : String) (v : α) :
    put (mapValues f es) key (f v) = mapValues f (put es key v) := by
  induction es with
  | nil => rfl
  | cons e es ih =>
    simp only [mapValues, List.map_cons, put] at ih ⊢
    split
    · rfl
    · exact congrArg (List.cons _) ih

theorem putAll_mapValues (es fs : Entries α) :
    putAll (mapValues f es) (mapValues f fs) = mapValues f (putAll es fs) := by
  induction fs generalizing es with
  | nil => rfl
  | cons e fs ih =>
    simp only [putAll, mapValues, List.map_cons, List.foldl_cons] at ih ⊢
    have hput := put_mapValues f es e.1 e.2
    rw [mapValues, mapValues] at hput
    rw [hput]
    exact ih _

end Entries

end TypedConfig
