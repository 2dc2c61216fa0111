/-! # Entries

Values under text keys, in the order in which the keys first came. Putting a value under a key
that is present replaces the value in its place. Main statements: the keys after a put, and what
a look-up then finds.
-/

namespace TypedConfig

abbrev Entries (α : Type) := List (String × α)

namespace Entries

variable {α : Type}

def keys (es : Entries α) : List String := es.map Prod.fst

def get? : Entries α → String → Option α
  | [], _ => none
  | (k, v) :: es, key => if k = key then some v else get? es key

def contains (es : Entries α) (key : String) : Bool := (get? es key).isSome

/-- Replaces the value under a key, or adds the key at the end. -/
def put : Entries α → String → α → Entries α
  | [], key, v => [(key, v)]
  | (k, w) :: es, key, v => if k = key then (k, v) :: es else (k, w) :: put es key v

def putAll (es fs : Entries α) : Entries α := fs.foldl (fun acc f => put acc f.1 f.2) es

/-- The entries of a list of pairs, in which a later pair replaces an earlier one. -/
def ofList (ps : List (String × α)) : Entries α := putAll [] ps

def Distinct (es : Entries α) : Prop := (keys es).Nodup

theorem get?_put (es : Entries α) (key : String) (v : α) (other : String) :
    get? (put es key v) other = if key = other then some v else get? es other := by
  induction es with
  | nil => simp [put, get?]
  | cons e es ih =>
    obtain ⟨k, w⟩ := e
    by_cases h : k = key
    · subst h
      by_cases h' : k = other <;> simp [put, get?, h']
    · by_cases h' : k = other
      · subst h'
        simp [put, get?, h, Ne.symm h]
      · simp [put, get?, h, h', ih]

theorem contains_iff_mem_keys (es : Entries α) (key : String) :
    contains es key = true ↔ key ∈ keys es := by
  induction es with
  | nil => simp [contains, get?, keys]
  | cons e es ih =>
    obtain ⟨k, w⟩ := e
    by_cases h : k = key
    · simp [contains, get?, keys, h]
    · simp only [contains, get?, h, if_false, keys, List.map_cons, List.mem_cons] at ih ⊢
      rw [ih]
      simp [Ne.symm h]

theorem keys_put (es : Entries α) (key : String) (v : α) :
    keys (put es key v) = if key ∈ keys es then keys es else keys es ++ [key] := by
  induction es with
  | nil => simp [put, keys]
  | cons e es ih =>
    obtain ⟨k, w⟩ := e
    by_cases h : k = key
    · simp [put, keys, h]
    · simp only [put, h, if_false, keys, List.map_cons] at ih ⊢
      rw [ih]
      by_cases h' : key ∈ es.map Prod.fst <;> simp [h', Ne.symm h]

theorem Distinct.put {es : Entries α} (h : Distinct es) (key : String) (v : α) :
    Distinct (put es key v) := by
  unfold Distinct
  rw [keys_put]
  split
  · exact h
  · exact List.nodup_append.2 ⟨h, by simp, by grind⟩

end Entries

end TypedConfig
