import Mathlib.Data.List.Basic
import Mathlib.Tactic.Ring
import TypedConfig.Schema.Cache

/-! # Keys determine what is loaded

The bytes that a schema is kept under can be read back in one way: each text comes after its
length, and the limits are the last sixteen bytes. Loading goes by no more than they say.
-/

namespace TypedConfig

/-- The numbers that fit a machine word, as sizes and limits do. -/
def wordSize : Nat := 2 ^ 64

/-- A request for a schema: sources and limits whose sizes are machine words. -/
structure Loader where
  limits : Limits
  sources : List Source
  maxSourceBytes_lt : limits.maxSourceBytes < wordSize
  maxDepth_lt : limits.maxDepth < wordSize
  sources_lt : ∀ s ∈ sources, s.name.utf8ByteSize < wordSize ∧ s.text.utf8ByteSize < wordSize

namespace Loader

def load (l : Loader) : Except SchemaError Schema := Schema.load l.limits l.sources

def key (l : Loader) : CacheKey := .of l.limits l.sources

end Loader

namespace CacheKey

variable {a b : Nat} {s t : String} {k m : CacheKey}

/-- The number in bytes, the lowest first. -/
def toNumber : CacheKey → Nat
  | [] => 0
  | b :: k => b.toNat + 256 * toNumber k

theorem toNumber_digits (n k : Nat) :
    toNumber ((List.range k).map fun i => (n / Nat.pow 256 i).toUInt8) = n % 256 ^ k := by
  induction k generalizing n with
  | zero => rw [Nat.pow_zero, Nat.mod_one]; rfl
  | succ k ih =>
    have hshift (i : Nat) : n / Nat.pow 256 (i + 1) = n / 256 / Nat.pow 256 i := by
      rw [Nat.div_div_eq_div_mul, Nat.pow_eq, Nat.pow_eq, Nat.pow_succ']
    rw [List.range_succ_eq_map, List.map_cons, List.map_map, toNumber]
    have hrest := ih (n / 256)
    simp only [Function.comp_def, Nat.succ_eq_add_one, hshift, hrest]
    have hhead : (n / Nat.pow 256 0).toUInt8.toNat = n % 256 := by
      simp [Nat.pow_eq]
    rw [hhead, Nat.pow_succ', Nat.mod_mul]

theorem length_ofNumber (n : Nat) : (ofNumber n).length = 8 := by simp [ofNumber]

theorem ofNumber_inj (ha : a < wordSize) (hb : b < wordSize) (h : ofNumber a = ofNumber b) :
    a = b := by
  have hword : wordSize = 256 ^ 8 := by decide
  have hnumber := congrArg toNumber h
  rwa [ofNumber, ofNumber, toNumber_digits, toNumber_digits, ← hword, Nat.mod_eq_of_lt ha,
    Nat.mod_eq_of_lt hb] at hnumber

theorem length_bytes (s : String) : s.toUTF8.data.toList.length = s.utf8ByteSize := rfl

theorem bytes_inj (h : s.toUTF8.data.toList = t.toUTF8.data.toList) : s = t :=
  String.toByteArray_inj.1 (ByteArray.ext (Array.toList_inj.1 h))

/-- A text is read off the front of a key. -/
theorem ofText_append_inj (hs : s.utf8ByteSize < wordSize) (ht : t.utf8ByteSize < wordSize)
    (h : ofText s ++ k = ofText t ++ m) : s = t ∧ k = m := by
  unfold ofText at h
  rw [List.append_assoc, List.append_assoc] at h
  obtain ⟨hsize, h⟩ := List.append_inj h (by rw [length_ofNumber, length_ofNumber])
  have hlength := ofNumber_inj hs ht hsize
  obtain ⟨hbytes, h⟩ := List.append_inj h (by rw [length_bytes, length_bytes, hlength])
  exact ⟨bytes_inj hbytes, h⟩

theorem ofSource_ne_nil (s : Source) : ofSource s ≠ [] := by
  intro h
  have hlength := congrArg List.length h
  simp [ofSource, ofText, length_ofNumber] at hlength

theorem ofSources_inj {ss ts : List Source}
    (hs : ∀ s ∈ ss, s.name.utf8ByteSize < wordSize ∧ s.text.utf8ByteSize < wordSize)
    (ht : ∀ t ∈ ts, t.name.utf8ByteSize < wordSize ∧ t.text.utf8ByteSize < wordSize)
    (h : ss.flatMap ofSource = ts.flatMap ofSource) : ss = ts := by
  induction ss generalizing ts with
  | nil =>
    cases ts with
    | nil => rfl
    | cons t ts => exact absurd (List.append_eq_nil_iff.1 h.symm).1 (ofSource_ne_nil t)
  | cons s ss ih =>
    cases ts with
    | nil => exact absurd (List.append_eq_nil_iff.1 h).1 (ofSource_ne_nil s)
    | cons t ts =>
      obtain ⟨⟨hname, htext⟩, hss⟩ := List.forall_mem_cons.1 hs
      obtain ⟨⟨hname', htext'⟩, hts⟩ := List.forall_mem_cons.1 ht
      rw [List.flatMap_cons, List.flatMap_cons, ofSource, ofSource, List.append_assoc,
        List.append_assoc] at h
      obtain ⟨hn, hrest⟩ := ofText_append_inj hname hname' h
      obtain ⟨hx, hrest⟩ := ofText_append_inj htext htext' hrest
      have hst : s = t := by
        cases s
        cases t
        exact Source.mk.injEq .. ▸ ⟨hn, hx⟩
      rw [hst, ih hss hts hrest]

end CacheKey

namespace Loader

variable {a b : Loader}

/-- A key determines the sources and the limits that loading goes by. -/
theorem eq_of_key (h : a.key = b.key) :
    a.sources = b.sources ∧ a.limits.maxSourceBytes = b.limits.maxSourceBytes ∧
      a.limits.maxDepth = b.limits.maxDepth := by
  have hlength (n m : Nat) : (CacheKey.ofNumber n).length = (CacheKey.ofNumber m).length := by
    rw [CacheKey.length_ofNumber, CacheKey.length_ofNumber]
  unfold key CacheKey.of at h
  obtain ⟨h, hdepth⟩ := List.append_inj' h (hlength ..)
  obtain ⟨h, hbytes⟩ := List.append_inj' h (hlength ..)
  exact ⟨CacheKey.ofSources_inj a.sources_lt b.sources_lt h,
    CacheKey.ofNumber_inj a.maxSourceBytes_lt b.maxSourceBytes_lt hbytes,
    CacheKey.ofNumber_inj a.maxDepth_lt b.maxDepth_lt hdepth⟩

end Loader

namespace Schema

variable {l m : Limits}

theorem declarations_congr (hb : l.maxSourceBytes = m.maxSourceBytes)
    (hd : l.maxDepth = m.maxDepth) (source : Source) :
    declarations l source = declarations m source := by
  unfold declarations Limits.checkSource
  rw [hb, hd]

theorem draft_congr (hb : l.maxSourceBytes = m.maxSourceBytes) (hd : l.maxDepth = m.maxDepth)
    (d : Draft) (sources : List Source) : draft l d sources = draft m d sources := by
  induction sources generalizing d with
  | nil => rfl
  | cons source rest ih =>
    simp only [draft, declarations_congr hb hd, ih]

/-- Loading goes by the size of sources and the depth of types alone. -/
theorem load_congr (hb : l.maxSourceBytes = m.maxSourceBytes) (hd : l.maxDepth = m.maxDepth)
    (sources : List Source) : load l sources = load m sources := by
  unfold load
  rw [draft_congr hb hd]

end Schema

/-- Requests with one key are answered alike. -/
theorem Loader.load_eq_of_key {a b : Loader} (h : a.key = b.key) : a.load = b.load := by
  obtain ⟨hsources, hbytes, hdepth⟩ := eq_of_key h
  rw [load, load, hsources, Schema.load_congr hbytes hdepth]

end TypedConfig
