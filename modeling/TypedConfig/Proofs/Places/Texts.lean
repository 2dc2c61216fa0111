import TypedConfig.Proofs.Places.Trees
import TypedConfig.Source
import TypedConfig.Token.Lexer

/-! # Places in a text

An offset stands between two characters of a text if it is the size of a part that the text
begins with. The location of such an offset is told by the line feeds before it and the
characters since the last of them.
-/

namespace TypedConfig

namespace Text

@[simp] theorem byteSize_nil : byteSize [] = 0 := rfl

@[simp] theorem byteSize_cons (c : Char) (cs : List Char) :
    byteSize (c :: cs) = c.utf8Size + byteSize cs := rfl

@[simp] theorem byteSize_append (cs ds : List Char) :
    byteSize (cs ++ ds) = byteSize cs + byteSize ds := by
  induction cs with
  | nil => exact (Nat.zero_add _).symm
  | cons c cs ih => rw [List.cons_append, byteSize_cons, ih, byteSize_cons, Nat.add_assoc]

theorem byteSize_eq (cs : List Char) : byteSize cs = (String.ofList cs).utf8ByteSize := by
  induction cs with
  | nil => rw [String.ofList_nil]; rfl
  | cons c cs ih =>
    have happend : String.ofList (c :: cs) = String.singleton c ++ String.ofList cs := by
      rw [String.singleton_eq_ofList, ← String.ofList_append]
      rfl
    rw [byteSize_cons, ih, happend, String.utf8ByteSize_append, String.utf8ByteSize_singleton]

theorem byteSize_toList (s : String) : byteSize s.toList = s.utf8ByteSize := by
  rw [byteSize_eq, String.ofList_toList]

/-- The offset stands before the text, behind it or between two of its characters. -/
def Boundary (cs : List Char) (offset : Nat) : Prop :=
  ∃ before after, cs = before ++ after ∧ byteSize before = offset

theorem Boundary.le {cs : List Char} {n : Nat} (h : Boundary cs n) : n ≤ byteSize cs := by
  obtain ⟨before, after, rfl, rfl⟩ := h
  rw [byteSize_append]
  exact Nat.le_add_right ..

theorem Boundary.zero (cs : List Char) : Boundary cs 0 := ⟨[], cs, rfl, rfl⟩

theorem Boundary.size (cs : List Char) : Boundary cs (byteSize cs) :=
  ⟨cs, [], (List.append_nil cs).symm, rfl⟩

theorem Boundary.ite {cs : List Char} {n m : Nat} {p : Prop} [Decidable p] (hn : Boundary cs n)
    (hm : Boundary cs m) : Boundary cs (if p then n else m) := by
  split
  · exact hn
  · exact hm

end Text

open Text (Boundary byteSize)

namespace Location

/-- The location of an offset that stands behind a part of a text: one line further for every
line feed in the part, and one column for every character behind the last of them. -/
structure StandsAfter (l : Location) (before : List Char) : Prop where
  line : l.line = 1 + before.count '\n'
  column : l.column = 1 + (before.reverse.takeWhile (· ≠ '\n')).length

def next (l : Location) (c : Char) : Location :=
  if c = '\n' then ⟨l.line + 1, 1⟩ else { l with column := l.column + 1 }

theorem advance_append (here : Location) (before after : List Char) :
    advance here (before ++ after) (byteSize before) = before.foldl next here := by
  induction before generalizing here with
  | nil => cases after <;> rfl
  | cons c cs ih =>
    have hpos : byteSize (c :: cs) = (c.utf8Size + byteSize cs - 1) + 1 := by
      have := c.utf8Size_pos
      rw [Text.byteSize_cons]
      omega
    rw [List.cons_append, hpos, advance, ← hpos, Text.byteSize_cons, Nat.add_sub_cancel_left]
    exact ih _

theorem StandsAfter.start : StandsAfter ⟨1, 1⟩ [] := ⟨rfl, rfl⟩

theorem StandsAfter.next {l : Location} {before : List Char} (h : l.StandsAfter before)
    (c : Char) : (l.next c).StandsAfter (before ++ [c]) := by
  unfold Location.next
  split
  · rename_i hc
    subst hc
    exact ⟨by simp [h.line, Nat.add_assoc], by simp⟩
  · rename_i hc
    exact ⟨by simp [h.line, hc], by simp [h.column, hc, Nat.add_assoc]⟩

theorem standsAfter_resolve (source : String) {before after : List Char}
    (h : source.toList = before ++ after) :
    (resolve source (byteSize before)).StandsAfter before := by
  rw [resolve, h, advance_append]
  have hfold (l : Location) (done cs : List Char) (hl : l.StandsAfter done) :
      (cs.foldl Location.next l).StandsAfter (done ++ cs) := by
    induction cs generalizing l done with
    | nil => rwa [List.append_nil]
    | cons c cs ih => simpa using ih (l.next c) (done ++ [c]) (hl.next c)
  exact hfold _ [] before .start

end Location

structure Span.Within (cs : List Char) (s : Span) : Prop where
  start : Boundary cs s.start
  stop : Boundary cs s.stop
  ordered : s.start ≤ s.stop

theorem Span.Closed.within (cs : List Char) : Span.Closed (Span.Within cs) where
  join a b ha hb := by
    refine ⟨?_, ?_, ?_⟩
    · simp only [Span.join, Nat.min_def]
      exact ha.start.ite hb.start
    · simp only [Span.join, Nat.max_def]
      exact hb.stop.ite ha.stop
    · have hab := ha.ordered
      have hbb := hb.ordered
      simp only [Span.join]
      omega
  stop a ha := ⟨ha.stop, ha.stop, Nat.le_refl _⟩
  zero := ⟨.zero cs, .zero cs, Nat.le_refl _⟩

/-- A span and a location that an error shows for a source: the span ends within the source,
both its ends are places between characters, and the location is that of its start. -/
structure Source.Shows (s : Source) (location : Location) (span : Span) : Prop where
  ends : span.start + span.length ≤ s.text.utf8ByteSize
  stop : Boundary s.text.toList (span.start + span.length)
  start : ∃ before after, s.text.toList = before ++ after ∧ byteSize before = span.start ∧
    location.StandsAfter before

variable {source : Source} {span : Span}

theorem Span.Within.shows (h : span.Within source.text.toList) :
    source.Shows (.resolve source.text span.start) span := by
  have hlength : span.start + span.length = span.stop := Nat.add_sub_cancel' h.ordered
  refine ⟨?_, hlength ▸ h.stop, ?_⟩
  · rw [hlength, ← Text.byteSize_toList]
    exact h.stop.le
  · obtain ⟨before, after, htext, hsize⟩ := h.start
    exact ⟨before, after, htext, hsize, hsize ▸ Location.standsAfter_resolve _ htext⟩

theorem Source.clamp_of_within (h : span.Within source.text.toList) :
    source.clamp span = span := by
  have hstop := h.stop.le
  have hordered := h.ordered
  rw [Text.byteSize_toList] at hstop
  simp only [clamp, Nat.min_eq_left (Nat.le_trans hordered hstop), Nat.max_eq_left hordered,
    Nat.min_eq_left hstop]

end TypedConfig
