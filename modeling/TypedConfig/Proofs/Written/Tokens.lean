import TypedConfig.Proofs.Written.Lexing

/-! # Tokens of writable programs

A writable program is spelled with tokens that are read as they are written, and the braces of
an expression are balanced, so that no brace inside a hole of a template ends the hole.
-/

namespace TypedConfig

namespace Spelled

structure Sound (ts : List Spelled) : Prop where
  valid : ∀ t ∈ ts, t.Valid
  balanced : Balanced ts

theorem bracesAfter_append (depth : Nat) (ts us : List Spelled) :
    bracesAfter depth (ts ++ us) = (bracesAfter depth ts).bind fun d => bracesAfter d us := by
  induction ts generalizing depth with
  | nil => rfl
  | cons t ts ih =>
    rw [List.cons_append, bracesAfter, bracesAfter]
    split
    · rfl
    · exact ih _

namespace Sound

variable {t : Spelled} {ts us : List Spelled}

theorem nil : Sound [] := ⟨nofun, fun _ => rfl⟩

theorem append (hts : Sound ts) (hus : Sound us) : Sound (ts ++ us) := by
  constructor
  · intro t ht
    exact (List.mem_append.1 ht).elim (hts.valid t) (hus.valid t)
  · intro depth
    rw [bracesAfter_append, hts.balanced]
    exact hus.balanced depth

theorem single (ht : t.Valid) (hleft : t.isPunct .leftBrace = false)
    (hright : t.isPunct .rightBrace = false) : Sound [t] := by
  refine ⟨by simpa using ht, fun depth => ?_⟩
  simp [bracesAfter, hleft, hright]

theorem cons (ht : t.Valid) (hleft : t.isPunct .leftBrace = false)
    (hright : t.isPunct .rightBrace = false) (hts : Sound ts) : Sound (t :: ts) :=
  (single ht hleft hright).append hts

theorem punct (p : Punct) (hleft : (p == .leftBrace) = false) (hright : (p == .rightBrace) = false)
    (hts : Sound ts) : Sound (.punct p :: ts) :=
  cons (.punct p) hleft hright hts

theorem name {text : String} (h : isName text.toList = true) (hts : Sound ts) :
    Sound (.name text :: ts) := cons (.name h) rfl rfl hts

/-- Tokens between braces. -/
theorem inBraces (hts : Sound ts) (hus : Sound us) :
    Sound (.punct .leftBrace :: (ts ++ .punct .rightBrace :: us)) := by
  constructor
  · intro t ht
    rcases List.mem_cons.1 ht with rfl | ht
    · exact .punct _
    · rcases List.mem_append.1 ht with ht | ht
      · exact hts.valid t ht
      · rcases List.mem_cons.1 ht with rfl | ht
        · exact .punct _
        · exact hus.valid t ht
  · intro depth
    change bracesAfter (depth + 1) (ts ++ .punct .rightBrace :: us) = some depth
    rw [bracesAfter_append, hts.balanced]
    exact hus.balanced depth

theorem inParens (hts : Sound ts) : Sound (Spelled.inParens ts) :=
  .punct _ rfl rfl (hts.append (.punct _ rfl rfl .nil))

theorem separated {α : Type} {spell : α → List Spelled} {xs : List α}
    (h : ∀ x ∈ xs, Sound (spell x)) : Sound (Spelled.separated (xs.map spell)) := by
  induction xs with
  | nil => exact .nil
  | cons x xs ih =>
    have hx := h x List.mem_cons_self
    have hxs := ih fun y hy => h y (List.mem_cons_of_mem _ hy)
    cases xs with
    | nil => exact hx
    | cons y xs =>
      rw [List.map_cons, List.map_cons, Spelled.separated]
      · exact hx.append (.punct _ rfl rfl hxs)
      · exact nofun

theorem flatMap {α : Type} {spell : α → List Spelled} {xs : List α}
    (h : ∀ x ∈ xs, Sound (spell x)) : Sound (xs.flatMap spell) := by
  induction xs with
  | nil => exact .nil
  | cons x xs ih =>
    rw [List.flatMap_cons]
    exact (h x List.mem_cons_self).append (ih fun y hy => h y (List.mem_cons_of_mem _ hy))

end Sound

end Spelled

open Spelled (Sound)

namespace Expr

theorem text?_spellSegments (segments : List TemplateSegment) :
    (spellSegments segments).map SpelledPiece.text? = segments.map TemplateSegment.text? := by
  induction segments with
  | nil => rfl
  | cons s segments ih => cases s <;> exact congrArg (List.cons _) ih

theorem mem_spellSegments {segments : List TemplateSegment} {ts : List Spelled}
    (h : .hole ts ∈ spellSegments segments) :
    ∃ e, .hole e ∈ segments ∧ ts = Spelled.inParens e.spell := by
  induction segments with
  | nil => cases h
  | cons s segments ih =>
    cases s with
    | text s =>
      rcases List.mem_cons.1 h with h | h
      · cases h
      · obtain ⟨e, he, hts⟩ := ih h
        exact ⟨e, List.mem_cons_of_mem _ he, hts⟩
    | hole e =>
      rcases List.mem_cons.1 h with h | h
      · cases h
        exact ⟨e, List.mem_cons_self, rfl⟩
      · obtain ⟨e, he, hts⟩ := ih h
        exact ⟨e, List.mem_cons_of_mem _ he, hts⟩

theorem sound_arrayItem {i : ArrayItem} (h : Sound i.value.spell) : Sound i.spell := by
  cases i with
  | item e => exact .inParens h
  | spread e => exact .punct _ rfl rfl (.inParens h)

theorem sound_objectMember {m : ObjectMember} (h : Sound m.value.spell) : Sound m.spell := by
  cases m with
  | field key s e => exact .cons (.string key) rfl rfl (.punct _ rfl rfl (.inParens h))
  | spread e => exact .punct _ rfl rfl (.inParens h)

/-- A writable expression is spelled with valid tokens and balanced braces. -/
theorem Writable.sound {e : Expr} (h : e.Writable) : Sound e.spell := by
  induction h with
  | string s v => exact .cons (.string v) rfl rfl .nil
  | number s small => exact .cons (.number small) rfl rfl .nil
  | boolean s b => cases b <;> exact .name (by decide) .nil
  | null s => exact .name (by decide) .nil
  | undefined s => exact .name (by decide) .nil
  | name s identifier => exact .name identifier.valid .nil
  | @template s segments shape holes ih =>
    refine .cons (.template ?_ ?_ ?_) rfl rfl .nil
    · rw [text?_spellSegments]
      exact shape
    · intro ts hts
      obtain ⟨e, he, rfl⟩ := mem_spellSegments hts
      exact (Sound.inParens (ih e he)).balanced
    · intro ts hts
      obtain ⟨e, he, rfl⟩ := mem_spellSegments hts
      exact (Sound.inParens (ih e he)).valid
  | array s values ih =>
    rw [spell, spellItems_eq_map]
    refine .punct _ rfl rfl (.append (.separated fun i hi => ?_) (.punct _ rfl rfl .nil))
    exact sound_arrayItem (ih i hi)
  | object s values ih =>
    rw [spell, spellMembers_eq_map]
    exact .inBraces (.separated fun m hm => sound_objectMember (ih m hm)) .nil
  | member s object property ih =>
    exact .append (.inParens ih) (.punct _ rfl rfl (.name property .nil))
  | index s object position iho ihi =>
    exact .append (.inParens iho)
      (.punct _ rfl rfl (.append (.inParens ihi) (.punct _ rfl rfl .nil)))
  | call s callee arguments ihf ihargs =>
    rw [spell, spellArguments_eq_map]
    refine .append (.inParens ihf) (.punct _ rfl rfl ?_)
    exact .append (.separated fun e he => .inParens (ihargs e he)) (.punct _ rfl rfl .nil)
  | arrow s identifiers differ result ih =>
    refine .punct _ rfl rfl (.append (.separated fun p hp => ?_) ?_)
    · exact .name (identifiers p hp).valid .nil
    · exact .punct _ rfl rfl (.punct _ rfl rfl (.inParens ih))
  | unary s op operand ih =>
    cases op <;> exact .punct _ rfl rfl (.inParens ih)
  | binary s op left right ihl ihr =>
    refine .append (.inParens ihl) ?_
    cases op <;> exact .punct _ rfl rfl (.inParens ihr)
  | conditional s test consequent alternate iht ihc iha =>
    refine .append (.inParens iht) (.punct _ rfl rfl (.append (.inParens ihc) ?_))
    exact .punct _ rfl rfl (.inParens iha)

theorem Writable.sound_whole {e : Expr} (h : e.Writable) (parens : Bool) :
    Sound (e.spellWhole parens) := by
  cases parens
  · exact h.sound
  · exact .inParens h.sound

end Expr

theorem Import.sound (i : Import) : Sound i.spell :=
  .name (by decide) (.cons (.string i.path) rfl rfl (.punct _ rfl rfl .nil))

theorem Statement.Writable.sound {s : Statement} (h : s.Writable) (parens : Bool) :
    Sound (s.spell parens) := by
  have hsemicolon : Sound [.punct .semicolon] := .punct _ rfl rfl .nil
  cases h with
  | @declare kind name init s identifier value expression =>
    have hword : isName kind.word.toList = true := by cases kind <;> decide
    cases init with
    | none => exact .name hword (.name identifier.valid hsemicolon)
    | some e =>
      refine .name hword (.name identifier.valid (.punct _ rfl rfl ?_))
      exact ((expression e rfl).sound_whole parens).append hsemicolon
  | assign s identifier expression =>
    refine .name identifier.valid (.punct _ rfl rfl ?_)
    exact (expression.sound_whole parens).append hsemicolon
  | expression expression => exact (expression.sound_whole parens).append hsemicolon

theorem Program.Writable.sound {p : Program} (h : p.Writable) (parens : Bool) :
    Sound (p.spell parens) :=
  .append (.flatMap fun i _ => i.sound) (.flatMap fun s hs => (h s hs).sound parens)

end TypedConfig
