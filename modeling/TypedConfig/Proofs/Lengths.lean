import TypedConfig.Proofs.Number.Whole
import TypedConfig.Proofs.Simulation.Methods

/-! # Lengths of texts

The length of a text counts sixteen-bit units, while its indices and its parts at an empty
separator count characters. They agree if and only if every character is one unit; an index has
to be below `Number.indexBound` besides. What a check knows of these expressions is what they
evaluate to.
-/

namespace TypedConfig

namespace Text

/-- A text of characters that are one unit each. -/
def IsBasic (s : String) : Prop := ∀ c ∈ s.toList, c.toNat < 0x10000

instance (s : String) : Decidable (IsBasic s) :=
  inferInstanceAs (Decidable (∀ c ∈ s.toList, c.toNat < 0x10000))

theorem unitSize_eq (c : Char) : unitSize c = 1 + if c.toNat < 0x10000 then 0 else 1 := by
  unfold unitSize
  split <;> rfl

/-- A character beyond the first plane is one unit more than it is characters. -/
theorem units_eq (s : String) :
    units s = s.length + s.toList.countP fun c => !decide (c.toNat < 0x10000) := by
  rw [units, ← String.length_toList]
  induction s.toList with
  | nil => rfl
  | cons c cs ih =>
    rw [List.map_cons, List.foldr_cons, ih, unitSize_eq, List.length_cons, List.countP_cons]
    by_cases hc : c.toNat < 0x10000
    · simp only [hc, decide_true, if_true, Bool.not_true, Bool.false_eq_true, if_false]
      omega
    · simp only [hc, decide_false, if_false, Bool.not_false, if_true]
      omega

theorem units_eq_length_iff {s : String} : units s = s.length ↔ IsBasic s := by
  rw [units_eq, Nat.add_eq_left, List.countP_eq_zero]
  simp [IsBasic]

end Text

/-- A text has a character at the whole numbers from zero that are below its number of
characters and below the bound of all indices. -/
theorem charAt?_isSome_iff {s : String} {x : Float} :
    (charAt? s x).isSome = true ↔
      ∃ i : Nat, Number.whole? x = some (i : Int) ∧ i < min s.length Number.indexBound := by
  rw [charAt?, Number.index?]
  rcases Number.whole? x with _ | n
  · simp
  · by_cases hn : 0 ≤ n ∧ n < Number.indexBound
    · obtain ⟨i, rfl⟩ := Int.eq_ofNat_of_zero_le hn.1
      have hi : i < Number.indexBound := by exact_mod_cast hn.2
      simp [hi, String.length_toList]
    · simp only [hn, if_false, Option.bind_none, Option.isSome_none, Option.some.injEq]
      constructor
      · exact fun h => absurd h Bool.false_ne_true
      · rintro ⟨i, rfl, hi⟩
        exact absurd ⟨Int.natCast_nonneg i, by exact_mod_cast (lt_min_iff.1 hi).2⟩ hn

def Datum.length? : Datum → Option Float
  | .array items => some (lengthNumber items.length)
  | d => d.text?.map textLength

namespace Shape

variable {shape : Shape} {d : Datum}

/-- A shape describes a datum, or something about it is not known. -/
def StandsFor (shape : Shape) (d : Datum) : Prop :=
  Describes True shape d ∨ ∃ b ∈ flatten [shape], b.isUnknown = true

theorem StandsFor.of_unknown (s : Span) : StandsFor (.unknown s) d :=
  .inr ⟨_, List.mem_singleton_self _, rfl⟩

/-- The scalar that such a shape is known to be is that of the datum. -/
theorem StandsFor.scalar? (h : StandsFor shape d) {k : Scalar} (hk : shape.scalar? = some k) :
    d.scalar? = some k := by
  rcases h with h | ⟨b, hb, hu⟩
  · exact scalar?_of_describes h hk
  · cases shape <;> simp_all [flatten, isUnknown, Shape.scalar?]

/-- One of several shapes stands for what one of them does. -/
theorem StandsFor.oneOf {shapes : List Shape} (span : Span)
    (h : ∃ shape ∈ shapes, StandsFor shape d) (σ : Check.State) :
    StandsFor (Check.value (Check.oneOf shapes span) σ) d := by
  obtain ⟨shape, hm, h⟩ := h
  unfold Check.oneOf
  split
  · rename_i r hr
    rcases h with h | ⟨b, hb, hu⟩
    · exact .inl (oneOf?_describes hr hm h (.inl trivial))
    · -- The alternatives of one of the shapes are alternatives of the whole.
      have hflat : b ∈ flatten shapes := by
        rcases mem_flatten.1 hb with ⟨hb, ho⟩ | ⟨s, bs, hs, hb⟩
        · exact mem_flatten.2 (.inl ⟨List.mem_singleton.1 hb ▸ hm, ho⟩)
        · exact mem_flatten.2 (.inr ⟨s, bs, List.mem_singleton.1 hs ▸ hm, hb⟩)
      rw [Check.value_pure]
      unfold oneOf? at hr
      split at hr
      · rename_i single hf
        cases hr
        rw [hf, List.mem_singleton] at hflat
        subst hflat
        cases b <;> simp_all [isUnknown, StandsFor, flatten]
      · split at hr
        · cases hr
        · cases hr
          exact .inr ⟨b, by simpa [flatten] using hflat, hu⟩
  · exact .of_unknown span

end Shape

namespace Check

open Shape (Describes StandsFor)

variable {shape receiver position : Shape} {d e r : Datum} {s : String} {span : Span}
  {σ : State}

theorem standsFor_refuse (expected found : String) (errorSpan : Span) :
    StandsFor (value (refuse expected found errorSpan span) σ) d := .of_unknown span

/-- What a computation gives for one of several shapes is among what it gives for all. -/
theorem standsFor_mapM {f : Shape → CheckM Shape} {shapes : List Shape} (hm : shape ∈ shapes)
    (h : ∀ σ, StandsFor (value (f shape) σ) r) (σ : State) :
    ∃ result ∈ value (shapes.mapM f) σ, StandsFor result r := by
  induction shapes generalizing σ with
  | nil => cases hm
  | cons first shapes ih =>
    rw [List.mapM_cons]
    simp only [value_bind, value_pure]
    rcases List.mem_cons.1 hm with rfl | hm
    · exact ⟨_, List.mem_cons_self, h σ⟩
    · obtain ⟨result, hmem, hr⟩ := ih hm (after (f first) σ)
      exact ⟨result, List.mem_cons_of_mem _ hmem, hr⟩

/-- A computation that goes through alternatives and gives nothing for the unknown stands for
what it stands for on shapes that are not one of several. -/
theorem standsFor_alternatives (span : Span) {f : Shape → CheckM Shape}
    (hf : ∀ s bs, f (.oneOf s bs) = do oneOf (← bs.mapM f) span)
    (hu : ∀ s σ, StandsFor (value (f (.unknown s)) σ) r)
    (plain : ∀ shape, (∀ s bs, shape ≠ .oneOf s bs) → Describes True shape d →
      ∀ σ, StandsFor (value (f shape) σ) r) :
    ∀ shape, StandsFor shape d → ∀ σ, StandsFor (value (f shape) σ) r
  | .oneOf s bs, h, σ => by
    have hb : ∃ b ∈ bs, StandsFor b d := by
      rcases h with h | ⟨b, hb, hunknown⟩
      · obtain ⟨-, b, hb, h⟩ := Shape.describes_oneOf.1 h
        exact ⟨b, hb, .inl h⟩
      · cases b <;> simp_all [Shape.flatten, Shape.isUnknown]
        exact ⟨_, hb, .of_unknown _⟩
    obtain ⟨b, hm, hb⟩ := hb
    have : sizeOf b < 1 + sizeOf s + sizeOf bs := by
      have := List.sizeOf_lt_of_mem hm
      omega
    rw [hf, value_bind]
    exact .oneOf span (standsFor_mapM hm (standsFor_alternatives span hf hu plain b hb) σ) _
  | .unknown s, _, σ => hu s σ
  | .string .., h, σ | .number .., h, σ | .boolean .., h, σ | .sentinel .., h, σ
  | .record .., h, σ | .tuple .., h, σ | .array .., h, σ | .function .., h, σ | .null _, h, σ
  | .undefined _, h, σ =>
    plain _ (by simp) (h.resolve_right (by simp [Shape.flatten, Shape.isUnknown])) σ
termination_by shape => sizeOf shape

/-- The length of a shape that is not one of several describes that of its datum, if the datum
has one. -/
theorem describes_plainLength (h : Describes True shape d) (ho : ∀ s bs, shape ≠ .oneOf s bs)
    {n : Float} (hn : d.length? = some n) (span : Span) :
    ∃ result, plainMember shape "length" span = pure result ∧
      Describes True result (.number n) := by
  cases shape with
  | oneOf s bs => exact absurd rfl (ho s bs)
  | unknown => exact h.elim
  | record | function | number | boolean => obtain ⟨_, rfl, _⟩ := h; cases hn
  | null | undefined => cases h; cases hn
  | tuple s items =>
    obtain ⟨ds, rfl, hi⟩ := h
    cases hn
    have hlen : items.length = ds.length := (Shape.describesAll_iff.1 hi).length_eq
    exact ⟨_, rfl, _, rfl, .inl (by rw [hlen])⟩
  | array s element =>
    obtain ⟨-, ds, rfl, -⟩ := h
    cases hn
    exact ⟨_, rfl, _, rfl, .inr ⟨trivial, rfl⟩⟩
  | string s known =>
    obtain ⟨v, rfl, hk⟩ := h
    cases hn
    exact ⟨_, rfl, _, rfl, hk.map textLength⟩
  | sentinel s c =>
    have hd : d = .sentinel c := h
    subst hd
    replace hn : (Datum.sentinel c).text?.map textLength = some n := hn
    obtain ⟨t, ht, rfl⟩ := Option.map_eq_some_iff.1 hn
    have htext : (Shape.sentinel s c).isText = true := by
      rw [← isText_eq h ho, Datum.isText, ht, Option.isSome_some]
    obtain ⟨u, hu, hk⟩ := Shape.isText_of_describes h htext
    cases ht.symm.trans hu
    simp only [plainMember, htext, or_true, and_self, if_true]
    exact ⟨_, rfl, _, rfl, hk.map textLength⟩

theorem standsFor_length (h : StandsFor shape d) {n : Float} (hn : d.length? = some n)
    (σ : State) : StandsFor (value (member "length" span shape) σ) (.number n) := by
  refine standsFor_alternatives span (f := member "length" span) (fun s bs => ?_)
    (fun s σ => .of_unknown span) (fun shape ho h σ => ?_) shape h σ
  · rw [member, members_eq]
  · obtain ⟨result, hm, hr⟩ := describes_plainLength h ho hn span
    rw [member_eq ho, hm]
    exact .inl hr

/-- What is known of the character of a shape at a position is the character of the text. -/
theorem charAt?_of_index (h : Describes True receiver d) (hs : d.text? = some s)
    (hp : Describes True position e) {x : Float} (hx : e.number? = some x) {k : Scalar}
    (hk : (value (index receiver position span) σ).scalar? = some k) :
    ∃ c, charAt? s x = some c ∧ k = .string c := by
  unfold index at hk
  split at hk
  · cases hk
  · cases hk
  · obtain ⟨ds, rfl, -⟩ := h; cases hs
  · obtain ⟨ds, rfl, -⟩ := h; cases hs
  · obtain ⟨-, ds, rfl, -⟩ := h; cases hs
  · split at hk
    · obtain ⟨entries, rfl, -⟩ := h; cases hs
    · cases hk
    · split at hk
      · obtain ⟨t, hd, ht⟩ := Shape.isText_of_describes h ‹_›
        cases hs.symm.trans hd
        obtain ⟨v, rfl, hv⟩ := hp
        cases hx
        rw [value_pure] at hk
        rcases ht with ht | ⟨-, ht⟩
        · rcases hv with rfl | ⟨-, rfl⟩
          · rw [ht] at hk
            simp only [Option.bind_eq_bind, Option.bind_some] at hk
            rcases hc : charAt? s x with _ | c
            · rw [hc] at hk; cases hk
            · rw [hc] at hk; cases hk; exact ⟨c, rfl, rfl⟩
          · rw [ht] at hk; cases hk
        · rw [ht] at hk; cases hk
      · cases hk

theorem standsFor_plainParts {sep : Shape} {t : String} (h : Describes True receiver d)
    (ho : ∀ s bs, receiver ≠ .oneOf s bs) (hs : d.text? = some s) (hsep : Describes True sep e)
    (ht : e.text? = some t) (call : Caller) (σ : State) :
    StandsFor (value (plainMethod call receiver "split" [sep] span) σ)
      (.array ((Text.split s t).map .string)) := by
  have htext : receiver.isText = true := by rw [← isText_eq h ho, Datum.isText, hs]; rfl
  obtain ⟨u, hu, hk⟩ := Shape.isText_of_describes h htext
  cases hs.symm.trans hu
  have hm : plainMethod call receiver "split" [sep] span = splitText receiver.text? [sep] span := by
    cases receiver <;> simp_all [plainMethod, Shape.elements?, Shape.isText, Shape.kind?,
      textMethod, textMethod?]
  rw [hm]
  rcases hst : sep.isText with _ | _
  · rw [splitText, hst]
    exact standsFor_refuse _ _ _
  · obtain ⟨v, hv, hkv⟩ := Shape.isText_of_describes hsep hst
    cases ht.symm.trans hv
    obtain ⟨result, hr, hd⟩ := describes_split hk hst hkv [] span
    rw [hr]
    exact .inl hd

/-- The parts of a shape stand for those of the text. -/
theorem standsFor_parts {sep : Shape} {t : String} (h : StandsFor receiver d)
    (hs : d.text? = some s) (hsep : Describes True sep e) (ht : e.text? = some t)
    (call : Caller) (span : Span) (σ : State) :
    StandsFor (value (method call "split" [sep] span receiver) σ)
      (.array ((Text.split s t).map .string)) := by
  refine standsFor_alternatives span (f := method call "split" [sep] span) (fun s bs => ?_)
    (fun s σ => .of_unknown span) (fun shape ho h σ => ?_) receiver h σ
  · rw [method, methods_eq]
  · have hm : method call "split" [sep] span shape =
        plainMethod call shape "split" [sep] span := by
      cases shape <;> simp_all [method]
    rw [hm]
    exact standsFor_plainParts h ho hs hsep ht call σ

end Check

namespace Eval

open Shape (Describes)
open Check (infer value after)

variable {call : Caller} {text position : Expr} {ρ : Scope} {d p : Datum} {s : String} {x : Float}
  {span inner key : Span}

theorem gives_length (hd : Gives (eval call text) ρ (.ok d)) {n : Float}
    (hn : d.length? = some n) :
    Gives (eval call (.member span text ⟨"length", key⟩)) ρ (.ok (.number n)) := by
  refine hd.bind ?_
  cases d with
  | array items => cases hn; exact .pure _
  | string v => cases hn; exact .pure _
  | sentinel c =>
    replace hn : (Datum.sentinel c).text?.map textLength = some n := hn
    obtain ⟨t, ht, rfl⟩ := Option.map_eq_some_iff.1 hn
    rw [Datum.member_text ht]
    exact .pure _
  | _ => cases hn

theorem gives_parts (hd : Gives (eval call text) ρ (.ok d)) (hs : d.text? = some s)
    (sep : String) :
    Gives (eval call (.call span (.member inner text ⟨"split", key⟩) [.string inner sep])) ρ
      (.ok (.array ((Text.split s sep).map .string))) := by
  refine hd.bind ((Gives.bind (.pure _) (.pure _)).bind ?_)
  rw [Datum.method_text hs]
  exact .pure _

theorem index_text (hs : d.text? = some s) (hx : p.number? = some x) :
    index d p span = match charAt? s x with
      | some c => pure (.string c)
      | none => fail .textBounds span := by
  have hindex : index d p span = match p.number?.bind (charAt? s) with
      | some c => pure (.string c)
      | none => fail .textBounds span := by
    cases d with
    | string v => cases hs; rfl
    | sentinel c =>
      unfold index
      generalize (Datum.sentinel c).text? = known at hs ⊢
      subst hs
      rfl
    | _ => cases hs
  rw [hindex, hx, Option.bind_some]

theorem gives_index_iff (hd : Gives (eval call text) ρ (.ok d)) (hs : d.text? = some s)
    (hp : Gives (eval call position) ρ (.ok p)) (hx : p.number? = some x) {r : Datum} :
    Gives (eval call (.index span text position)) ρ (.ok r) ↔
      ∃ c, charAt? s x = some c ∧ r = .string c := by
  have hrun {r : Except Fault Datum} (h : Gives (index d p span) ρ r) :
      Gives (eval call (.index span text position)) ρ r := hd.bind (hp.bind h)
  rw [index_text hs hx] at hrun
  rcases hc : charAt? s x with _ | c
  · rw [hc] at hrun
    have herror := hrun (.fail _ _)
    constructor
    · intro h
      cases congrArg Prod.fst (h.symm.trans herror)
    · nofun
  · rw [hc] at hrun
    have hok := hrun (.pure _)
    constructor
    · intro h
      cases congrArg Prod.fst (h.symm.trans hok)
      exact ⟨c, rfl, rfl⟩
    · rintro ⟨c', hc', rfl⟩
      cases hc'
      exact hok

section

variable (span inner key : Span) (text position : Expr)

/-- `text.length` -/
def lengthOf : Expr := .member span text ⟨"length", key⟩

/-- `text.split("")` -/
def partsOf : Expr := .call span (.member inner text ⟨"split", key⟩) [.string inner ""]

/-- What a check knows of an expression is what it evaluates to. -/
def Foretold (known : Shape) (evaluated : EvalM Datum) (ρ : Scope) : Prop :=
  ∀ k, known.scalar? = some k → ∃ r, Gives evaluated ρ (.ok r) ∧ r.scalar? = some k

end

/-- An expression for a text: its length counts units and its parts are characters, of which there
are as many if and only if all are one unit, and an index succeeds at whole numbers below the
number of characters and the bound of indices. Whatever a check that describes the text and the
position knows of the three is what they evaluate to. -/
theorem places_of_text (hd : Gives (eval call text) ρ (.ok d)) (hs : d.text? = some s)
    (hp : Gives (eval call position) ρ (.ok p)) (hx : p.number? = some x) :
    (Gives (eval call (lengthOf span key text)) ρ (.ok (.number (lengthNumber (Text.units s)))) ∧
      Gives (eval call (lengthOf span key (partsOf span inner key text))) ρ
        (.ok (.number (lengthNumber s.length))) ∧
      (Text.units s = s.length ↔ Text.IsBasic s) ∧
      ((∃ r, Gives (eval call (.index span text position)) ρ (.ok r)) ↔
        ∃ i : Nat, Number.whole? x = some (i : Int) ∧ i < min s.length Number.indexBound)) ∧
    ∀ (check : Check.Caller) (σ : Check.State),
      Describes True (value (infer check text) σ) d →
      Describes True (value (infer check position) (after (infer check text) σ)) p →
      ∀ e ∈ [lengthOf span key text, lengthOf span key (partsOf span inner key text),
          .index span text position],
        Foretold (value (infer check e) σ) (eval call e) ρ := by
  have hlength : d.length? = some (lengthNumber (Text.units s)) := by
    cases d <;> simp_all [Datum.length?, textLength, Datum.text?, Datum.scalar?]
  have hcount : (Datum.array ((Text.split s "").map .string)).length? =
      some (lengthNumber s.length) := by
    simp [Datum.length?, Text.split, String.length_toList]
  have hparts : Gives (eval call (partsOf span inner key text)) ρ _ := gives_parts hd hs ""
  refine ⟨⟨gives_length hd hlength, gives_length hparts hcount, Text.units_eq_length_iff, ?_⟩, ?_⟩
  · rw [← charAt?_isSome_iff, Option.isSome_iff_exists]
    constructor
    · rintro ⟨r, hr⟩
      obtain ⟨c, hc, -⟩ := (gives_index_iff hd hs hp hx).1 hr
      exact ⟨c, hc⟩
    · rintro ⟨c, hc⟩
      exact ⟨_, (gives_index_iff hd hs hp hx).2 ⟨c, hc, rfl⟩⟩
  · intro check σ htext hposition e he k hk
    simp only [List.mem_cons, List.not_mem_nil, or_false] at he
    rcases he with rfl | rfl | rfl
    · exact ⟨_, gives_length hd hlength,
        (Check.standsFor_length (.inl htext) hlength _).scalar? hk⟩
    · refine ⟨_, gives_length hparts hcount, ?_⟩
      have hsep : Describes True (.string inner (some "")) (.string "") := ⟨"", rfl, .inl rfl⟩
      have hstands := Check.standsFor_parts (.inl htext) hs hsep rfl check span
      exact (Check.standsFor_length (hstands _) hcount _).scalar? hk
    · obtain ⟨c, hc, rfl⟩ := Check.charAt?_of_index htext hs hposition hx hk
      exact ⟨_, (gives_index_iff hd hs hp hx).2 ⟨c, hc, rfl⟩, rfl⟩

/-- A text of one character that has two units. -/
def emoji : Expr := .string default "😀"

def refusing : Caller := fun _ _ _ _ span => fail (.tooDeep 0) span

def nowhere : Scope := ⟨[], [], 0⟩

/-- The length of a character of two units is 2, and the character has one part. -/
theorem places_of_text_emoji :
    Gives (eval refusing (lengthOf default default emoji)) nowhere
        (.ok (.number (lengthNumber 2))) ∧
      Gives (eval refusing (lengthOf default default (partsOf default default default emoji)))
        nowhere (.ok (.number (lengthNumber 1))) ∧
      lengthNumber 1 ≠ lengthNumber 2 := by
  have htext : Gives (eval refusing emoji) nowhere (.ok (.string "😀")) := .pure _
  have hposition : Gives (eval refusing (.number default 0)) nowhere (.ok (.number 0)) := .pure _
  obtain ⟨⟨hlength, hcount, -⟩, -⟩ :
      (Gives (eval refusing (lengthOf default default emoji)) nowhere _ ∧
        Gives (eval refusing (lengthOf default default (partsOf default default default emoji)))
          nowhere _ ∧ _) ∧ _ := places_of_text htext rfl hposition rfl
  refine ⟨hlength, hcount, fun h => ?_⟩
  have hwhole := congrArg Number.whole? h
  rw [lengthNumber, lengthNumber, Number.whole?_ofNat (by decide),
    Number.whole?_ofNat (by decide)] at hwhole
  cases hwhole

end Eval

end TypedConfig
