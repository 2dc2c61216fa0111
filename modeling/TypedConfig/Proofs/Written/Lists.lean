import TypedConfig.Proofs.Written.Reading

/-! # Lists between marks

Parameters, arguments, array items and object members are read by loops of one form: up to a
closing mark, with a comma or that mark behind each element. What such a loop reads from written
elements follows from what one element is read as.
-/

namespace TypedConfig.Program

open Spelled

variable {α β : Type} {P : α → Prop} {Q : List α → Prop} {b b' : Bool}
variable {ts us vs ws : List Spelled} {close : Punct}

/-- Tokens behind an element, and what is left of them after a comma. -/
inductive Between (close : Punct) : List Spelled → List Spelled → Prop
  | comma (us : List Spelled) : Between close (.punct .comma :: us) us
  | last (us : List Spelled) : Between close (.punct close :: us) (.punct close :: us)

/-- A loop of rounds that reads elements up to a closing mark. -/
structure ReadsItems (loop : List Lexeme → ProgramReader (List α)) (item : ProgramReader α)
    (close : Punct) : Prop where
  stop : ∀ l rounds b us, Takes (loop (l :: rounds)) b (.punct close :: us) false us (· = [])
  step : ∀ l rounds b ts us vs ws P Q, Opens ts → Between close us vs →
    Takes item b ts false us P → Takes (loop rounds) false vs false ws Q →
    Takes (loop (l :: rounds)) b ts false ws fun as => ∃ a rest, as = a :: rest ∧ P a ∧ Q rest

namespace ReadsItems

variable {loop : List Lexeme → ProgramReader (List α)} {item : ProgramReader α}

theorem separated (h : ReadsItems loop item close) (hclose : close ∈ closers)
    (spell : β → List Spelled) (R : α → β → Prop) {xs : List β}
    (hopens : ∀ x ∈ xs, Opens (spell x))
    (hitem : ∀ x ∈ xs, ∀ b us, Closes us → Takes item b (spell x ++ us) false us fun a => R a x)
    (rounds : List Lexeme) (hr : xs.length < rounds.length) (b : Bool) (us : List Spelled) :
    Takes (loop rounds) b (Spelled.separated (xs.map spell) ++ .punct close :: us) false us
      fun as => List.Forall₂ R as xs := by
  induction xs generalizing rounds b with
  | nil =>
    obtain ⟨l, rounds, rfl⟩ := List.exists_cons_of_length_pos hr
    exact (h.stop l rounds b us).mono fun as has => has ▸ .nil
  | cons x xs ih =>
    obtain ⟨l, rounds, rfl⟩ := List.exists_cons_of_length_pos (Nat.zero_lt_of_lt hr)
    have hx := hopens x List.mem_cons_self
    have hrest := fun b => ih (fun y hy => hopens y (List.mem_cons_of_mem _ hy))
      (fun y hy => hitem y (List.mem_cons_of_mem _ hy)) rounds
      (by simpa using hr) b
    have hcons : ∀ as, (∃ a rest, as = a :: rest ∧ R a x ∧ List.Forall₂ R rest xs) →
        List.Forall₂ R as (x :: xs) := by
      rintro _ ⟨a, rest, rfl, ha, hrest⟩
      exact .cons ha hrest
    cases xs with
    | nil =>
      have hread := hitem x List.mem_cons_self b (.punct close :: us) hclose
      exact (h.step l rounds b _ _ _ us _ _ (hx.append _) (.last us) hread (hrest false)).mono hcons
    | cons y xs =>
      have hread := hitem x List.mem_cons_self b
        (.punct .comma :: (Spelled.separated ((y :: xs).map spell) ++ .punct close :: us))
        (by decide : Punct.comma ∈ closers)
      rw [List.map_cons, List.map_cons, Spelled.separated, List.append_assoc]
      · exact (h.step l rounds b _ _ _ us _ _ (hx.append _) (.comma _) hread (hrest false)).mono
          hcons
      · exact nofun

end ReadsItems

theorem length_le_separated {spell : β → List Spelled} {xs : List β}
    (hopens : ∀ x ∈ xs, Opens (spell x)) :
    xs.length ≤ (separated (xs.map spell)).length := by
  induction xs with
  | nil => exact Nat.zero_le _
  | cons x xs ih =>
    have hx : 0 < (spell x).length := List.length_pos_iff.2 (hopens x List.mem_cons_self).ne_nil
    have hxs := ih fun y hy => hopens y (List.mem_cons_of_mem _ hy)
    cases xs with
    | nil =>
      simp only [List.map_cons, List.map_nil, separated, List.length_cons, List.length_nil]
      omega
    | cons y xs =>
      rw [List.map_cons, List.map_cons, separated]
      · simp only [List.map_cons, List.length_cons, List.length_append] at hxs ⊢
        omega
      · exact nofun

theorem length_lt_of_separated {spell : β → List Spelled} {xs : List β}
    (hopens : ∀ x ∈ xs, Opens (spell x)) {rounds : List Lexeme}
    (hr : (separated (xs.map spell) ++ .punct close :: us).length < rounds.length) :
    xs.length < rounds.length := by
  have := length_le_separated hopens
  rw [List.length_append, List.length_cons] at hr
  omega

/-- What stands behind an element leads on to the other elements. -/
theorem takes_between {loop : ProgramReader (List α)} {a : α}
    (failure : ProgramReader (List α))
    (hclose : close ≠ .comma) (hus : Between close us vs) (ha : P a)
    (hloop : Takes loop false vs false ws Q) :
    Takes (do
      if ← Reader.eatPunct .comma then return a :: (← loop)
      else if ← Reader.atPunct close then return a :: (← loop)
      else failure) false us false ws fun as => ∃ a rest, as = a :: rest ∧ P a ∧ Q rest := by
  have hrest : Takes (do return a :: (← loop)) false vs false ws
      fun as => ∃ a rest, as = a :: rest ∧ P a ∧ Q rest :=
    .bind hloop fun rest hrest => .pure ⟨a, rest, rfl, ha, hrest⟩
  cases hus with
  | comma => exact .hit hrest
  | last us =>
    refine .miss (beq_eq_false_iff_ne.2 hclose) ?_
    apply Takes.bind (takes_atPunct close)
    intro r hr
    rw [if_pos (by simp [hr])]
    exact hrest

theorem readsItems_arguments (inner : Inner) :
    ReadsItems (arguments inner) (inner .expression) .rightParen where
  stop l rounds b us := .hit (.pure rfl)
  step l rounds b ts us vs ws P Q hts hus hitem hloop := by
    refine .miss (leads_of_opens hts (by decide)) ?_
    refine .goesOn hts.ne_nil ?_
    apply Takes.bind hitem
    intro a ha
    exact takes_between _ (by decide) hus ha hloop

def arrayItem (inner : Inner) : ProgramReader ArrayItem := do
  if ← Reader.eatPunct .ellipsis then
    let e ← inner .expression
    return .spread e
  else
    let e ← inner .expression
    return .item e

theorem readsItems_items (inner : Inner) (bracket : Span) :
    ReadsItems (items inner bracket) (arrayItem inner) .rightBracket where
  stop l rounds b us := .hit (.pure rfl)
  step l rounds b ts us vs ws P Q hts hus hitem hloop := by
    refine .miss (leads_of_opens hts (by decide)) ?_
    refine .goesOn hts.ne_nil ?_
    have hbind := Takes.bind hitem fun a ha =>
      takes_between (failBefore (.expected "`,` or `]`")) (by decide) hus ha hloop
    rw [arrayItem, bind_assoc] at hbind
    convert hbind using 3 with r
    split
    · exact (bind_assoc ..).symm
    · exact (bind_assoc ..).symm

theorem readsItems_members (inner : Inner) (brace : Span) :
    ReadsItems (members inner brace) (objectMember inner) .rightBrace where
  stop l rounds b us := .hit (.pure rfl)
  step l rounds b ts us vs ws P Q hts hus hitem hloop := by
    refine .miss (leads_of_opens hts (by decide)) ?_
    refine .goesOn hts.ne_nil ?_
    apply Takes.bind hitem
    intro a ha
    exact takes_between _ (by decide) hus ha hloop

theorem readsItems_params :
    ReadsItems params (expectName "a parameter name") .rightParen where
  stop l rounds b us := .hit (.pure rfl)
  step l rounds b ts us vs ws P Q hts hus hitem hloop := by
    refine .miss (leads_of_opens hts (by decide)) ?_
    apply Takes.bind hitem
    intro a ha
    have hrest : Takes (do return a :: (← params rounds)) false vs false ws
        fun as => ∃ a rest, as = a :: rest ∧ P a ∧ Q rest :=
      .bind hloop fun rest hrest => .pure ⟨a, rest, rfl, ha, hrest⟩
    cases hus with
    | comma => exact .bind (takes_eatPunct .comma) fun _ _ => hrest
    | last us => exact .bind (takes_eatPunct_miss rfl) fun _ _ => hrest

end TypedConfig.Program
