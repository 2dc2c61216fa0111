import TypedConfig.Proofs.Simulation.Methods

/-! # Expressions and calls

By induction on an expression, what the check finds for it describes what it evaluates to; by
induction on the levels that are left, so do the callers of the two. Where a condition is not
known the check goes both ways, and one of them is the way of the evaluation.
-/

namespace TypedConfig

open Shape (Describes DescribesFields DescribesFrame DescribesFrames DescribesItems)
open Check (Event Events CheckM CallerEvents Steady SteadyCaller Partials)
open Eval (EvalM)

variable {lax : Prop} {shape : Shape} {d : Datum} {span : Span}

theorem describesFrame_get? {f : ShapeFrame} {g : Frame} (h : DescribesFrame lax f g)
    (name : String) : Option.Rel (Describes lax) (Entries.get? f name) (Entries.get? g name) := by
  induction f generalizing g with
  | nil => obtain rfl : g = [] := h; exact .none
  | cons b f ih =>
    obtain ⟨key, shape⟩ := b
    obtain ⟨d, rest, rfl, hd, hr⟩ := h
    by_cases hk : key = name
    · simp only [Entries.get?, hk, if_true]
      exact .some hd
    · simp only [Entries.get?, hk, if_false]
      exact ih hr

theorem describesFrames_inFrames? {fs : List ShapeFrame} {gs : List Frame}
    (h : DescribesFrames lax fs gs) (name : String) :
    Option.Rel (Describes lax) (Check.inFrames? fs name) (Eval.inFrames? gs name) := by
  induction fs generalizing gs with
  | nil => obtain rfl : gs = [] := h; exact .none
  | cons f fs ih =>
    obtain ⟨g, rest, rfl, hg, hr⟩ := h
    have hf := describesFrame_get? hg name
    simp only [Check.inFrames?, Eval.inFrames?, List.findSome?_cons]
    generalize Entries.get? f name = s at hf ⊢
    generalize Entries.get? g name = d at hf ⊢
    cases hf with
    | none => exact ih hr
    | some h => exact .some h

theorem Related.lookup? {σ : Check.State} {ρ : Eval.Scope} (h : Related lax σ ρ)
    (name : String) : Option.Rel (Describes lax) (σ.lookup? name) (ρ.lookup? name) := by
  have hf := describesFrames_inFrames? h.frames name
  unfold Check.State.lookup? Eval.Scope.lookup?
  generalize Check.inFrames? σ.frames name = s at hf ⊢
  generalize Eval.inFrames? ρ.frames name = d at hf ⊢
  cases hf with
  | some h => exact .some h
  | none =>
    have hg := h.globals name
    simp only
    generalize Entries.get? σ.globals name = b at hg ⊢
    generalize Entries.get? ρ.globals name = d at hg ⊢
    cases hg with
    | none => exact .none
    | some h => exact .some h

theorem simulates_name (name : String) :
    Simulates lax .none (Check.name name span) (Eval.name name span) (Describes lax) := by
  refine .get_bind fun σ ρ hσ => ?_
  have hl := hσ.lookup? name
  generalize σ.lookup? name = s at hl ⊢
  generalize ρ.lookup? name = d at hl ⊢
  cases hl with
  | none => exact .refuse _ _ _ _
  | some h => exact .pure ((Shape.describes_leafAt span).2 h)

theorem describesFields_put {fields : ShapeFields} {entries : Entries Datum} {key : String}
    {keySpan : Span} (h : DescribesFields lax fields entries) (hd : Describes lax shape d) :
    DescribesFields lax (Entries.put fields key (keySpan, shape)) (Entries.put entries key d) := by
  induction fields generalizing entries with
  | nil => obtain rfl : entries = [] := h; exact ⟨d, [], rfl, hd, rfl⟩
  | cons f fields ih =>
    obtain ⟨k, s, first⟩ := f
    obtain ⟨e, rest, rfl, he, hr⟩ := h
    by_cases hk : k = key
    · simp only [Entries.put, hk, if_true]
      exact ⟨d, rest, rfl, hd, hr⟩
    · simp only [Entries.put, hk, if_false]
      exact ⟨e, _, rfl, he, ih hr⟩

theorem describesFields_putAll {fields more : ShapeFields} {entries others : Entries Datum}
    (h : DescribesFields lax fields entries) (hm : DescribesFields lax more others) :
    DescribesFields lax (Entries.putAll fields more) (Entries.putAll entries others) := by
  induction more generalizing fields entries others with
  | nil => obtain rfl : others = [] := hm; exact h
  | cons f more ih =>
    obtain ⟨k, s, first⟩ := f
    obtain ⟨e, rest, rfl, he, hr⟩ := hm
    show DescribesFields lax (Entries.putAll (Entries.put fields k (s, first)) more)
      (Entries.putAll (Entries.put entries k e) rest)
    exact ih (describesFields_put h he) hr

/-- Sets of fields of which one describes an object, and on a strict reading is the only one. -/
def SomeDescribes (lax : Prop) (sets : List ShapeFields) (entries : Entries Datum) : Prop :=
  ∃ fields ∈ sets, DescribesFields lax fields entries ∧ (lax ∨ sets = [fields])

theorem SomeDescribes.map {sets : List ShapeFields} {entries others : Entries Datum}
    {f : ShapeFields → ShapeFields} (h : SomeDescribes lax sets entries)
    (hf : ∀ fields, DescribesFields lax fields entries → DescribesFields lax (f fields) others) :
    SomeDescribes lax (sets.map f) others := by
  obtain ⟨fields, hm, hd, hl⟩ := h
  refine ⟨f fields, List.mem_map_of_mem hm, hf fields hd, hl.imp id ?_⟩
  rintro rfl
  rfl

/-- What an object may be describes it. -/
def PartialsDescribe (lax : Prop) (p : Partials) (entries : Entries Datum) : Prop :=
  p.isUnknown = false ∧ SomeDescribes lax p.fields entries

theorem simulates_shape {p : Partials} {entries : Entries Datum}
    (h : PartialsDescribe lax p entries) :
    Simulates lax .none (p.shape span) (pure (.object entries)) (Describes lax) := by
  obtain ⟨hu, fields, hm, hd, hl⟩ := h
  unfold Partials.shape
  rw [hu]
  refine .oneOf span ⟨.record span fields, List.mem_map_of_mem hm, ⟨_, rfl, hd⟩, hl.imp id ?_⟩
  intro hs
  rw [hs]
  rfl

def Eval.spreadInto (fields : Entries Datum) (d : Datum) (span : Span) :
    EvalM (Entries Datum) :=
  match d with
  | .object more => pure (Entries.putAll fields more)
  | .null | .undefined => pure fields
  | d => Eval.fail (.objectSpread d.kindName) span

theorem Eval.evalMembers_spread (call : Eval.Caller) (fields : Entries Datum) (e : Expr)
    (rest : List ObjectMember) :
    Eval.evalMembers call fields (.spread e :: rest) = (do
      let d ← Eval.eval call e
      Eval.evalMembers call (← Eval.spreadInto fields d e.span) rest) := by
  rw [Eval.evalMembers]
  congr
  funext d
  cases d <;> rfl

theorem simulates_spreadInto {sets : List ShapeFields} {entries : Entries Datum}
    (hs : SomeDescribes lax sets entries) (h : Describes lax shape d) :
    Simulates lax .none (Check.spreadInto sets shape) (Eval.spreadInto entries d span)
      fun r others => ∃ more, r = some more ∧ SomeDescribes lax more others := by
  cases shape with
  | record s fields =>
    obtain ⟨more, rfl, hm⟩ := h
    exact .pure ⟨_, rfl, hs.map fun _ hf => describesFields_putAll hf hm⟩
  | null | undefined => cases h; exact .pure ⟨_, rfl, hs⟩
  | unknown => exact h.elim
  | _ => exact .report_bind (fun _ => .pure _) _ _ _

theorem spreadInto_isSome {sets : List ShapeFields} (h : shape.isUnknown = false)
    (σ : Check.State) (he : (Check.after (Check.spreadInto sets shape) σ).errors = []) :
    (Check.value (Check.spreadInto sets shape) σ).isSome = true := by
  cases shape with
  | record | null | undefined => rfl
  | unknown => cases h
  | _ => exact absurd he (List.cons_ne_nil _ _)

theorem spreadBranches_isKnown {sets : List ShapeFields} {branches : List Shape}
    (h : ∀ b ∈ branches, b.isUnknown = false) (σ : Check.State)
    (he : (Check.after (Check.spreadBranches sets branches) σ).errors = []) :
    (Check.value (Check.spreadBranches sets branches) σ).isUnknown = false := by
  induction branches generalizing σ with
  | nil => rfl
  | cons branch rest ih =>
    rw [List.forall_mem_cons] at h
    have hfirst := spreadInto_isSome h.1 σ ((Check.steady_spreadBranches sets rest).errors_nil he)
    have hrest : (Check.value (Check.spreadBranches sets rest)
        (Check.after (Check.spreadInto sets branch) σ)).isUnknown = false := ih h.2 _ he
    rw [Check.spreadBranches]
    simp only [Check.value_bind, Check.value_pure, hrest, Bool.or_false]
    simpa using hfirst

theorem simulates_spreadBranches {sets : List ShapeFields} {entries : Entries Datum}
    {branches : List Shape} (hs : SomeDescribes lax sets entries)
    (hu : ∀ b ∈ branches, b.isUnknown = false)
    (h : ∃ b ∈ branches, Describes lax b d ∧ (lax ∨ branches = [b])) :
    Simulates lax .none (Check.spreadBranches sets branches) (Eval.spreadInto entries d span)
      (PartialsDescribe lax) := by
  induction branches with
  | nil => obtain ⟨_, hm, _⟩ := h; cases hm
  | cons branch rest ih =>
    rw [List.forall_mem_cons] at hu
    have srest := Check.steady_spreadBranches sets rest
    have spure (r : Option (List ShapeFields)) : Steady (do
        let more ← Check.spreadBranches sets rest
        pure (⟨r.getD [] ++ more.fields, r.isNone || more.isUnknown⟩ : Partials)) :=
      srest.bind fun _ => .pure _
    obtain ⟨b, hm, hd, hl⟩ := h
    rw [Check.spreadBranches, ← bind_pure (Eval.spreadInto entries d span)]
    rcases List.mem_cons.1 hm with rfl | hm
    · refine (simulates_spreadInto hs hd).bind_none (Check.steady_spreadInto ..) spure
        fun r others hr => ?_
      obtain ⟨more, rfl, fields, hmore, hf, hone⟩ := hr
      refine .skip_of (P := fun p => p.isUnknown = false ∧ (rest = [] → p.fields = [])) srest
        (fun _ => .pure _) (fun σ he => ⟨spreadBranches_isKnown hu.2 σ he, ?_⟩) fun p hp =>
          .pure ⟨by simp [hp.1], fields, List.mem_append_left _ hmore, hf, ?_⟩
      · rintro rfl
        rfl
      · rcases hl with hl | hl
        · exact .inl hl
        · refine hone.imp id fun hone => ?_
          rw [hp.2 (List.cons_eq_cons.1 hl).2, hone]
          rfl
    · refine .skip_of (P := fun r => r.isSome = true) (Check.steady_spreadInto ..) spure
        (spreadInto_isSome hu.1) fun r hr => ?_
      have hlax : lax := hl.resolve_right fun hl => by
        rw [(List.cons_eq_cons.1 hl).2] at hm
        cases hm
      refine (ih hu.2 ⟨b, hm, hd, .inl hlax⟩).bind_none srest (fun _ => .pure _)
        fun p others hp => .pure ?_
      obtain ⟨hpu, fields, hfm, hf, -⟩ := hp
      obtain ⟨more, rfl⟩ := Option.isSome_iff_exists.1 hr
      exact ⟨by simp [hpu], fields, List.mem_append_right _ hfm, hf, .inl hlax⟩

theorem branchesOf_describes (h : Describes lax shape d) :
    ∃ b ∈ Check.branchesOf shape, Describes lax b d ∧ (lax ∨ Check.branchesOf shape = [b]) := by
  unfold Check.branchesOf
  split
  · obtain ⟨hl, b, hm, hb⟩ := Shape.describes_oneOf.1 h
    exact ⟨b, hm, hb, .inl hl⟩
  · exact ⟨shape, List.mem_singleton_self _, h, .inr rfl⟩

/-- Spreading a shape adds to what an object may be as spreading its datum adds to the object. -/
theorem simulates_spread {p : Partials} {entries : Entries Datum}
    (hp : PartialsDescribe lax p entries) (h : Describes lax shape d)
    (ha : (Event.spreading shape).Admitted lax) :
    Simulates lax .none (p.spread shape) (Eval.spreadInto entries d span)
      (PartialsDescribe lax) := by
  obtain ⟨b, hm, hb, hl⟩ := branchesOf_describes h
  have hu : ∀ b ∈ Check.branchesOf shape, b.isUnknown = false := by
    rcases hl with hl | hl
    · simpa [Event.isClear] using ha.clear hl
    · rw [hl]
      simpa using Shape.isUnknown_of_describes hb
  rw [← bind_pure (Eval.spreadInto entries d span)]
  refine (simulates_spreadBranches hp.2 hu ⟨b, hm, hb, hl⟩).bind_none
    (Check.steady_spreadBranches ..) (fun next => ?_) fun next others hnext => ?_
  · dsimp only
    split
    · exact (Steady.reportBranches _).bind fun _ => .pure _
    · exact .pure _
  · obtain ⟨hnu, fields, hfm, hf, hone⟩ := hnext
    have hne : next.fields.isEmpty = false := by
      cases hn : next.fields with
      | nil => rw [hn] at hfm; cases hfm
      | cons => rfl
    simp only [hp.1, hnu, hne]
    split
    · exact .of_error fun _ => List.cons_ne_nil _ _
    · exact .pure ⟨rfl, fields, hfm, hf, hone⟩

theorem simulates_extend {text : Option String} {t : String} (ht : Knows lax text t)
    (h : Describes lax shape d) :
    Simulates lax .none (Check.extend text shape) (Eval.stringify d span)
      fun known part => Knows lax known (t ++ part) := by
  have hr := Shape.rendering_of_describes shape h
  unfold Check.extend
  split
  · rename_i part hpart
    rw [hpart] at hr
    obtain ⟨x, hx, rfl⟩ := hr
    rw [Eval.stringify_eq hx]
    exact .pure (ht.map (· ++ x.stringText))
  · rename_i hpart
    rw [hpart] at hr
    obtain ⟨hl, x, hx⟩ := hr
    rw [Eval.stringify_eq hx]
    exact .pure (.inr ⟨hl, rfl⟩)
  · exact .report_bind (fun _ => .pure _) _ _ _

section

variable {call : Check.Caller} {calls : CallerEvents} {call' : Eval.Caller}

mutual

/-- What the check finds for an expression describes what it evaluates to. -/
theorem simulates_infer (hs : SteadyCaller call) (hc : CallsAgree lax call calls call') :
    ∀ e, Simulates lax (Check.exprEvents call calls e) (Check.infer call e) (Eval.eval call' e)
      (Describes lax)
  | .string _ v => .pure ⟨v, rfl, .inl rfl⟩
  | .number _ v => .pure ⟨v, rfl, .inl rfl⟩
  | .boolean _ v => .pure ⟨v, rfl, .inl rfl⟩
  | .null _ => .pure rfl
  | .undefined _ => .pure rfl
  | .name _ n => simulates_name n
  | .template _ segments =>
    (simulates_inferSegments hs hc (some "") segments (.inl rfl)).bind_none
      (Check.steady_inferSegments hs _ segments) (fun _ => .pure _) fun _ t ht =>
        .pure ⟨t, rfl, by simpa using ht⟩
  | .array s items =>
    (simulates_inferItems hs hc items).bind_none (Check.steady_inferItems hs items)
      (fun _ => .arrayOf ..) fun _ _ h => .arrayOf s h
  | .object s ms => by
    have hp : PartialsDescribe lax ⟨[[]], false⟩ [] :=
      ⟨rfl, [], List.mem_singleton_self _, rfl, .inr rfl⟩
    exact (simulates_inferMembers hs hc _ ms hp).bind_none (Check.steady_inferMembers hs _ ms)
      (fun _ => Check.steady_shape ..) fun _ _ hp => simulates_shape hp
  | .member _ object _ =>
    (simulates_infer hs hc object).bind_none (Check.steady_infer hs object)
      (fun _ => Check.steady_member ..) fun _ _ h => simulates_member h
  | .index _ object position =>
    (simulates_infer hs hc object).bind (Check.steady_infer hs object)
      (fun _ => (Check.steady_infer hs position).bind fun _ => Check.steady_index ..)
      fun _ _ h => (simulates_infer hs hc position).bind (Check.steady_infer hs position)
        (fun _ => Check.steady_index ..) fun _ _ hp => simulates_index h hp
  | .call s callee args => by
    have hargs := simulates_inferAll hs hc args
    have sargs := Check.steady_inferAll hs args
    cases callee with
    | member _ object property =>
      rw [Check.infer, Check.exprEvents, Eval.eval]
      exact (simulates_infer hs hc object).bind (Check.steady_infer hs object)
        (fun _ => sargs.bind fun _ => Check.steady_method hs ..) fun _ _ h =>
          hargs.bind sargs (fun _ => Check.steady_method hs ..) fun _ _ has =>
            simulates_method hs hc has _ h
    | _ =>
      rw [Check.infer, Check.exprEvents, Eval.eval]
      · refine (simulates_infer hs hc _).bind (Check.steady_infer hs _)
          (fun _ => sargs.bind fun _ => Check.steady_callValue hs ..) fun _ _ h => ?_
        refine hargs.bind sargs (fun _ => Check.steady_callValue hs ..) fun _ _ has => ?_
        exact simulates_callValue hc has _ h fun _ _ _ hd => by rw [hd]
      all_goals rintro _ _ _ ⟨⟩
  | .arrow _ params body => .get_bind fun σ ρ hσ => .pure ⟨_, rfl, hσ.frames⟩
  | .unary _ op operand =>
    (simulates_infer hs hc operand).bind_none (Check.steady_infer hs operand)
      (fun _ => Check.steady_unary ..) fun _ _ h => simulates_unary op h
  | .binary s op left right => by
    have hl := simulates_infer hs hc left
    have hr := simulates_infer hs hc right
    have sl := Check.steady_infer hs left
    have sr := Check.steady_infer hs right
    cases hop : op.stopsAt? with
    | some stop =>
      rw [Check.infer_shortened call s hop, Check.exprEvents_shortened call calls s hop,
        Eval.eval_shortened call' s hop]
      refine hl.bind sl (fun _ => .choose _ (.pure _) sr s) fun l d h => ?_
      have ht : l.truthiness.map (· == stop) = some (d.truthy == stop) ∨
          lax ∧ l.truthiness.map (· == stop) = none := by
        rcases Shape.truthiness_of_describes l h with ht | ⟨hlax, ht⟩
        · exact .inl (by rw [ht]; rfl)
        · exact .inr ⟨hlax, by rw [ht]; rfl⟩
      exact .choose s ht (.pure l) sr (.pure h) hr
    | none =>
      rw [Check.infer_operator call s hop, Check.exprEvents_operator call calls s hop,
        Eval.eval_operator call' s hop]
      refine hl.bind sl (fun _ => sr.bind fun _ => Check.steady_operator ..) fun l d h => ?_
      refine hr.bind sr (fun _ => Check.steady_operator ..) fun r e h' => ?_
      exact .whenever fun ha => simulates_operator _ h h' ha
  | .conditional s test consequent alternate => by
    have sc := Check.steady_infer hs consequent
    have sa := Check.steady_infer hs alternate
    rw [Check.infer_conditional, Check.exprEvents_conditional, Eval.eval]
    exact (simulates_infer hs hc test).bind (Check.steady_infer hs test)
      (fun _ => .choose _ sc sa s) fun t _ h =>
        .choose s (Shape.truthiness_of_describes t h) sc sa (simulates_infer hs hc consequent)
          (simulates_infer hs hc alternate)

theorem simulates_inferSegments (hs : SteadyCaller call) (hc : CallsAgree lax call calls call') :
    ∀ text segments {t : String}, Knows lax text t →
      Simulates lax (Check.segmentsEvents call calls text segments)
        (Check.inferSegments call text segments) (Eval.evalSegments call' segments)
        fun known rest => Knows lax known (t ++ rest)
  | _, [], _, ht => .pure (by simpa using ht)
  | text, .text part :: rest, t, ht => by
    have hrest := simulates_inferSegments hs hc (text.map (· ++ part)) rest (ht.map (· ++ part))
    rw [Check.segmentsEvents, Check.inferSegments, Eval.evalSegments,
      ← bind_pure (Check.inferSegments call _ rest)]
    refine hrest.bind_none (Check.steady_inferSegments hs _ rest) (fun _ => .pure _)
      fun known more hk => .pure ?_
    rwa [← String.append_assoc]
  | text, .hole e :: rest, t, ht => by
    refine (simulates_infer hs hc e).bind (Check.steady_infer hs e)
      (fun _ => (Check.steady_extend ..).bind fun _ => Check.steady_inferSegments hs _ rest)
      fun shape d h => ?_
    refine (simulates_extend ht h).bind_following (Check.steady_extend ..)
      (fun _ => Check.steady_inferSegments hs _ rest) fun known part hk => ?_
    rw [← bind_pure (Check.inferSegments call _ rest)]
    refine (simulates_inferSegments hs hc known rest hk).bind_none
      (Check.steady_inferSegments hs _ rest) (fun _ => .pure _) fun known more hk => .pure ?_
    rwa [← String.append_assoc]

theorem simulates_inferItems (hs : SteadyCaller call) (hc : CallsAgree lax call calls call') :
    ∀ items, Simulates lax (Check.itemsEvents call calls items) (Check.inferItems call items)
      (Eval.evalItems call' items) (DescribesItems lax)
  | [] => .pure .nil
  | .item e :: rest => by
    have sr := Check.steady_inferItems hs rest
    exact (simulates_infer hs hc e).bind (Check.steady_infer hs e)
      (fun _ => sr.bind fun _ => .pure _) fun _ _ h =>
        (simulates_inferItems hs hc rest).bind_none sr (fun _ => .pure _) fun _ _ hr =>
          .pure ((DescribesItems.singleton h).append hr)
  | .spread e :: rest => by
    have sr := Check.steady_inferItems hs rest
    rw [Check.inferItems, Check.itemsEvents, Eval.evalItems]
    refine (simulates_infer hs hc e).bind (Check.steady_infer hs e) (fun _ => ?_)
      fun shape d h => ?_
    · split
      · exact sr.bind fun _ => .pure _
      · exact (Steady.report ..).bind fun _ => sr.bind fun _ => .pure _
    split
    · rename_i items allKnown hi
      obtain ⟨ds, rfl, hds⟩ := Shape.spread?_of_describes shape h hi
      exact (simulates_inferItems hs hc rest).bind_none sr (fun _ => .pure _) fun _ _ hr =>
        .pure (hds.append hr)
    · exact .report_bind (fun _ => sr.bind fun _ => .pure _) _ _ _

theorem simulates_inferMembers (hs : SteadyCaller call) (hc : CallsAgree lax call calls call') :
    ∀ p ms {entries : Entries Datum}, PartialsDescribe lax p entries →
      Simulates lax (Check.membersEvents call calls p ms) (Check.inferMembers call p ms)
        (Eval.evalMembers call' entries ms) (PartialsDescribe lax)
  | _, [], _, hp => .pure hp
  | p, .field key keySpan e :: rest, _, hp =>
    (simulates_infer hs hc e).bind (Check.steady_infer hs e)
      (fun _ => Check.steady_inferMembers hs _ rest) fun _ _ h =>
        simulates_inferMembers hs hc _ rest ⟨hp.1, hp.2.map fun _ hf => describesFields_put hf h⟩
  | p, .spread e :: rest, entries, hp => by
    rw [Eval.evalMembers_spread]
    refine (simulates_infer hs hc e).bind (Check.steady_infer hs e)
      (fun _ => (Check.steady_spread ..).bind fun _ => Check.steady_inferMembers hs _ rest)
      fun shape d h => .meeting fun ha => ?_
    exact (simulates_spread hp h ha).bind_following (Check.steady_spread ..)
      (fun _ => Check.steady_inferMembers hs _ rest) fun p _ hp =>
        simulates_inferMembers hs hc p rest hp

theorem simulates_inferAll (hs : SteadyCaller call) (hc : CallsAgree lax call calls call') :
    ∀ es, Simulates lax (Check.allEvents call calls es) (Check.inferAll call es)
      (Eval.evalAll call' es) (List.Forall₂ (Describes lax))
  | [] => .pure .nil
  | e :: es => by
    have ss := Check.steady_inferAll hs es
    exact (simulates_infer hs hc e).bind (Check.steady_infer hs e)
      (fun _ => ss.bind fun _ => .pure _) fun _ _ h =>
        (simulates_inferAll hs hc es).bind_none ss (fun _ => .pure _) fun _ _ hr =>
          .pure (.cons h hr)

end

end

theorem describesFrame_put {f : ShapeFrame} {g : Frame} (name : String)
    (h : DescribesFrame lax f g) (hd : Describes lax shape d) :
    DescribesFrame lax (Entries.put f name shape) (Entries.put g name d) := by
  induction f generalizing g with
  | nil => obtain rfl : g = [] := h; exact ⟨d, [], rfl, hd, rfl⟩
  | cons b f ih =>
    obtain ⟨key, first⟩ := b
    obtain ⟨e, rest, rfl, he, hr⟩ := h
    by_cases hk : key = name
    · simp only [Entries.put, hk, if_true]
      exact ⟨d, rest, rfl, hd, hr⟩
    · simp only [Entries.put, hk, if_false]
      exact ⟨e, _, rfl, he, ih hr⟩

theorem frameOf_describes (span : Span) (params : List Ident) {args : List Shape}
    {ds : List Datum} (h : List.Forall₂ (Describes lax) args ds) :
    DescribesFrame lax (Check.frameOf span params args) (Eval.frameOf params ds) := by
  induction params generalizing args ds with
  | nil => exact rfl
  | cons p params ih =>
    cases h with
    | nil => exact describesFrame_put p.name (ih .nil) rfl
    | cons hd hr => exact describesFrame_put p.name (ih hr) hd

theorem Eval.Gives.guarded {maxDepth : Nat} {work : EvalM Datum} {ρ : Eval.Scope}
    {r : Except Fault Datum} (hd : ρ.depth < maxDepth) (hw : Eval.Gives work ρ r) :
    Eval.Gives (Eval.guarded maxDepth span work) ρ r := by
  refine .get_bind ?_
  rw [if_neg (Nat.not_le.2 hd)]
  exact hw

/-- The callers for any number of levels agree. -/
theorem calls_agree (maxDepth levels : Nat) :
    CallsAgree lax (Check.call maxDepth levels) (Check.callEvents maxDepth levels)
      (Eval.call maxDepth levels) := by
  induction levels with
  | zero =>
    intro params body captured frames args ds span _ _ σ ρ hσ he _
    exact absurd he (Check.call_zero_errors _ _ _ _ _ _ hσ.calls)
  | succ levels ih =>
    intro params body captured frames args ds span hf hds σ ρ hσ he hE
    have hs := Check.steady_call maxDepth levels
    have sw := Steady.inside (Check.frameOf span params args :: captured)
      (Check.steady_infer hs body)
    obtain ⟨hlt, hd, hg⟩ := Check.guarded_eq sw hσ.calls he
    have hframes : DescribesFrames lax (Check.frameOf span params args :: captured)
        (Eval.frameOf params ds :: frames) := ⟨_, _, rfl, frameOf_describes span params hds, hf⟩
    rw [Check.callEvents_eq hlt hd] at hE ⊢
    rw [Check.call, Check.after, hg] at he
    rw [Check.call, Check.value, hg]
    obtain ⟨r, hr, ha⟩ := Simulates.inside hframes (simulates_infer hs ih body)
      { σ with calls := σ.calls + 1 } ρ ⟨hσ.globals, hσ.frames, hσ.depth, hlt⟩ he hE
    exact ⟨r, hr.guarded (hσ.depth ▸ hd), ha⟩

/-- What the check finds for an expression outside of calls. -/
theorem simulates_shapeOf (limits : Limits) (e : Expr) :
    Simulates lax (Check.shapeEvents limits e) (Check.shapeOf limits e) (Eval.datumOf limits e)
      (Describes lax) :=
  simulates_infer (Check.steady_call _ _) (calls_agree _ _) e

end TypedConfig
