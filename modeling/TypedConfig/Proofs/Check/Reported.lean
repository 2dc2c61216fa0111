import TypedConfig.Proofs.Constants.Programs
import TypedConfig.Proofs.Places.Checks
import TypedConfig.Proofs.Soundness

/-! # Reported errors

A failed check reports the errors that it found in the order of their places. Those of one place
stay in the order in which they were found, and of equal ones in a row only one is kept; so an
error is reported twice if and only if another error of its place was found between two copies.
-/

namespace TypedConfig

namespace CheckError

variable {es : List CheckError} {e : CheckError}

/-- The order of places. -/
def before (a b : CheckError) : Bool := decide (a.span.start ≤ b.span.start)

theorem before_trans (a b c : CheckError) (hab : before a b = true) (hbc : before b c = true) :
    before a c = true :=
  decide_eq_true (Nat.le_trans (of_decide_eq_true hab) (of_decide_eq_true hbc))

theorem before_total (a b : CheckError) : (before a b || before b a) = true := by
  simpa [before] using Nat.le_total a.span.start b.span.start

/-- Between two copies of some error stands another error of the same place. -/
def Interleaved (es : List CheckError) : Prop :=
  ∃ e f, f ≠ e ∧ f.span.start = e.span.start ∧ [e, f, e].Sublist es

theorem mem_dropRepeats_iff : e ∈ dropRepeats es ↔ e ∈ es :=
  ⟨mem_of_mem_dropRepeats, mem_dropRepeats⟩

theorem sublist_dropRepeats (es : List CheckError) : (dropRepeats es).Sublist es := by
  induction es using dropRepeats.induct with
  | case1 => exact .slnil
  | case2 e => exact .refl _
  | case3 e es ih =>
    rw [dropRepeats, if_pos rfl]
    exact ih.cons e
  | case4 e f es hne ih =>
    rw [dropRepeats, if_neg hne]
    exact ih.cons_cons e

/-- No error is left twice if and only if no two copies had something else between them. -/
theorem nodup_dropRepeats_iff :
    (dropRepeats es).Nodup ↔ ∀ e f, f ≠ e → ¬ [e, f, e].Sublist es := by
  induction es using dropRepeats.induct with
  | case1 => simp [dropRepeats]
  | case2 e => simp [dropRepeats, List.sublist_cons_iff]
  | case3 e es ih =>
    rw [dropRepeats, if_pos rfl, ih]
    constructor
    · intro h a b hne hsub
      rcases List.sublist_cons_iff.1 hsub with hsub | ⟨r, hr, hsub⟩
      · exact h a b hne hsub
      · -- The copy in front is the first of the three, so the second copy can take its place.
        cases hr
        exact h e b hne ((hsub.of_cons_of_ne hne).cons_cons e)
    · exact fun h a b hne hsub => h a b hne (hsub.cons e)
  | case4 e f es hne ih =>
    rw [dropRepeats, if_neg hne, List.nodup_cons, mem_dropRepeats_iff, ih]
    constructor
    · rintro ⟨hnot, h⟩ a b hab hsub
      rcases List.sublist_cons_iff.1 hsub with hsub | ⟨r, hr, hsub⟩
      · exact h a b hab hsub
      · cases hr
        exact hnot (hsub.subset (List.mem_cons_of_mem _ (List.mem_singleton_self _)))
    · intro h
      refine ⟨fun hmem => ?_, fun a b hab hsub => h a b hab (hsub.cons e)⟩
      have hrest : e ∈ es := (List.mem_cons.1 hmem).resolve_left hne
      exact h e f (Ne.symm hne) (((List.singleton_sublist.2 hrest).cons_cons f).cons_cons e)

theorem mem_arrange_iff : e ∈ arrange es ↔ e ∈ es := ⟨mem_of_mem_arrange, mem_arrange⟩

theorem pairwise_mergeSort (es : List CheckError) :
    (es.mergeSort before).Pairwise fun a b => a.span.start ≤ b.span.start :=
  (List.pairwise_mergeSort before_trans before_total es).imp of_decide_eq_true

theorem pairwise_arrange (es : List CheckError) :
    (arrange es).Pairwise fun a b => a.span.start ≤ b.span.start :=
  (pairwise_mergeSort es).sublist (sublist_dropRepeats _)

/-- The errors of one place keep their order. -/
theorem filter_mergeSort (es : List CheckError) (n : Nat) :
    (es.mergeSort before).filter (·.span.start = n) = es.filter (·.span.start = n) := by
  have hsorted : (es.filter (·.span.start = n)).Pairwise fun a b => before a b = true := by
    refine List.pairwise_of_forall_mem_list fun a ha b hb => ?_
    have ha := of_decide_eq_true (List.mem_filter.1 ha).2
    have hb := of_decide_eq_true (List.mem_filter.1 hb).2
    exact decide_eq_true (Nat.le_of_eq (ha.trans hb.symm))
  have hsub := (List.sublist_mergeSort before_trans before_total hsorted
    List.filter_sublist).filter (·.span.start = n)
  simp only [List.filter_filter, Bool.and_self] at hsub
  refine (hsub.eq_of_length ?_).symm
  exact ((List.mergeSort_perm es before).filter _).length_eq.symm

/-- Three errors of one place stand in the arranged list as they stand in the given one. -/
theorem sublist_mergeSort_iff {e f : CheckError} (h : f.span.start = e.span.start) :
    [e, f, e].Sublist (es.mergeSort before) ↔ [e, f, e].Sublist es := by
  have hplace (l : List CheckError) :
      [e, f, e].Sublist l ↔ [e, f, e].Sublist (l.filter (·.span.start = e.span.start)) := by
    constructor
    · intro hsub
      have hsub := hsub.filter (·.span.start = e.span.start)
      rwa [List.filter_eq_self.2 (by simp [h])] at hsub
    · exact fun hsub => hsub.trans List.filter_sublist
  rw [hplace, filter_mergeSort, ← hplace]

theorem nodup_arrange_iff : (arrange es).Nodup ↔ ¬ Interleaved es := by
  unfold arrange Interleaved
  rw [nodup_dropRepeats_iff]
  push Not
  refine forall_congr' fun e => forall_congr' fun f => forall_congr' fun hne => ?_
  constructor
  · exact fun hnot hplace hsub => hnot ((sublist_mergeSort_iff hplace).2 hsub)
  · intro hnot hsub
    have hplace : f.span.start = e.span.start := by
      have hpair := (pairwise_mergeSort es).sublist hsub
      simp only [List.pairwise_cons, List.mem_cons, List.not_mem_nil, or_false,
        forall_eq_or_imp, forall_eq] at hpair
      exact Nat.le_antisymm hpair.2.1 hpair.1.1
    exact hnot hplace ((sublist_mergeSort_iff hplace).1 hsub)

end CheckError

namespace Program

variable {limits : Limits} {schema : Schema} {program : Program} {failure : CheckFailure}

/-- The errors that a check finds, in the order in which it finds them. -/
def foundErrors (limits : Limits) (schema : Schema) (program : Program) : List CheckError :=
  (program.checkState limits schema).errors.reverse ++
    if (program.assignments limits schema).isEmpty then
      [Check.unassigned schema.root program.source] else []

theorem check_eq_error_iff : program.check limits schema = .error failure ↔
    program.foundErrors limits schema ≠ [] ∧
      failure = ⟨program.source, CheckError.arrange (program.foundErrors limits schema)⟩ := by
  have herrors : program.checkErrors limits schema =
      CheckError.arrange (program.foundErrors limits schema) := rfl
  rw [check_eq, herrors, Ne, ← CheckError.arrange_eq_nil]
  cases CheckError.arrange (program.foundErrors limits schema) with
  | nil => simp
  | cons e es => simp [eq_comm]

/-- The errors of a failed check are those it found, in the order of their places, and one of them
is reported twice if and only if another error of its place was found between two copies. -/
theorem check_errors_nodup_iff (h : program.check limits schema = .error failure) :
    (failure.errors.Pairwise fun a b => a.span.start ≤ b.span.start) ∧
    (∀ e, e ∈ failure.errors ↔ e ∈ program.foundErrors limits schema) ∧
    (failure.errors.Nodup ↔ ¬ CheckError.Interleaved (program.foundErrors limits schema)) := by
  obtain ⟨-, rfl⟩ := check_eq_error_iff.1 h
  exact ⟨CheckError.pairwise_arrange _, fun _ => CheckError.mem_arrange_iff,
    CheckError.nodup_arrange_iff⟩

/-- `["a", "b"].map(() => e)` -/
def onEach (e : Expr) : Expr := calling (texts ["a", "b"]) "map" (.arrow default [] e)

def undeclaredError : CheckError :=
  ⟨"steps", "a declared identifier", "unknown identifier `x`", default, none⟩

theorem foundErrors_undeclared :
    (assigning (onEach (.name default "x"))).foundErrors .standard textsSchema =
      [undeclaredError, undeclaredError] := by decide

/-- An error that is found for each of two elements is reported once. -/
theorem check_errors_nodup_iff_undeclared :
    ∃ failure, (assigning (onEach (.name default "x"))).check .standard textsSchema =
        .error failure ∧
      (failure.errors.Pairwise fun a b => a.span.start ≤ b.span.start) ∧
      (∀ e, e ∈ failure.errors ↔
        e ∈ (assigning (onEach (.name default "x"))).foundErrors .standard textsSchema) ∧
      (failure.errors.Nodup ↔ ¬ CheckError.Interleaved
        ((assigning (onEach (.name default "x"))).foundErrors .standard textsSchema)) := by
  have h : (assigning (onEach (.name default "x"))).check .standard textsSchema = .error ⟨_, _⟩ :=
    check_eq_error_iff.2 ⟨by rw [foundErrors_undeclared]; nofun, rfl⟩
  exact ⟨_, h, check_errors_nodup_iff h⟩

/-- A property that neither of two objects has, where a check takes both for possible. -/
def missing : Expr :=
  let object (key : String) : Expr := .object default [.field key default (texts [])]
  .member default (undecided (object "a") (object "b")) ⟨"c", default⟩

def missingError (object : String) : CheckError :=
  ⟨"steps", "an object with property `c`", object, default, none⟩

theorem foundErrors_missing :
    (assigning (onEach missing)).foundErrors .standard textsSchema =
      [missingError "object { a }", missingError "object { b }",
        missingError "object { a }", missingError "object { b }"] := by decide

/-- Two errors that are found for each of two elements are reported twice. -/
theorem not_nodup_missing :
    ∃ failure, (assigning (onEach missing)).check .standard textsSchema = .error failure ∧
      ¬ failure.errors.Nodup := by
  refine ⟨_, check_eq_error_iff.2 ⟨by rw [foundErrors_missing]; nofun, rfl⟩, ?_⟩
  rw [CheckError.nodup_arrange_iff, foundErrors_missing, not_not]
  exact ⟨missingError "object { a }", missingError "object { b }", by decide, rfl,
    .cons_cons _ (.cons_cons _ (.cons_cons _ (List.nil_sublist _)))⟩

end Program

end TypedConfig
