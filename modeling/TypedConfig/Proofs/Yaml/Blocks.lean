import Mathlib.Data.List.Basic
import TypedConfig.Proofs.Yaml.Lines
import TypedConfig.Proofs.Yaml.Numbers

/-! # Blocks read back

Lines that have been moved to the right are moved back by the indentation of the first of them,
and the lines of a literal block are the text again that was split into them.
-/

namespace TypedConfig.Yaml

variable {l : Line} {ls : List Line} {s : String}

@[simp] theorem isInner_indentLine (l : Line) : isInner (indentLine l) = true := by
  cases l <;> rfl

@[simp] theorem drop_indentLine (l : Line) : (indentLine l).drop 2 = l := by
  cases l <;> rfl

@[simp] theorem dedent_indent (ls : List Line) : dedent 2 (ls.map indentLine) = ls := by
  rw [dedent, List.map_map]
  exact List.map_id'' drop_indentLine ls

@[simp] theorem isIndented_indent (ls : List Line) : isIndented 2 (ls.map indentLine) = true := by
  simp only [isIndented, List.all_map, List.all_eq_true]
  intro l _
  cases l <;> rfl

theorem depth_indent (h : isInner l = false) (ls : List Line) :
    depth ((l :: ls).map indentLine) = 2 := by
  cases l with
  | nil => cases h
  | cons c cs =>
    have hc : c ≠ ' ' := by simpa [isInner] using h
    simp [depth, indentation, indentLine, hc]

theorem isBlock_indent (h : isInner l = false) (ls : List Line) :
    isBlock ((l :: ls).map indentLine) = true := by
  have hlength : 2 < (indentLine l).length := by
    cases l with
    | nil => cases h
    | cons c cs => simp [indentLine]
  rw [isBlock, depth_indent h, isIndented_indent]
  simp [hlength]

theorem getLast?_splitOn {cs : List Char} (h : (cs.splitOn '\n').getLast? = some []) :
    cs = [] ∨ cs.getLast? = some '\n' := by
  induction cs with
  | nil => exact .inl rfl
  | cons c cs ih =>
    obtain ⟨l, ls, hls⟩ := List.exists_cons_of_ne_nil (List.splitOn_ne_nil '\n' cs)
    have hlast (d : Char) : cs.getLast? = some d → (c :: cs).getLast? = some d := by
      cases cs <;> simp
    rw [List.splitOn_cons_eq_if_modifyHead, hls] at h
    rw [hls] at ih
    right
    split at h
    · rename_i hc
      rw [List.getLast?_cons_cons] at h
      rcases ih h with rfl | hcs
      · rw [beq_iff_eq.1 hc]
        rfl
      · exact hlast _ hcs
    · cases ls with
      | nil => simp at h
      | cons l' ls =>
        rw [List.modifyHead_cons, List.getLast?_cons_cons] at h
        rcases ih (by rwa [List.getLast?_cons_cons]) with rfl | hcs
        · cases hls
        · exact hlast _ hcs

/-- The characters of a line of a text are characters of the text, and none is a line feed. -/
theorem of_mem_splitOn {cs : List Char} {c : Char} (h : l ∈ cs.splitOn '\n') (hc : c ∈ l) :
    c ∈ cs ∧ c ≠ '\n' := by
  induction cs generalizing l with
  | nil =>
    rw [List.splitOn_nil, List.mem_singleton] at h
    rw [h] at hc
    cases hc
  | cons d cs ih =>
    obtain ⟨l', ls, hls⟩ := List.exists_cons_of_ne_nil (List.splitOn_ne_nil '\n' cs)
    rw [List.splitOn_cons_eq_if_modifyHead, hls] at h
    rw [hls] at ih
    have hlater {l : Line} (hl : l ∈ l' :: ls) (hc : c ∈ l) : c ∈ d :: cs ∧ c ≠ '\n' :=
      (ih hl hc).imp_left (List.mem_cons_of_mem d)
    split at h
    · rcases List.mem_cons.1 h with rfl | h
      · cases hc
      · exact hlater h hc
    · rename_i hd
      rw [List.modifyHead_cons] at h
      rcases List.mem_cons.1 h with rfl | h
      · rcases List.mem_cons.1 hc with rfl | hc
        · exact ⟨List.mem_cons_self, fun he => hd (beq_iff_eq.2 he)⟩
        · exact hlater List.mem_cons_self hc
      · exact hlater (List.mem_cons_of_mem _ h) hc

theorem literalText_eq {ending : List Char} (hne : ls ≠ []) (h : ls.getLast? ≠ some []) :
    literalText ending ls = ['\n'].intercalate ls ++ ending := by
  have hdrop : (ls.reverse.dropWhile List.isEmpty).reverse = ls := by
    rw [List.reverse_eq_iff]
    rw [List.getLast?_eq_head?_reverse] at h
    cases hr : ls.reverse with
    | nil => rfl
    | cons l rest =>
      rw [hr] at h
      exact List.dropWhile_cons_of_neg (by simpa using h)
  unfold literalText
  rw [hdrop]
  cases ls with
  | nil => exact absurd rfl hne
  | cons => rfl

theorem isInner_eq_false (he : (!l.isEmpty) = true) (hs : (l.head? != some ' ') = true) :
    isInner l = false := by
  rw [Bool.not_eq_true'] at he
  rw [isInner, he, Bool.false_or]
  simpa using hs

/-- What is known of a text that a literal block holds. -/
theorem blockText?_eq_some {header : Line} (h : blockText? s = some (header, ls)) :
    ∃ body ending, s.toList = body ++ ending ∧ ls = body.splitOn '\n' ∧
      literalEnd? header = some ending ∧ isInner (ls.headD []) = false ∧
      body.getLast? ≠ some '\n' ∧ ∀ c ∈ body, c ≠ '\n' → needsEscape c = false := by
  simp only [blockText?, Option.ite_none_right_eq_some, Bool.and_eq_true, Option.some.injEq,
    Prod.mk.injEq] at h
  obtain ⟨⟨⟨⟨⟨⟨-, hempty⟩, hspace⟩, hlast⟩, -⟩, hall⟩, rfl, rfl⟩ := h
  have htext : ∀ c ∈ s.toList, c ≠ '\n' → needsEscape c = false :=
    fun c hc hn => by simpa [hn] using List.all_eq_true.1 hall c hc
  by_cases hclosed : s.toList.getLast? = some '\n'
  · simp only [hclosed] at hempty hspace hlast ⊢
    refine ⟨s.toList.dropLast, ['\n'], (List.dropLast_append_getLast? _ hclosed).symm, rfl, rfl,
      isInner_eq_false hempty hspace, by simpa using hlast, ?_⟩
    exact fun c hc => htext c (List.dropLast_subset _ hc)
  · have hopen : (s.toList.getLast? == some '\n') = false := beq_eq_false_iff_ne.2 hclosed
    simp only [hopen] at hempty hspace hlast ⊢
    exact ⟨s.toList, [], (List.append_nil _).symm, rfl, rfl, isInner_eq_false hempty hspace,
      hclosed, htext⟩

/-- The lines of a literal block hold neither line breaks nor characters to escape. -/
theorem isTextChar_of_mem_blockText {header : Line} (h : blockText? s = some (header, ls))
    (hl : l ∈ ls) {c : Char} (hc : c ∈ l) : isTextChar c = true := by
  obtain ⟨body, ending, -, rfl, -, -, -, hbody⟩ := blockText?_eq_some h
  obtain ⟨hmem, hne⟩ := of_mem_splitOn hl hc
  exact isTextChar_of_needsEscape (hbody c hmem hne)

/-- The lines of a literal block are read back. -/
theorem literal?_blockText {header : Line} (h : blockText? s = some (header, ls)) :
    ∃ ending, literalEnd? header = some ending ∧
      literal? ending (ls.map indentLine) = some (.string s) := by
  obtain ⟨body, ending, hs, rfl, hheader, hfirst, hlast, -⟩ := blockText?_eq_some h
  refine ⟨ending, hheader, ?_⟩
  obtain ⟨l, ls, hls⟩ := List.exists_cons_of_ne_nil (List.splitOn_ne_nil '\n' body)
  have hnonempty : (body.splitOn '\n').getLast? ≠ some [] := by
    intro he
    rcases getLast?_splitOn he with rfl | hb
    · cases hfirst
    · exact hlast hb
  have htext : literalText ending (body.splitOn '\n') = s.toList := by
    rw [literalText_eq (List.splitOn_ne_nil _ _) hnonempty, List.intercalate_splitOn, hs]
  rw [hls] at hfirst htext ⊢
  rw [List.headD_cons] at hfirst
  rw [literal?, isBlock_indent hfirst, depth_indent hfirst, dedent_indent, htext,
    String.ofList_toList]
  rfl

end TypedConfig.Yaml
