import TypedConfig.Proofs.Yaml.RoundTrip

/-! # Wrapped documents

The document of a collection under a name is the name and the document of the collection moved to
the right. A line feed in a document ends a line of it: no key and no text on one line holds one,
and the lines of a literal block are lines of the document.
-/

namespace TypedConfig

namespace Yaml

/-- A text with two spaces before each line that is not empty. -/
def indented (cs : List Char) : List Char :=
  ['\n'].intercalate ((cs.splitOn '\n').map indentLine)

theorem intercalate_lines (ls : List Line) : ['\n'].intercalate (ls ++ [[]]) = text ls := by
  induction ls with
  | nil => rfl
  | cons l ls ih =>
    rw [List.cons_append, List.intercalate_cons_of_ne_nil (by simp), ih, text_cons]
    simp

/-- The lines of a text are moved. -/
theorem indented_text {ls : List Line} (h : ∀ l ∈ ls, '\n' ∉ l) :
    indented (text ls) = text (ls.map indentLine) := by
  have hsplit : (text ls).splitOn '\n' = ls ++ [[]] := by
    rw [← intercalate_lines]
    refine List.splitOn_intercalate _ ?_ (by simp)
    intro l hl
    rcases List.mem_append.1 hl with hl | hl
    · exact h l hl
    · rw [List.mem_singleton.1 hl]
      exact List.not_mem_nil
  rw [indented, hsplit, List.map_append, ← intercalate_lines]
  rfl

theorem indentLine_shift (n : Nat) (l : Line) : indentLine (shift n l) = shift (n + 2) l := by
  cases l with
  | nil => rfl
  | cons c cs =>
    rw [shift_of_ne_nil (List.cons_ne_nil c cs), shift_of_ne_nil (List.cons_ne_nil c cs)]
    cases n <;> rfl

/-- The lines of a literal block are moved with what the block belongs to. -/
theorem indented_writeBlock {ls : List Line} (h : ∀ l ∈ ls, '\n' ∉ l) (n : Nat) :
    indented (writeBlock n ls) = writeBlock (n + 2) ls := by
  have hshift : ∀ l ∈ ls.map (shift n), '\n' ∉ l := by
    intro l hl
    obtain ⟨m, hm, rfl⟩ := List.mem_map.1 hl
    unfold shift spaces
    split
    · exact h m hm
    · simp [h m hm]
  rw [writeBlock_eq, writeBlock_eq, indented_text hshift, List.map_map]
  exact congrArg text (List.map_congr_left fun l _ => indentLine_shift n l)

theorem newline_not_mem_blockText {s : String} {header : Line} {ls : List Line}
    (h : blockText? s = some (header, ls)) : ∀ l ∈ ls, '\n' ∉ l := by
  obtain ⟨body, -, -, rfl, -⟩ := blockText?_eq_some h
  exact fun l hl hn => (of_mem_splitOn hl hn).2 rfl

end Yaml

namespace Value

/-- A record or a sequence that is not empty. -/
def isFilled : Value → Bool
  | record (_ :: _) | sequence (_ :: _) => true
  | _ => false

variable {v : Value}

theorem leaf?_of_isFilled (h : v.isFilled = true) : Yaml.leaf? v = none := by
  cases v with
  | scalar | sentinel => cases h
  | record es => cases es <;> first | rfl | cases h
  | sequence vs => cases vs <;> first | rfl | cases h

def wrapped (root text : String) : String :=
  String.ofList (Yaml.inlineText root ++ ':' :: '\n' :: Yaml.indented text.toList)

theorem document_wrapped (h : v.isFilled = true) (root : String) :
    Yaml.document (.record [(root, v)]) = wrapped root (Yaml.document v) := by
  have hlines : Yaml.lines (.record [(root, v)]) =
      (Yaml.inlineText root ++ [':']) :: (Yaml.lines v).map Yaml.indentLine := by
    rw [Yaml.lines, Yaml.entryLines, leaf?_of_isFilled h]
    exact List.append_nil _
  have hdocument (v : Value) : Yaml.document v = String.ofList (Yaml.text (Yaml.lines v)) := rfl
  rw [hdocument, hdocument, hlines, wrapped, String.toList_ofList,
    Yaml.indented_text (Yaml.newline_not_mem_lines v), Yaml.text_cons, List.append_assoc]
  rfl

/-- Under a name a collection has the document that it has alone, moved to the right below the
name. A key and a text on one line hold no line feed, and the lines of a literal block are moved
with it. -/
theorem toYaml_wrapped (hfilled : v.isFilled = true)
    (hfinite : ∀ x ∈ v.numbers, x.isFinite = true) (root : String) :
    (∃ text, v.toYaml = .ok text ∧ (record [(root, v)]).toYaml = .ok (wrapped root text) ∧
      ∀ limits : Limits, Layout.emit ⟨.yaml, true, limits⟩ root v = do
        (limits.checkOutput (wrapped root text)).mapError .tooLarge
        return wrapped root text) ∧
      (∀ s, '\n' ∉ Yaml.inlineText s) ∧
      ∀ s header ls, Yaml.blockText? s = some (header, ls) → ∀ n,
        Yaml.indented (Yaml.writeBlock n ls) = Yaml.writeBlock (n + 2) ls := by
  have hwrapped : (record [(root, v)]).toYaml = .ok (wrapped root (Yaml.document v)) := by
    have hnumbers : ∀ x ∈ (record [(root, v)]).numbers, x.isFinite = true := by
      intro x hx
      exact hfinite x (by simpa [numbers, entryNumbers] using hx)
    rw [toYaml_eq, checkFinite_eq_ok _ hnumbers, ← document_wrapped hfilled]
    rfl
  refine ⟨⟨Yaml.document v, ?_, hwrapped, fun limits => ?_⟩, Yaml.newline_not_mem_inlineText,
    fun s header ls h n => Yaml.indented_writeBlock (Yaml.newline_not_mem_blockText h) n⟩
  · rw [toYaml_eq, checkFinite_eq_ok v hfinite]
    rfl
  · have hwrite : Format.yaml.write "" (record [(root, v)]) =
        .ok (wrapped root (Yaml.document v)) := hwrapped
    simp only [Layout.emit, Layout.content, if_true, hwrite]
    rfl

theorem toYaml_wrapped_nested :
    nested.isFilled = true ∧ (∀ x ∈ nested.numbers, x.isFinite = true) ∧
      ∃ text, nested.toYaml = .ok text ∧
        (record [("my steps", nested)]).toYaml = .ok (wrapped "my steps" text) := by
  have hnumbers : ∀ x ∈ nested.numbers, x.isFinite = true := by
    show ∀ x ∈ [1.5, -0.0], _
    decide
  obtain ⟨⟨text, hv, hw, -⟩, -⟩ := toYaml_wrapped rfl hnumbers "my steps"
  exact ⟨rfl, hnumbers, text, hv, hw⟩

end Value

end TypedConfig
