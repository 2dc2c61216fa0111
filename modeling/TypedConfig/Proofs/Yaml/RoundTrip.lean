import TypedConfig.Proofs.Yaml.Blocks

/-! # Documents read back

Every value whose numbers are finite is written as a document that reads back as the value. The
proof follows the writing of values: the lines of an item or an entry are its own line and the
lines below it, all of which are indented, so that the next item or entry begins at the next line
that is not.
-/

namespace TypedConfig

namespace Value

mutual

def numbers : Value → List Float
  | .scalar s => scalarNumbers s
  | .sentinel c => scalarNumbers c.literal
  | .record es => entryNumbers es
  | .sequence vs => itemNumbers vs

def entryNumbers : List (String × Value) → List Float
  | [] => []
  | (_, v) :: es => numbers v ++ entryNumbers es

def itemNumbers : List Value → List Float
  | [] => []
  | v :: vs => numbers v ++ itemNumbers vs

def scalarNumbers : Scalar → List Float
  | .number x => [x]
  | .string _ | .boolean _ => []

end

end Value

namespace Yaml

variable {numberOf : String → Float} {head after : Line} {below rest : List Line} {l : Leaf}
  {n : Node}

/-- A number whose text reads back as it, or as zero if it is one of the zeros. -/
def ReadsBack (numberOf : String → Float) (x : Float) : Prop :=
  ∃ t, Number.text? x = some t ∧ numberOf t = if x == 0 then 0 else x

inductive Leaf.Reads (numberOf : String → Float) (l : Leaf) (n : Node) : Prop
  | block {ending : List Char} (hhead : literalEnd? l.head = some ending)
    (hbelow : literal? ending (l.below.map indentLine) = some n)
  | inline (hbelow : l.below = []) (houter : isInner l.head = false)
    (hliteral : literalEnd? l.head = none) (hitem : isItem l.head = false)
    (hkey : splitKey? numberOf l.head = none) (hnode : inlineNode? numberOf l.head = some n)

theorem isInner_cons {c : Char} {cs : List Char} (h : c ≠ ' ') : isInner (c :: cs) = false := by
  simpa [isInner] using h

theorem exists_cons_of_isInner (h : isInner head = false) : ∃ c cs, head = c :: cs ∧ c ≠ ' ' := by
  cases head with
  | nil => cases h
  | cons c cs => exact ⟨c, cs, rfl, by simpa [isInner] using h⟩

theorem dropWhile_of_isInner (h : isInner head = false) :
    (' ' :: head).dropWhile (· == ' ') = head := by
  obtain ⟨c, cs, rfl, hc⟩ := exists_cons_of_isInner h
  rw [List.dropWhile_cons_of_pos rfl, List.dropWhile_cons_of_neg (by simpa using hc)]

theorem isItem_eq_false {c : Char} {cs : List Char} (h : c ≠ '-') : isItem (c :: cs) = false := by
  unfold isItem
  split
  · simp_all
  · rfl

theorem literalEnd?_eq_none {c : Char} {cs : List Char} (h : c ≠ '|') :
    literalEnd? (c :: cs) = none := by
  unfold literalEnd?
  split
  · simp_all
  · simp_all
  · rfl

theorem Leaf.Reads.inlineText (s : String) :
    (⟨Yaml.inlineText s, []⟩ : Leaf).Reads numberOf (.string s) := by
  obtain ⟨c, cs, hs, hspace, hbar, hdash⟩ := inlineText_head s
  refine .inline rfl ?_ ?_ ?_ (splitKey?_inlineText s) (inlineNode?_inlineText s)
  · rw [hs, isInner_cons hspace]
  · rw [hs, literalEnd?_eq_none hbar]
  · rw [hs, isItem_eq_false hdash]

theorem Leaf.Reads.numeral {cs : List Char} (h : Number.IsNumeral cs) :
    (⟨cs, []⟩ : Leaf).Reads numberOf (.number (numberOf (String.ofList cs))) := by
  obtain ⟨d, r, hd, hcs⟩ := h.head
  refine .inline rfl ?_ ?_ ?_ (splitKey?_numeral h) (inlineNode?_numeral h)
  · rcases hcs with rfl | rfl
    · exact isInner_cons (ne_of_isDigit hd rfl)
    · rfl
  · rcases hcs with rfl | rfl
    · exact literalEnd?_eq_none (ne_of_isDigit hd rfl)
    · rfl
  · rcases hcs with rfl | rfl
    · exact isItem_eq_false (ne_of_isDigit hd rfl)
    · have hspace := ne_of_isDigit hd (d := ' ') rfl
      simpa [isItem, isGap] using hspace

/-- The leaf of a scalar reads back. -/
theorem reads_scalarLeaf (s : Scalar)
    (h : ∀ x ∈ Value.scalarNumbers s, ReadsBack numberOf x) :
    (scalarLeaf s).Reads numberOf (.ofScalar s) := by
  cases s with
  | string s =>
    rw [scalarLeaf, Node.ofScalar]
    split
    · rename_i header lines hb
      obtain ⟨ending, hheader, hbelow⟩ := literal?_blockText hb
      exact .block hheader hbelow
    · exact .inlineText s
  | number x =>
    obtain ⟨t, ht, hx⟩ := h x (List.mem_singleton_self x)
    rw [scalarLeaf, Node.ofScalar, ht, ← hx, Option.getD_some]
    have hn : (⟨t.toList, []⟩ : Leaf).Reads numberOf _ :=
      .numeral (Number.isNumeral_text ht)
    rwa [String.ofList_toList] at hn
  | boolean b => cases b <;> exact .inline rfl rfl rfl rfl rfl rfl

/-- The values that are leaves. -/
theorem leaf?_eq_some {v : Value} (hl : leaf? v = some l) :
    (∃ s, v = .scalar s ∧ l = scalarLeaf s) ∨
    (∃ c, v = .sentinel c ∧ l = scalarLeaf c.literal) ∨
    (v = .record [] ∧ l = ⟨['\x7b', '\x7d'], []⟩) ∨ (v = .sequence [] ∧ l = ⟨['[', ']'], []⟩) := by
  cases v with
  | scalar s => cases hl; exact .inl ⟨s, rfl, rfl⟩
  | sentinel c => cases hl; exact .inr (.inl ⟨c, rfl, rfl⟩)
  | record es =>
    cases es with
    | nil => cases hl; exact .inr (.inr (.inl ⟨rfl, rfl⟩))
    | cons e es => cases hl
  | sequence vs =>
    cases vs with
    | nil => cases hl; exact .inr (.inr (.inr ⟨rfl, rfl⟩))
    | cons v vs => cases hl

theorem reads_leaf {v : Value} (hl : leaf? v = some l)
    (h : ∀ x ∈ v.numbers, ReadsBack numberOf x) : l.Reads numberOf (.ofValue v) := by
  obtain ⟨s, rfl, rfl⟩ | ⟨c, rfl, rfl⟩ | ⟨rfl, rfl⟩ | ⟨rfl, rfl⟩ := leaf?_eq_some hl
  · exact reads_scalarLeaf s h
  · exact reads_scalarLeaf c.literal h
  · exact .inline rfl rfl rfl rfl rfl rfl
  · exact .inline rfl rfl rfl rfl rfl rfl

theorem Leaf.Reads.isInner_head (h : l.Reads numberOf n) : isInner l.head = false := by
  cases h with
  | block hhead _ =>
    unfold literalEnd? at hhead
    split at hhead
    · rename_i he
      rw [he]
      rfl
    · rename_i he
      rw [he]
      rfl
    · cases hhead
  | inline _ houter => exact houter

/-- Whether lines begin with one that is not indented. -/
def IsTop (ls : List Line) : Prop := ∀ l ∈ ls.head?, isInner l = false

theorem takeWhile_inner (hb : ∀ l ∈ below, isInner l = true) {rest : List Line} (hr : IsTop rest) :
    (below ++ rest).takeWhile isInner = below ∧ (below ++ rest).dropWhile isInner = rest := by
  rw [List.takeWhile_append_of_pos hb, List.dropWhile_append_of_pos hb]
  cases rest with
  | nil => simp
  | cons l ls =>
    have hl : ¬ isInner l = true := by simpa using hr l rfl
    rw [List.takeWhile_cons_of_neg hl, List.dropWhile_cons_of_neg hl, List.append_nil]
    exact ⟨rfl, rfl⟩

theorem isInner_indent (ls : List Line) : ∀ l ∈ ls.map indentLine, isInner l = true := by
  simp

/-- The first item. -/
theorem readItems_cons {head : Line} {below rest : List Line} {nodes : List Node}
    (hh : isInner head = false) (hb : ∀ l ∈ below, isInner l = true) (hr : IsTop rest)
    (hnode : readItem numberOf 2 head below = some n)
    (hnodes : readItems numberOf rest = some nodes) :
    readItems numberOf (('-' :: ' ' :: head) :: (below ++ rest)) = some (n :: nodes) := by
  obtain ⟨htake, hdrop⟩ := takeWhile_inner hb hr
  have hitem : isItem ('-' :: ' ' :: head) = true := rfl
  have hwidth : itemWidth ('-' :: ' ' :: head) = 2 := by
    obtain ⟨c, cs, rfl, hc⟩ := exists_cons_of_isInner hh
    simp [itemWidth, indentation, hc]
  have hhead : itemHead ('-' :: ' ' :: head) = head := dropWhile_of_isInner hh
  rw [readItems, dif_pos hitem, htake, hdrop, hwidth, hhead, hnode, hnodes]
  rfl

/-- The first entry. -/
theorem readEntries_cons {k : String} {after : Line} {below rest : List Line}
    {entries : List (Node × Node)} (hg : isGap after = true)
    (hb : ∀ l ∈ below, isInner l = true) (hr : IsTop rest)
    (hnode : readEntry numberOf (after.dropWhile (· == ' ')) below = some n)
    (hentries : readEntries numberOf rest = some entries) :
    readEntries numberOf ((inlineText k ++ ':' :: after) :: (below ++ rest)) =
      some ((.string k, n) :: entries) := by
  obtain ⟨htake, hdrop⟩ := takeWhile_inner hb hr
  rw [readEntries, splitKey?_inlineText_colon k hg, htake, hdrop]
  simp [hnode, hentries]

/-- Lines that stand by themselves, as an item. -/
theorem readItem_lines {ls : List Line} (ho : isInner head = false)
    (hl : literalEnd? head = none) (h : readNode numberOf (head :: ls) = some n) :
    readItem numberOf 2 head (ls.map indentLine) = some n := by
  obtain ⟨c, cs, rfl, -⟩ := exists_cons_of_isInner ho
  rw [readItem, hl]
  simp [h]

/-- Lines that stand by themselves, under a key. -/
theorem readEntry_lines {ls : List Line} (ho : isInner head = false)
    (h : readNode numberOf (head :: ls) = some n) :
    readEntry numberOf [] ((head :: ls).map indentLine) = some n := by
  rw [readEntry, isBlock_indent ho, depth_indent ho, dedent_indent]
  exact h

theorem readNode_inline (hitem : isItem head = false) (hkey : splitKey? numberOf head = none) :
    readNode numberOf [head] = inlineNode? numberOf head := by
  rw [readNode, hitem, hkey]
  rfl

theorem readItem_leaf (h : l.Reads numberOf n) :
    readItem numberOf 2 l.head (l.below.map indentLine) = some n := by
  cases h with
  | block hhead hbelow =>
    rw [readItem, hhead]
    exact hbelow
  | inline hbelow houter hliteral hitem hkey hnode =>
    rw [hbelow]
    exact readItem_lines houter hliteral ((readNode_inline hitem hkey).trans hnode)

theorem readEntry_leaf (h : l.Reads numberOf n) :
    readEntry numberOf l.head (l.below.map indentLine) = some n := by
  cases h with
  | block hhead hbelow =>
    rw [readEntry, hhead]
    exact hbelow
  | inline hbelow houter hliteral hitem hkey hnode =>
    obtain ⟨c, cs, hc, -⟩ := exists_cons_of_isInner houter
    rw [readEntry, hliteral, hbelow, hnode, hc]
    rfl

/-- The lines of entries begin with a key. -/
theorem entryLines_cons (k : String) (v : Value) (es : List (String × Value)) :
    ∃ after ls, entryLines ((k, v) :: es) = (inlineText k ++ ':' :: after) :: ls ∧
      isGap after = true := by
  rw [entryLines]
  cases leaf? v with
  | some l =>
    refine ⟨' ' :: l.head, l.below.map indentLine ++ entryLines es, ?_, rfl⟩
    simp [leafLines]
  | none => exact ⟨[], _, rfl, rfl⟩

/-- The lines of items begin with a dash. -/
theorem itemLines_cons : ∀ (v : Value) (vs : List Value),
    ∃ l ls, itemLines (v :: vs) = ('-' :: ' ' :: l) :: ls
  | .scalar _, _ | .sentinel _, _ | .record [], _ | .sequence [], _ => ⟨_, _, rfl⟩
  | .record ((k, v) :: es), vs => by
    obtain ⟨after, ls, he, -⟩ := entryLines_cons k v es
    have hlines : itemLines (.record ((k, v) :: es) :: vs) =
        itemOf (entryLines ((k, v) :: es)) ++ itemLines vs := rfl
    rw [hlines, he]
    exact ⟨_, _, rfl⟩
  | .sequence (v :: ws), vs => by
    obtain ⟨l, ls, he⟩ := itemLines_cons v ws
    have hlines : itemLines (.sequence (v :: ws) :: vs) =
        itemOf (itemLines (v :: ws)) ++ itemLines vs := rfl
    rw [hlines, he]
    exact ⟨_, _, rfl⟩

theorem isTop_itemLines (vs : List Value) : IsTop (itemLines vs) := by
  cases vs with
  | nil => exact nofun
  | cons v vs =>
    obtain ⟨l, ls, he⟩ := itemLines_cons v vs
    rw [he]
    rintro _ ⟨⟩
    rfl

theorem isInner_key (k : String) (after : Line) :
    isInner (inlineText k ++ ':' :: after) = false := by
  obtain ⟨c, cs, hs, hspace, -⟩ := inlineText_head k
  rw [hs]
  exact isInner_cons hspace

theorem isTop_entryLines (es : List (String × Value)) : IsTop (entryLines es) := by
  cases es with
  | nil => exact nofun
  | cons e es =>
    obtain ⟨after, ls, he, -⟩ := entryLines_cons e.1 e.2 es
    rw [he]
    rintro _ ⟨⟩
    exact isInner_key _ _

theorem lines_of_leaf {v : Value} (hl : leaf? v = some l) :
    lines v = l.head :: l.below.map indentLine := by
  obtain ⟨s, rfl, rfl⟩ | ⟨c, rfl, rfl⟩ | ⟨rfl, rfl⟩ | ⟨rfl, rfl⟩ := leaf?_eq_some hl
  all_goals rfl

/-- The first line of a value that is no leaf. -/
theorem lines_head {v : Value} (h : leaf? v = none) :
    ∃ head ls, lines v = head :: ls ∧ isInner head = false ∧ literalEnd? head = none := by
  cases v with
  | scalar | sentinel => cases h
  | record es =>
    cases es with
    | nil => cases h
    | cons e es =>
      obtain ⟨after, ls, he, -⟩ := entryLines_cons e.1 e.2 es
      refine ⟨_, ls, he, isInner_key _ _, ?_⟩
      obtain ⟨c, cs, hs, -, hbar, -⟩ := inlineText_head e.1
      rw [hs]
      exact literalEnd?_eq_none hbar
  | sequence vs =>
    cases vs with
    | nil => cases h
    | cons v vs =>
      obtain ⟨l, ls, he⟩ := itemLines_cons v vs
      exact ⟨_, ls, he, rfl, rfl⟩

mutual

/-- The lines of a value that is no leaf read back. -/
theorem readNode_lines : ∀ v, leaf? v = none → (∀ x ∈ v.numbers, ReadsBack numberOf x) →
    readNode numberOf (lines v) = some (.ofValue v)
  | .scalar _, hl, _ | .sentinel _, hl, _ => by cases hl
  | .record [], hl, _ | .sequence [], hl, _ => by cases hl
  | .record ((k, v) :: es), _, h => by
    have hentries := readEntries_entryLines ((k, v) :: es) h
    obtain ⟨after, ls, he, hg⟩ := entryLines_cons k v es
    obtain ⟨c, cs, hs, -, -, hdash⟩ := inlineText_head k
    have hitem : isItem (inlineText k ++ ':' :: after) = false := by
      rw [hs]
      exact isItem_eq_false hdash
    rw [lines, he, readNode, hitem, splitKey?_inlineText_colon k hg, ← he, hentries]
    rfl
  | .sequence (v :: vs), _, h => by
    have hitems := readItems_itemLines (v :: vs) h
    obtain ⟨l, ls, he⟩ := itemLines_cons v vs
    have hitem : isItem ('-' :: ' ' :: l) = true := rfl
    rw [lines, he, readNode, hitem, ← he, hitems]
    rfl

theorem readEntries_entryLines : ∀ es, (∀ x ∈ Value.entryNumbers es, ReadsBack numberOf x) →
    readEntries numberOf (entryLines es) = some (Node.ofEntries es)
  | [], _ => by rw [entryLines, readEntries]; rfl
  | (k, v) :: es, h => by
    obtain ⟨hv, hes⟩ := List.forall_mem_append.1 h
    have hrest := readEntries_entryLines es hes
    rw [entryLines]
    cases hl : leaf? v with
    | some l =>
      have hleaf := reads_leaf hl hv
      have hhead : readEntry numberOf ((' ' :: l.head).dropWhile (· == ' '))
          (l.below.map indentLine) = some (.ofValue v) := by
        rw [dropWhile_of_isInner hleaf.isInner_head]
        exact readEntry_leaf hleaf
      simpa [leafLines, Node.ofEntries] using
        readEntries_cons rfl (isInner_indent l.below) (isTop_entryLines es) hhead hrest
    | none =>
      obtain ⟨head, ls, hlines, ho, -⟩ := lines_head hl
      have hnode := readNode_lines v hl hv
      rw [hlines] at hnode ⊢
      exact readEntries_cons rfl (isInner_indent _) (isTop_entryLines es)
        (readEntry_lines ho hnode) hrest

theorem readItems_itemLines : ∀ vs, (∀ x ∈ Value.itemNumbers vs, ReadsBack numberOf x) →
    readItems numberOf (itemLines vs) = some (Node.ofItems vs)
  | [], _ => by rw [itemLines, readItems]; rfl
  | v :: vs, h => by
    obtain ⟨hv, hvs⟩ := List.forall_mem_append.1 h
    have hrest := readItems_itemLines vs hvs
    rw [itemLines]
    cases hl : leaf? v with
    | some l =>
      exact readItems_cons (reads_leaf hl hv).isInner_head (isInner_indent _) (isTop_itemLines vs)
        (readItem_leaf (reads_leaf hl hv)) hrest
    | none =>
      obtain ⟨head, ls, hlines, ho, hlit⟩ := lines_head hl
      have hnode := readNode_lines v hl hv
      rw [hlines] at hnode ⊢
      exact readItems_cons ho (isInner_indent _) (isTop_itemLines vs)
        (readItem_lines ho hlit hnode) hrest

end

def IsText (l : Line) : Prop := ∀ c ∈ l, isTextChar c = true

theorem IsText.append {l m : Line} (hl : IsText l) (hm : IsText m) : IsText (l ++ m) :=
  List.forall_mem_append.2 ⟨hl, hm⟩

theorem isText_inlineText (s : String) : IsText (inlineText s) :=
  fun _ hc => isTextChar_of_mem_inlineText hc

theorem isText_key (k : String) {after : Line} (h : IsText after) :
    IsText (inlineText k ++ ':' :: after) :=
  (isText_inlineText k).append (List.forall_mem_cons.2 ⟨rfl, h⟩)

theorem isText_numeral {cs : List Char} (h : Number.IsNumeral cs) : IsText cs := by
  intro c hc
  rcases h.mem hc with hd | rfl | rfl | rfl
  · refine isTextChar_of_needsEscape ?_
    simp only [Char.isDigit, Bool.and_eq_true, decide_eq_true_eq] at hd
    have hlow : 48 ≤ c.toNat := UInt32.le_iff_toNat_le.1 hd.1
    have hhigh : c.toNat ≤ 57 := UInt32.le_iff_toNat_le.1 hd.2
    simp only [needsEscape, Bool.or_eq_false_iff, decide_eq_false_iff_not, beq_eq_false_iff_ne,
      Bool.and_eq_false_iff]
    omega
  · rfl
  · rfl
  · rfl

theorem isText_indent {ls : List Line} (h : ∀ line ∈ ls, IsText line) :
    ∀ line ∈ ls.map indentLine, IsText line := by
  intro line hm
  obtain ⟨line', hm', rfl⟩ := List.mem_map.1 hm
  unfold indentLine
  split
  · exact h line' hm'
  · exact List.forall_mem_cons.2 ⟨rfl, List.forall_mem_cons.2 ⟨rfl, h line' hm'⟩⟩

theorem isMarker_cons {c : Char} {cs : List Char} (hdash : c ≠ '-') (hpoint : c ≠ '.') :
    isMarker (c :: cs) = false := by
  unfold isMarker
  split <;> simp_all

theorem isMarker_numeral {cs : List Char} (h : Number.IsNumeral cs) : isMarker cs = false := by
  obtain ⟨d, r, hd, rfl | rfl⟩ := h.head
  · exact isMarker_cons (ne_of_isDigit hd rfl) (ne_of_isDigit hd rfl)
  · have hdash := ne_of_isDigit hd (d := '-') rfl
    unfold isMarker
    split <;> simp_all

theorem isMarker_indent (ls : List Line) : ∀ line ∈ ls.map indentLine, isMarker line = false := by
  intro line hm
  obtain ⟨line', -, rfl⟩ := List.mem_map.1 hm
  cases line' <;> rfl

/-- What the lines of a document may be. -/
def IsPrinted (ls : List Line) : Prop := ∀ line ∈ ls, IsText line ∧ isMarker line = false

theorem IsPrinted.append {ls ms : List Line} (hl : IsPrinted ls) (hm : IsPrinted ms) :
    IsPrinted (ls ++ ms) :=
  List.forall_mem_append.2 ⟨hl, hm⟩

theorem IsPrinted.indented {head : Line} {ls : List Line} (hhead : IsText head)
    (hmarker : isMarker head = false) (h : ∀ line ∈ ls, IsText line) :
    IsPrinted (head :: ls.map indentLine) :=
  List.forall_mem_cons.2 ⟨⟨hhead, hmarker⟩,
    fun line hm => ⟨isText_indent h line hm, isMarker_indent ls line hm⟩⟩

theorem isText_scalarLeaf (s : Scalar) :
    IsText (scalarLeaf s).head ∧ isMarker (scalarLeaf s).head = false ∧
      ∀ line ∈ (scalarLeaf s).below, IsText line := by
  cases s with
  | string s =>
    rw [scalarLeaf]
    split
    · rename_i header ls hb
      have hbelow : ∀ line ∈ ls, IsText line :=
        fun line hm c hc => isTextChar_of_mem_blockText hb hm hc
      obtain ⟨-, ending, -, -, hheader, -⟩ := blockText?_eq_some hb
      unfold literalEnd? at hheader
      split at hheader
      · exact ⟨List.all_eq_true.1 rfl, rfl, hbelow⟩
      · exact ⟨List.all_eq_true.1 rfl, rfl, hbelow⟩
      · cases hheader
    · refine ⟨isText_inlineText s, ?_, List.forall_mem_nil _⟩
      simpa using isMarker_inlineText s (.inl rfl)
  | number x =>
    cases ht : Number.text? x with
    | none =>
      simp only [scalarLeaf, ht]
      exact ⟨List.forall_mem_nil _, rfl, List.forall_mem_nil _⟩
    | some t =>
      have hn := Number.isNumeral_text ht
      simp only [scalarLeaf, ht]
      exact ⟨isText_numeral hn, isMarker_numeral hn, List.forall_mem_nil _⟩
  | boolean b => cases b <;> exact ⟨List.all_eq_true.1 rfl, rfl, List.forall_mem_nil _⟩

theorem isText_leaf {v : Value} (hl : leaf? v = some l) :
    IsText l.head ∧ isMarker l.head = false ∧ ∀ line ∈ l.below, IsText line := by
  obtain ⟨s, -, rfl⟩ | ⟨c, -, rfl⟩ | ⟨-, rfl⟩ | ⟨-, rfl⟩ := leaf?_eq_some hl
  · exact isText_scalarLeaf s
  · exact isText_scalarLeaf c.literal
  · exact ⟨List.all_eq_true.1 rfl, rfl, List.forall_mem_nil _⟩
  · exact ⟨List.all_eq_true.1 rfl, rfl, List.forall_mem_nil _⟩

theorem isPrinted_leaf {v : Value} (hl : leaf? v = some l) : IsPrinted (lines v) := by
  obtain ⟨hhead, hmarker, hbelow⟩ := isText_leaf hl
  rw [lines_of_leaf hl]
  exact .indented hhead hmarker hbelow

mutual

/-- Every character of the lines of a value stands for itself, and no line is a marker. -/
theorem isPrinted_lines : ∀ v, IsPrinted (lines v)
  | .scalar s => isPrinted_leaf (v := .scalar s) rfl
  | .sentinel c => isPrinted_leaf (v := .sentinel c) rfl
  | .record [] => isPrinted_leaf (v := .record []) rfl
  | .sequence [] => isPrinted_leaf (v := .sequence []) rfl
  | .record ((k, v) :: es) => isPrinted_entryLines ((k, v) :: es)
  | .sequence (v :: vs) => isPrinted_itemLines (v :: vs)

theorem isPrinted_entryLines : ∀ es, IsPrinted (entryLines es)
  | [] => nofun
  | (k, v) :: es => by
    rw [entryLines]
    refine .append ?_ (isPrinted_entryLines es)
    cases hl : leaf? v with
    | some l =>
      obtain ⟨hhead, -, hbelow⟩ := isText_leaf hl
      have hline : inlineText k ++ [':', ' '] ++ l.head = inlineText k ++ ':' :: ' ' :: l.head :=
        List.append_assoc _ _ _
      show IsPrinted ((inlineText k ++ [':', ' '] ++ l.head) :: l.below.map indentLine)
      rw [hline]
      exact .indented (isText_key k (List.forall_mem_cons.2 ⟨rfl, hhead⟩))
        (isMarker_inlineText k (.inr ⟨_, rfl⟩)) hbelow
    | none =>
      exact .indented (isText_key k nofun) (isMarker_inlineText k (.inr ⟨_, rfl⟩))
        fun line hm => (isPrinted_lines v line hm).1

theorem isPrinted_itemLines : ∀ vs, IsPrinted (itemLines vs)
  | [] => nofun
  | v :: vs => by
    have hdash {head : Line} (h : IsText head) : IsText ('-' :: ' ' :: head) :=
      List.forall_mem_cons.2 ⟨rfl, List.forall_mem_cons.2 ⟨rfl, h⟩⟩
    rw [itemLines]
    refine .append ?_ (isPrinted_itemLines vs)
    cases hl : leaf? v with
    | some l =>
      obtain ⟨hhead, -, hbelow⟩ := isText_leaf hl
      exact .indented (hdash hhead) rfl hbelow
    | none =>
      have hlines := isPrinted_lines v
      cases hv : lines v with
      | nil => exact nofun
      | cons head ls =>
        rw [hv] at hlines
        exact .indented (hdash (hlines head List.mem_cons_self).1) rfl
          fun line hm => (hlines line (List.mem_cons_of_mem _ hm)).1

end

/-- The lines of a value have no line breaks in them. -/
theorem newline_not_mem_lines (v : Value) : ∀ line ∈ lines v, '\n' ∉ line :=
  fun line hm hn => Bool.false_ne_true ((isPrinted_lines v line hm).1 _ hn)

theorem linesOf_append {line : Line} (h : IsText line) (cs : List Char) :
    linesOf (line ++ '\n' :: cs) = line :: linesOf cs := by
  induction line with
  | nil => rfl
  | cons c line ih =>
    obtain ⟨hc, hline⟩ := List.forall_mem_cons.1 h
    have hfeed : c ≠ '\n' := by rintro rfl; cases hc
    have hreturn : c ≠ '\r' := by rintro rfl; cases hc
    rw [List.cons_append, linesOf, ih hline]
    all_goals simp_all

/-- Lines of text are the lines of the text that they make up. -/
theorem linesOf_ofLines {ls : List Line} (h : ∀ line ∈ ls, IsText line) :
    linesOf (ofLines ls).toList = ls := by
  rw [ofLines, String.toList_ofList]
  induction ls with
  | nil => rfl
  | cons line ls ih =>
    rw [List.forall_mem_cons] at h
    rw [List.flatMap_cons, List.append_assoc, List.singleton_append, linesOf_append h.1, ih h.2]

theorem read_ofLines {ls : List Line} (h : IsPrinted ls) :
    read numberOf (ofLines ls) = readLines numberOf ls := by
  have hall : (ls.all fun l => l.all isTextChar && !isMarker l) = true := by
    refine List.all_eq_true.2 fun l hl => ?_
    obtain ⟨htext, hmarker⟩ := h l hl
    rw [List.all_eq_true.2 htext, hmarker]
    rfl
  rw [read, linesOf_ofLines fun l hl => (h l hl).1]
  exact if_pos hall

/-- The document of a value reads back as the value. -/
theorem read_document {v : Value} (h : ∀ x ∈ v.numbers, ReadsBack numberOf x) :
    read numberOf (document v) = some (.ofValue v) := by
  rw [document, read_ofLines (isPrinted_lines v)]
  cases hl : leaf? v with
  | none =>
    obtain ⟨head, ls, hlines, -, hlit⟩ := lines_head hl
    have hnode := readNode_lines v hl h
    rw [hlines] at hnode ⊢
    simpa only [readLines, hlit] using hnode
  | some l =>
    rw [lines_of_leaf hl]
    cases reads_leaf hl h with
    | block hhead hbelow => simpa only [readLines, hhead] using hbelow
    | inline hbelow houter hliteral hitem hkey hnode =>
      rw [hbelow]
      simpa only [readLines, hliteral, List.map_nil] using (readNode_inline hitem hkey).trans hnode

end Yaml


namespace Value

variable {numberOf : String → Float} {v : Value}

theorem checkScalar_eq_ok {s : Scalar} (h : ∀ x ∈ scalarNumbers s, x.isFinite = true)
    (path : String) : checkScalar path s = .ok () := by
  cases s with
  | number x => exact if_pos (h x (List.mem_singleton_self x))
  | string | boolean => rfl

mutual

/-- A value whose numbers are finite is not refused. -/
theorem checkFinite_eq_ok : ∀ v, (∀ x ∈ numbers v, x.isFinite = true) →
    ∀ path, checkFinite path v = .ok ()
  | .scalar _, h, path => checkScalar_eq_ok h path
  | .sentinel _, h, path => checkScalar_eq_ok h path
  | .record es, h, path => checkEntries_eq_ok es h path
  | .sequence vs, h, path => checkItems_eq_ok vs h path 0

theorem checkEntries_eq_ok : ∀ es, (∀ x ∈ entryNumbers es, x.isFinite = true) →
    ∀ path, checkEntries path es = .ok ()
  | [], _, _ => rfl
  | (k, v) :: es, h, path => by
    obtain ⟨hv, hes⟩ := List.forall_mem_append.1 h
    rw [checkEntries, checkFinite_eq_ok v hv]
    exact checkEntries_eq_ok es hes path

theorem checkItems_eq_ok : ∀ vs, (∀ x ∈ itemNumbers vs, x.isFinite = true) →
    ∀ path i, checkItems path i vs = .ok ()
  | [], _, _, _ => rfl
  | v :: vs, h, path, i => by
    obtain ⟨hv, hvs⟩ := List.forall_mem_append.1 h
    rw [checkItems, checkFinite_eq_ok v hv]
    exact checkItems_eq_ok vs hvs path (i + 1)

end

/-- A value whose numbers are finite is written as a document that reads back as it, by any
reader that takes the texts of its numbers for them. -/
theorem read_toYaml (hfinite : ∀ x ∈ v.numbers, x.isFinite = true) (hzero : numberOf "0" = 0)
    (hnumber : ∀ x ∈ v.numbers, (x == 0) = false → ∀ t, Number.text? x = some t → numberOf t = x) :
    ∃ text, v.toYaml = .ok text ∧ Yaml.read numberOf text = some (.ofValue v) := by
  refine ⟨Yaml.document v, ?_, Yaml.read_document fun x hx => ?_⟩
  · rw [toYaml_eq, checkFinite_eq_ok v hfinite]
    rfl
  · cases hz : x == 0 with
    | true => exact ⟨"0", Number.text?_zero hz, by rw [hz, if_pos rfl, hzero]⟩
    | false =>
      obtain ⟨t, ht⟩ := Option.isSome_iff_exists.1 (Number.text?_isSome (hfinite x hx))
      exact ⟨t, ht, by rw [hz, if_neg Bool.false_ne_true, hnumber x hx hz t ht]⟩

/-- A value of every form. -/
def nested : Value :=
  .record [("a: b", .sequence [.scalar (.number 1.5), .scalar (.number (-0.0)),
    .sequence [.scalar (.string "- a\n\nb\n"), .record []]]),
    ("", .record [("no", .sentinel ⟨"wait", .string "yes"⟩), ("c", .scalar (.boolean true))])]

theorem read_toYaml_nested :
    ∃ text, nested.toYaml = .ok text ∧
      Yaml.read (fun t => if t = "1.5" then 1.5 else 0) text = some (.ofValue nested) := by
  have hnumbers : nested.numbers = [1.5, -0.0] := rfl
  refine read_toYaml ?_ rfl ?_
  · rw [hnumbers]
    decide
  · rw [hnumbers]
    intro x hx hz t ht
    rcases List.mem_cons.1 hx with rfl | hx
    · have htext : Number.text? 1.5 = some "1.5" := by decide +kernel
      rw [htext] at ht
      cases ht
      rfl
    · cases List.mem_singleton.1 hx
      exact absurd hz (by decide)

end Value

end TypedConfig
