import Mathlib.Data.List.Basic
import TypedConfig.Files
import TypedConfig.Proofs.Entries

/-! # Places in a file tree

Where a path leads depends on the directories of a tree only. So writing files leaves all places
as they are, and two names of one directory are two places.
-/

namespace TypedConfig

namespace Path

/-- A name that leads to an entry of a directory. -/
structure Proper (name : String) : Prop where
  slashFree : '/' ∉ name.toList
  nonempty : name ≠ ""
  notHere : name ≠ "."
  notUp : name ≠ ".."

theorem namesOf_of_slashFree {part cs : List Char} (h : '/' ∉ cs) :
    namesOf part cs = [String.ofList (part.reverse ++ cs)] := by
  induction cs generalizing part with
  | nil => rw [namesOf, List.append_nil]
  | cons c cs ih =>
    rw [List.mem_cons, not_or] at h
    obtain ⟨hc, hcs⟩ := h
    rw [namesOf, if_neg (Ne.symm hc), ih hcs, List.reverse_cons, List.append_assoc,
      List.singleton_append]

theorem namesOf_append_slash (part cs ds : List Char) :
    namesOf part (cs ++ '/' :: ds) = namesOf part cs ++ namesOf [] ds := by
  induction cs generalizing part with
  | nil => rfl
  | cons c cs ih =>
    rw [List.cons_append, namesOf, namesOf]
    split
    · rw [ih, List.cons_append]
    · exact ih _

theorem slashFree_of_mem_namesOf {part cs : List Char} (hp : '/' ∉ part) {name : String}
    (h : name ∈ namesOf part cs) : '/' ∉ name.toList := by
  induction cs generalizing part with
  | nil =>
    rw [namesOf, List.mem_singleton] at h
    rwa [h, String.toList_ofList, List.mem_reverse]
  | cons c cs ih =>
    rw [namesOf] at h
    split at h
    · rcases List.mem_cons.1 h with rfl | h
      · rwa [String.toList_ofList, List.mem_reverse]
      · exact ih List.not_mem_nil h
    · rename_i hc
      refine ih (fun hm => ?_) h
      rcases List.mem_cons.1 hm with he | hm
      · exact hc he.symm
      · exact hp hm

theorem names_of_slashFree {name : String} (h : '/' ∉ name.toList) : names name = [name] := by
  rw [names, namesOf_of_slashFree h, List.reverse_nil, List.nil_append, String.ofList_toList]

/-- The names of a path in a directory are those of the directory, up to an empty one at their
end, and its own. -/
theorem names_join (directory : String) {name : String} (h : '/' ∉ name.toList) :
    ∃ front, names (join directory name) = front ++ [name] ∧
      (names directory = front ∨ names directory = front ++ [""]) := by
  unfold join
  split
  · rename_i hd
    obtain rfl : directory = "" := String.toList_eq_nil_iff.1 (List.getLast?_eq_none_iff.1 hd)
    exact ⟨[], by rw [String.empty_append, names_of_slashFree h]; rfl, .inr rfl⟩
  · rename_i hd
    obtain ⟨cs, hcs⟩ := List.getLast?_eq_some_iff.1 hd
    refine ⟨namesOf [] cs, ?_, .inr ?_⟩
    · rw [names, String.toList_append, hcs, List.append_assoc, List.singleton_append,
        namesOf_append_slash]
      exact congrArg _ (names_of_slashFree h)
    · rw [names, hcs, namesOf_append_slash]
      rfl
  · refine ⟨names directory, ?_, .inl rfl⟩
    rw [names, String.toList_append, String.toList_append, List.append_assoc]
    exact (namesOf_append_slash [] _ _).trans (congrArg _ (names_of_slashFree h))

theorem isAbsolute_join (directory : String) {name : String} (h : Proper name) :
    isAbsolute (join directory name) = isAbsolute directory := by
  have hhead (cs : List Char) (hne : directory.toList ≠ []) :
      (directory.toList ++ cs).head? = directory.toList.head? := by
    rw [List.head?_append_of_ne_nil _ hne]
  unfold isAbsolute join
  split
  · rename_i hd
    obtain rfl : directory = "" := String.toList_eq_nil_iff.1 (List.getLast?_eq_none_iff.1 hd)
    rw [String.empty_append]
    cases hn : name.toList with
    | nil => exact absurd (String.toList_eq_nil_iff.1 hn) h.nonempty
    | cons c cs =>
      have hc : '/' ≠ c := fun hc => h.slashFree (hn ▸ hc ▸ List.mem_cons_self)
      simpa using Ne.symm hc
  · rename_i hd
    rw [String.toList_append, hhead]
    intro hnil
    rw [hnil] at hd
    cases hd
  · rename_i hd
    rw [String.toList_append, String.toList_append, List.append_assoc, hhead]
    intro hnil
    rw [hnil] at hd
    cases hd

theorem join_eq_append (directory : String) :
    ∃ lead, ∀ name, join directory name = lead ++ name := by
  unfold join
  split
  · exact ⟨directory, fun _ => rfl⟩
  · exact ⟨directory, fun _ => rfl⟩
  · exact ⟨directory ++ "/", fun _ => rfl⟩

theorem join_assoc (a : String) {b : String} (hb : b ≠ "") (c : String) :
    join a (join b c) = join (join a b) c := by
  obtain ⟨lead, hlead⟩ := join_eq_append a
  have hlast : (lead ++ b).toList.getLast? = b.toList.getLast? := by
    rw [String.toList_append, List.getLast?_append_of_ne_nil]
    exact fun h => hb (String.toList_eq_nil_iff.1 h)
  rw [hlead, hlead, join, join, hlast]
  split <;> simp only [String.append_assoc]

theorem join_ne_empty (directory : String) {name : String} (h : name ≠ "") :
    join directory name ≠ "" := by
  obtain ⟨lead, hlead⟩ := join_eq_append directory
  rw [hlead]
  simp [h]

theorem within_ne_empty (directory : String) {path : String} (h : path ≠ "") :
    within directory path ≠ "" := by
  unfold within
  split
  · exact h
  · exact join_ne_empty directory h

/-- The names in a directory lead into one directory, wherever they are seen from. -/
theorem within_join (start target : String) :
    ∃ directory, (target ≠ "" → directory = within start target) ∧
      ∀ name, Proper name → within start (join target name) = join directory name := by
  by_cases ht : target = ""
  · refine ⟨start, absurd ht, fun name h => ?_⟩
    have hname : join target name = name := by
      rw [ht]
      exact String.empty_append
    have habsolute : isAbsolute name = false := by
      rw [← hname, isAbsolute_join target h, ht]
      rfl
    rw [hname, within, habsolute]
    simp [h.nonempty]
  · refine ⟨within start target, fun _ => rfl, fun name h => ?_⟩
    simp only [within, join_ne_empty target h.nonempty, ht, isAbsolute_join target h, false_or]
    split
    · rfl
    · exact join_assoc start ht name

theorem mem_of_mem_dropEnd {ending cs : List Char} {c : Char} (h : c ∈ dropEnd ending cs) :
    c ∈ cs := by
  unfold dropEnd at h
  split at h
  · exact List.mem_of_mem_take h
  · exact h

theorem mem_of_mem_stem {name : String} {c : Char} (h : c ∈ (stem name).toList) :
    c ∈ name.toList := by
  rw [stem, String.toList_ofList] at h
  exact mem_of_mem_dropEnd (mem_of_mem_dropEnd (mem_of_mem_dropEnd (mem_of_mem_dropEnd h)))

theorem slashFree_fileName (path : String) : '/' ∉ ((fileName? path).getD "").toList := by
  unfold fileName?
  split
  · exact List.not_mem_nil
  · cases hlast : ((names path).filter fun n => n != "" && n != ".").getLast? with
    | none => exact List.not_mem_nil
    | some name =>
      have hm := (List.mem_filter.1 (List.mem_of_getLast? hlast)).1
      exact slashFree_of_mem_namesOf List.not_mem_nil hm

theorem proper_documentName (program : String) (format : Format) :
    Proper (documentName program format) := by
  have htext : (documentName program format).toList =
      (stem ((fileName? program).getD "")).toList ++ '.' :: format.extension.toList := by
    rw [documentName, String.toList_append, String.toList_append, List.append_assoc]
    rfl
  have hlong : 4 ≤ (documentName program format).toList.length := by
    rw [htext, List.length_append, List.length_cons]
    cases format <;> simp [Format.extension]
  have hne (name : String) (h : name.toList.length < 4) : documentName program format ≠ name :=
    fun he => by rw [he] at hlong; omega
  refine ⟨?_, hne _ (by decide), hne _ (by decide), hne _ (by decide)⟩
  rw [htext, List.mem_append, not_or]
  refine ⟨fun h => slashFree_fileName program (mem_of_mem_stem h), ?_⟩
  cases format <;> decide

end Path

namespace FileTree

variable {t t' : FileTree} {path text target : String} {here names : List String}

def place? (t : FileTree) (path : String) : Option String := (t.locate path).map key

theorem locateFrom_append (xs ys : List String) :
    t.locateFrom here (xs ++ ys) = (t.locateFrom here xs).bind fun h => t.locateFrom h ys := by
  induction xs generalizing here with
  | nil => rfl
  | cons name xs ih =>
    rw [List.cons_append, locateFrom, locateFrom]
    split
    · split
      · exact ih
      · split
        · exact ih
        · exact ih
    · rfl

theorem locateFrom_singleton {name : String} (h : Path.Proper name) :
    t.locateFrom here [name] = if t.isDirectoryAt here then some (here ++ [name]) else none := by
  simp [locateFrom, h.nonempty, h.notHere, h.notUp]

/-- A name in a directory leads to an entry of it. -/
theorem locate_join (directory : String) {name : String} (h : Path.Proper name) :
    t.locate (Path.join directory name) =
      (t.locate directory).bind fun here =>
        if t.isDirectoryAt here then some (here ++ [name]) else none := by
  obtain ⟨front, hnames, hfront⟩ := Path.names_join directory h.slashFree
  rw [locate, locate, hnames, locateFrom_append]
  rcases hfront with hf | hf
  · rw [hf]
    exact congrArg _ (funext fun here => locateFrom_singleton h)
  · rw [hf, locateFrom_append, Option.bind_assoc]
    refine congrArg _ (funext fun here => ?_)
    rw [locateFrom_singleton h, locateFrom]
    split
    · simp [locateFrom, *]
    · rfl

/-- Two names of one directory are two places. -/
theorem key_concat_inj {a b : String} (h : key (here ++ [a]) = key (here ++ [b])) : a = b := by
  cases here with
  | nil => simpa [key] using h
  | cons name here =>
    rw [key, key, String.intercalate_append_of_ne_nil (List.cons_ne_nil _ _) (List.cons_ne_nil _ _),
      String.intercalate_append_of_ne_nil (List.cons_ne_nil _ _) (List.cons_ne_nil _ _),
      String.intercalate_singleton, String.intercalate_singleton] at h
    simpa using h

theorem place?_join_inj {directory a b k : String} (ha : Path.Proper a) (hb : Path.Proper b)
    (hka : t.place? (Path.join directory a) = some k)
    (hkb : t.place? (Path.join directory b) = some k) : a = b := by
  rw [place?, locate_join directory ha] at hka
  rw [place?, locate_join directory hb] at hkb
  cases hd : t.locate directory with
  | none => simp [hd] at hka
  | some here =>
    rw [hd, Option.bind_some] at hka hkb
    split at hka
    · simp only [*, if_true, Option.map_some, Option.some.injEq] at hka hkb
      exact key_concat_inj (hka.trans hkb.symm)
    · cases hka

theorem locateFrom_congr (h : ∀ ns, t'.isDirectoryAt ns = t.isDirectoryAt ns) :
    t'.locateFrom here names = t.locateFrom here names := by
  induction names generalizing here with
  | nil => rfl
  | cons name names ih => rw [locateFrom, locateFrom, h, ih, ih, ih]

theorem locate_congr (h : ∀ ns, t'.isDirectoryAt ns = t.isDirectoryAt ns) :
    t'.locate path = t.locate path := by
  rw [locate, locate, locateFrom_congr h]

theorem place?_congr (h : ∀ ns, t'.isDirectoryAt ns = t.isDirectoryAt ns) :
    t'.place? path = t.place? path := by
  rw [place?, place?, locate_congr h]

/-- A file is written at the place that its path leads to, where no directory is. -/
theorem eq_put_of_write? (h : t.write? path text = some t') :
    ∃ k, t.place? path = some k ∧ t' = Entries.put t k (.file text) ∧
      ∀ ns, t'.isDirectoryAt ns = t.isDirectoryAt ns := by
  simp only [write?, Option.bind_eq_bind, Option.bind_eq_some_iff] at h
  obtain ⟨names, hnames, h⟩ := h
  split at h
  · cases h
  · rename_i hd
    cases h
    refine ⟨key names, by rw [place?, hnames]; rfl, rfl, fun ns => ?_⟩
    simp only [isDirectoryAt, Bool.or_eq_true, not_or] at hd ⊢
    rw [Entries.get?_put]
    split
    · rename_i hk
      rw [← hk, eq_false_of_ne_true hd.2]
      rfl
    · rfl

/-- The file at a name in a directory is read back. -/
theorem read?_join {directory name k : String} (hn : Path.Proper name)
    (hp : t.place? (Path.join directory name) = some k)
    (hk : Entries.get? t k = some (.file text)) :
    t.read? (Path.join directory name) = some text := by
  obtain ⟨names, hnames, rfl⟩ := Option.map_eq_some_iff.1 hp
  have hne : names ≠ [] := by
    rw [locate_join directory hn] at hnames
    obtain ⟨here, -, hnames⟩ := Option.bind_eq_some_iff.1 hnames
    split at hnames
    · cases hnames
      exact List.concat_ne_nil _ _
    · cases hnames
  simp [read?, node?, hnames, Path.join_ne_empty directory hn.nonempty, hne, hk]

theorem node?_of_locate (hp : path ≠ "") (h : t.locate path = some here)
    (hd : t.isDirectoryAt here = true) : t.node? path = some .directory := by
  cases here with
  | nil => simp [node?, h, hp]
  | cons name here => simpa [node?, h, hp, isDirectoryAt] using hd

/-- A tree with nothing changed but directories added. -/
def Grows (t t' : FileTree) : Prop :=
  ∀ k, Entries.get? t' k = Entries.get? t k ∨
    Entries.get? t k = none ∧ Entries.get? t' k = some .directory

theorem Grows.refl (t : FileTree) : t.Grows t := fun _ => .inl rfl

theorem Grows.trans {u : FileTree} (h : t.Grows t') (h' : t'.Grows u) : t.Grows u := by
  intro k
  rcases h' k with hu | ⟨hn, hu⟩
  · rw [hu]
    exact h k
  · rcases h k with ht | ⟨hn', ht⟩
    · exact .inr ⟨ht ▸ hn, hu⟩
    · exact .inr ⟨hn', hu⟩

theorem Grows.put {k : String} (h : Entries.get? t k = none) :
    t.Grows (Entries.put t k .directory) := by
  intro k'
  rw [Entries.get?_put]
  split
  · rename_i hk
    exact .inr ⟨hk ▸ h, rfl⟩
  · exact .inl rfl

theorem Grows.isDirectoryAt (h : t.Grows t') {ns : List String}
    (hd : t.isDirectoryAt ns = true) : t'.isDirectoryAt ns = true := by
  simp only [FileTree.isDirectoryAt, Bool.or_eq_true, beq_iff_eq] at hd ⊢
  refine hd.imp_right fun hk => ?_
  rcases h (key ns) with he | ⟨hn, -⟩
  · rw [he, hk]
  · rw [hn] at hk
    cases hk

/-- The names lead through directories only. -/
def Passes (t : FileTree) (here : List String) : Prop :=
  ∀ ns, ns <+: here → t.isDirectoryAt ns = true

theorem Passes.concat (h : t.Passes here) {name : String}
    (hk : Entries.get? t (key (here ++ [name])) = some .directory) : t.Passes (here ++ [name]) := by
  intro ns hns
  rcases List.prefix_concat_iff.1 hns with rfl | hns
  · simp [isDirectoryAt, hk]
  · exact h ns hns

/-- Made directories are all that changes, and the names lead to a directory then. -/
theorem grows_of_makeFrom (h : t.makeFrom here names = some t') (hp : t.Passes here) :
    t.Grows t' ∧
      ∃ there, t'.locateFrom here names = some there ∧ t'.isDirectoryAt there = true := by
  induction names generalizing t here with
  | nil =>
    cases h
    exact ⟨.refl _, here, rfl, hp here List.prefix_rfl⟩
  | cons name names ih =>
    have hhere {u : FileTree} (hg : t.Grows u) : u.isDirectoryAt here = true :=
      hg.isDirectoryAt (hp here List.prefix_rfl)
    rw [makeFrom] at h
    rw [locateFrom]
    split at h
    · obtain ⟨hg, hthere⟩ := ih h hp
      rw [if_pos (hhere hg), if_pos ‹_›]
      exact ⟨hg, hthere⟩
    · split at h
      · obtain ⟨hg, hthere⟩ := ih h fun ns hns => hp ns (hns.trans (List.dropLast_prefix _))
        rw [if_pos (hhere hg), if_neg ‹_›, if_pos ‹_›]
        exact ⟨hg, hthere⟩
      · suffices hnext : t.Grows t' ∧ ∃ there,
            t'.locateFrom (here ++ [name]) names = some there ∧ t'.isDirectoryAt there = true by
          rw [if_pos (hhere hnext.1), if_neg ‹_›, if_neg ‹_›]
          exact hnext
        dsimp only at h
        split at h
        · exact ih h (hp.concat ‹_›)
        · cases h
        · rename_i hnone
          have hput := Grows.put hnone
          have hpass : Passes (Entries.put t (key (here ++ [name])) .directory) here :=
            fun ns hns => hput.isDirectoryAt (hp ns hns)
          obtain ⟨hg, hthere⟩ := ih h (hpass.concat (by rw [Entries.get?_put, if_pos rfl]))
          exact ⟨hput.trans hg, hthere⟩

theorem grows_of_makeDirectories? (h : t.makeDirectories? path = some t') :
    t.Grows t' ∧ ∃ there, t'.locate path = some there ∧ t'.isDirectoryAt there = true := by
  refine grows_of_makeFrom h fun ns hns => ?_
  obtain rfl := List.prefix_nil.1 hns
  rfl

end FileTree

end TypedConfig
