import Mathlib
import TypedConfig.Command
import TypedConfig.Proofs.Files

/-! # Compiling several programs

Programs are compiled to documents all or not at all: where one of them fails, the command fails and
leaves every file as it was. Documents that go into a directory go into different files, and nothing
else changes there.
-/

namespace TypedConfig.Command

variable {α β : Type} {start : String} {t t' : FileTree}

/-- Work on the files of a tree, as they are seen from a directory. -/
abbrev TreeWork := Work (ReaderT String (StateM FileTree))

/-- What work that starts in a directory gives on a file tree, and the tree that it leaves. -/
def runOn (work : TreeWork α) (start : String) (t : FileTree) :
    Except CommandError α × FileTree :=
  Id.run (StateT.run (ReaderT.run (ExceptT.run work) start) t)

theorem runOn_bind {w : TreeWork α} {a : α} (h : runOn w start t = (.ok a, t'))
    (f : α → TreeWork β) : runOn (w >>= f) start t = runOn (f a) start t' := by
  show (ExceptT.bindCont f (runOn w start t).1) start (runOn w start t).2 = _
  rw [h]
  rfl

theorem runOn_bind_error {w : TreeWork α} {e : CommandError}
    (h : runOn w start t = (.error e, t')) (f : α → TreeWork β) :
    runOn (w >>= f) start t = (.error e, t') := by
  show (ExceptT.bindCont f (runOn w start t).1) start (runOn w start t).2 = _
  rw [h]
  rfl

/-- Work that succeeds goes through a result of its first part. -/
theorem runOn_bind_eq_ok {w : TreeWork α} {f : α → TreeWork β} {b : β}
    (h : runOn (w >>= f) start t = (.ok b, t')) :
    ∃ a u, runOn w start t = (.ok a, u) ∧ runOn (f a) start u = (.ok b, t') := by
  rcases hw : runOn w start t with ⟨e | a, u⟩
  · rw [runOn_bind_error hw] at h
    cases h
  · exact ⟨a, u, rfl, runOn_bind hw f ▸ h⟩

theorem runOn_read? (path start : String) (t : FileTree) :
    runOn (FileSystem.read? path) start t = (.ok (t.read? (Path.within start path)), t) := rfl

theorem runOn_isFile (path start : String) (t : FileTree) :
    runOn (FileSystem.isFile path) start t =
      (.ok (t.read? (Path.within start path)).isSome, t) := rfl

theorem runOn_isDirectory (path start : String) (t : FileTree) :
    runOn (FileSystem.isDirectory path) start t =
      (.ok (t.node? (Path.within start path) == some .directory), t) := rfl

/-- A step that may fail tells whether it succeeded. -/
theorem runOn_attempt (step : String → FileTree → Option FileTree) (start : String)
    (t : FileTree) :
    runOn (ExceptT.lift fun directory => FileTree.attempt (step directory)) start t =
      (.ok (step start t).isSome, (step start t).getD t) := by
  show (fun r : Bool × FileTree => ((.ok r.1 : Except CommandError Bool), r.2))
    (FileTree.attempt (step start) t) = _
  unfold FileTree.attempt
  cases step start t <;> rfl

theorem runOn_writeFile (path text start : String) (t : FileTree) :
    runOn (FileSystem.write path text) start t =
      (.ok (t.write? (Path.within start path) text).isSome,
        (t.write? (Path.within start path) text).getD t) :=
  runOn_attempt (fun directory t => t.write? (Path.within directory path) text) start t

theorem runOn_makeDirectories (path start : String) (t : FileTree) :
    runOn (FileSystem.makeDirectories path) start t =
      (.ok (t.makeDirectories? (Path.within start path)).isSome,
        (t.makeDirectories? (Path.within start path)).getD t) :=
  runOn_attempt (fun directory t => t.makeDirectories? (Path.within directory path)) start t

/-- Whether a program can be read and a stage takes it to a value. -/
def Yields (start : String) (t : FileTree) (stage : Source → Except CompileError α)
    (program : String) (a : α) : Prop :=
  ∃ text, t.read? (Path.within start program) = some text ∧ stage ⟨program, text⟩ = .ok a

/-- The source that a program is read as. -/
def ReadsAs (start : String) (t : FileTree) (program : String) (source : Source) : Prop :=
  ∃ text, t.read? (Path.within start program) = some text ∧ source = ⟨program, text⟩

/-- Sources are read without a change, and all or none. -/
theorem runOn_readSources (programs : List String) (start : String) (t : FileTree) :
    ∃ r, runOn (readSources programs) start t = (r, t) ∧
      ∀ sources, r = .ok sources ↔ List.Forall₂ (ReadsAs start t) programs sources := by
  induction programs with
  | nil =>
    refine ⟨.ok [], rfl, fun sources => ?_⟩
    rw [List.forall₂_nil_left_iff, Except.ok.injEq, eq_comm]
  | cons program rest ih =>
    obtain ⟨r, hr, hall⟩ := ih
    have hread := runOn_read? program start t
    cases htext : t.read? (Path.within start program) with
    | none =>
      rw [htext] at hread
      refine ⟨.error (.files .read program), ?_, fun sources => ⟨nofun, fun h => ?_⟩⟩
      · exact runOn_bind_error (runOn_bind hread _) _
      · rw [List.forall₂_cons_left_iff] at h
        obtain ⟨_, _, ⟨text, ht, -⟩, -⟩ := h
        rw [htext] at ht
        cases ht
    | some text =>
      rw [htext] at hread
      have hfirst : runOn (read program) start t = (.ok text, t) := runOn_bind hread _
      have hrest := runOn_bind hfirst fun text => do
        return (⟨program, text⟩ : Source) :: (← readSources rest)
      cases r with
      | error e =>
        refine ⟨.error e, hrest.trans (runOn_bind_error hr _), fun sources => ⟨nofun, fun h => ?_⟩⟩
        rw [List.forall₂_cons_left_iff] at h
        obtain ⟨_, _, -, h, -⟩ := h
        exact nomatch (hall _).2 h
      | ok sources =>
        refine ⟨.ok (⟨program, text⟩ :: sources), hrest.trans (runOn_bind hr _), fun all => ?_⟩
        rw [Except.ok.injEq, List.forall₂_cons_left_iff]
        constructor
        · rintro rfl
          exact ⟨_, _, ⟨text, htext, rfl⟩, (hall _).1 rfl, rfl⟩
        · rintro ⟨_, _, ⟨text', ht, rfl⟩, h, rfl⟩
          obtain rfl := Option.some.inj (htext.symm.trans ht)
          rw [Except.ok.inj ((hall _).2 h)]

theorem errorsOf_eq_nil_iff {results : List (Except CompileError α)} :
    errorsOf results = [] ↔ results = (valuesOf results).map .ok := by
  induction results with
  | nil => exact ⟨fun _ => rfl, fun _ => rfl⟩
  | cons r rest ih =>
    cases r with
    | error e =>
      refine ⟨nofun, fun h => ?_⟩
      have hm : Except.error e ∈ (valuesOf (.error e :: rest)).map Except.ok :=
        h ▸ List.mem_cons_self
      obtain ⟨_, -, he⟩ := List.mem_map.1 hm
      cases he
    | ok a => exact ih.trans (List.cons_inj_right _).symm

theorem errorsOf_map_ok (values : List α) : errorsOf (values.map Except.ok) = [] := by
  induction values with
  | nil => rfl
  | cons a rest ih => exact ih

theorem valuesOf_map_ok (values : List α) : valuesOf (values.map Except.ok) = values := by
  induction values with
  | nil => rfl
  | cons a rest ih => exact congrArg (a :: ·) ih

/-- Values are collected where no result is an error. -/
theorem collect_eq_ok_iff {results : List (Except CompileError α)} {values : List α} :
    collect results = .ok values ↔ results = values.map .ok := by
  constructor
  · intro h
    unfold collect at h
    split at h
    · rename_i hnil
      cases h
      exact errorsOf_eq_nil_iff.1 hnil
    · cases h
    · cases h
  · rintro rfl
    unfold collect
    rw [errorsOf_map_ok, valuesOf_map_ok]

theorem forall₂_yields_iff {stage : Source → Except CompileError α} {programs : List String}
    {values : List α} :
    List.Forall₂ (Yields start t stage) programs values ↔
      ∃ sources, List.Forall₂ (ReadsAs start t) programs sources ∧
        sources.map stage = values.map .ok := by
  constructor
  · intro h
    induction h with
    | nil => exact ⟨[], .nil, rfl⟩
    | @cons program a programs values hfirst _ ih =>
      obtain ⟨text, ht, hs⟩ := hfirst
      obtain ⟨sources, hr, hmap⟩ := ih
      exact ⟨⟨program, text⟩ :: sources, .cons ⟨text, ht, rfl⟩ hr,
        by rw [List.map_cons, List.map_cons, hs, hmap]⟩
  · rintro ⟨sources, h, hmap⟩
    induction h generalizing values with
    | nil =>
      obtain rfl := List.map_eq_nil_iff.1 hmap.symm
      exact .nil
    | @cons program source programs sources hfirst _ ih =>
      obtain ⟨text, ht, rfl⟩ := hfirst
      cases values with
      | nil => cases hmap
      | cons a values =>
        obtain ⟨hs, hrest⟩ := List.cons.inj hmap
        exact .cons ⟨text, ht, hs⟩ (ih hrest)

/-- A stage is taken by all programs or by none, and no file changes. -/
theorem runOn_runAll (programs : List String) (stage : Source → Except CompileError α)
    (start : String) (t : FileTree) :
    ∃ r, runOn (runAll programs stage) start t = (r, t) ∧
      ∀ values, r = .ok values ↔ List.Forall₂ (Yields start t stage) programs values := by
  obtain ⟨r, hr, hall⟩ := runOn_readSources programs start t
  cases r with
  | error e =>
    refine ⟨.error e, runOn_bind_error hr _, fun values => ⟨nofun, fun h => ?_⟩⟩
    obtain ⟨sources, hs, -⟩ := forall₂_yields_iff.1 h
    exact nomatch (hall sources).2 hs
  | ok sources =>
    refine ⟨collect (sources.map stage), (runOn_bind hr _).trans ?_, fun values => ?_⟩
    · cases collect (sources.map stage) <;> rfl
    · rw [collect_eq_ok_iff, forall₂_yields_iff]
      refine ⟨fun h => ⟨sources, (hall _).1 rfl, h⟩, fun ⟨sources', hs, h⟩ => ?_⟩
      rwa [Except.ok.inj ((hall sources').2 hs)]

/-- Where the document of a program is in a directory that is seen from another. -/
def documentPath (start directory : String) (format : Format) (program : String) : String :=
  Path.within start (Path.join directory (Path.documentName program format))

theorem place?_documentPath_inj {directory k p q : String} {format : Format}
    (hp : t.place? (documentPath start directory format p) = some k)
    (hq : t.place? (documentPath start directory format q) = some k) :
    Path.documentName p format = Path.documentName q format := by
  obtain ⟨d, -, hd⟩ := Path.within_join start directory
  rw [documentPath, hd _ (Path.proper_documentName ..)] at hp hq
  exact FileTree.place?_join_inj (Path.proper_documentName ..) (Path.proper_documentName ..) hp hq

theorem read?_documentPath {directory k p text : String} {format : Format}
    (hp : t.place? (documentPath start directory format p) = some k)
    (hk : Entries.get? t k = some (.file text)) :
    t.read? (documentPath start directory format p) = some text := by
  obtain ⟨d, -, hd⟩ := Path.within_join start directory
  rw [documentPath, hd _ (Path.proper_documentName ..)] at hp ⊢
  exact FileTree.read?_join (Path.proper_documentName ..) hp hk

/-- Programs that do not clash have documents of different names. -/
theorem nodup_of_clash? {format : Format} {seen : Entries String} {programs : List String}
    (h : clash? format seen programs = none) :
    (∀ program ∈ programs, Entries.get? seen (Path.documentName program format) = none) ∧
      (programs.map fun program => Path.documentName program format).Nodup := by
  induction programs generalizing seen with
  | nil => exact ⟨nofun, .nil⟩
  | cons program rest ih =>
    rw [clash?] at h
    split at h
    · cases h
    · rename_i hfirst
      obtain ⟨hrest, hnodup⟩ := ih h
      have hne : ∀ p ∈ rest, Path.documentName program format ≠ Path.documentName p format ∧
          Entries.get? seen (Path.documentName p format) = none := by
        intro p hp
        have hp := hrest p hp
        rw [Entries.get?_put] at hp
        split at hp
        · cases hp
        · exact ⟨‹_›, hp⟩
      refine ⟨List.forall_mem_cons.2 ⟨hfirst, fun p hp => (hne p hp).2⟩, ?_⟩
      rw [List.map_cons, List.nodup_cons]
      refine ⟨fun hm => ?_, hnodup⟩
      obtain ⟨p, hp, he⟩ := List.mem_map.1 hm
      exact (hne p hp).1 he.symm

/-- What is wrong about where documents are to go is found without a change; if nothing is, the
documents that go into a directory have different names. -/
theorem runOn_misuse? (programs : List String) (out : Option String) (format : Format)
    (start : String) (t : FileTree) :
    ∃ m, runOn (misuse? programs out format) start t = (.ok m, t) ∧ (m = none → out.isSome →
      (programs.map fun program => Path.documentName program format).Nodup) := by
  have hfound (isMissing : Bool) : ∃ m,
      runOn (if 1 < programs.length ∧ isMissing then return some Misuse.needsDirectory
        else return if out.isSome then clash? format [] programs else none) start t = (.ok m, t) ∧
      (m = none → out.isSome →
        (programs.map fun program => Path.documentName program format).Nodup) := by
    split
    · exact ⟨some .needsDirectory, rfl, nofun⟩
    · refine ⟨_, rfl, fun hm hout => ?_⟩
      rw [if_pos hout] at hm
      exact (nodup_of_clash? hm).2
  unfold misuse?
  cases out with
  | none => exact hfound true
  | some target =>
    obtain ⟨m, hm, h⟩ := hfound (t.read? (Path.within start target)).isSome
    exact ⟨m, (runOn_bind (runOn_isFile target start t) _).trans hm, h⟩

theorem runOn_write_eq_ok {path text : String}
    (h : runOn (write path text) start t = (.ok (), t')) :
    t.write? (Path.within start path) text = some t' := by
  unfold write at h
  rw [runOn_bind (runOn_writeFile path text start t)] at h
  cases hw : t.write? (Path.within start path) text with
  | none => rw [hw] at h; cases h
  | some u => rw [hw] at h; cases h; rfl

/-- What writing documents into a directory does: each has a place, and where no two have the same
name each is there in the end; nothing else changes. -/
structure Stores (t t' : FileTree) (start directory : String) (format : Format)
    (documents : List (String × String)) : Prop where
  directories : ∀ ns, t'.isDirectoryAt ns = t.isDirectoryAt ns
  others : ∀ k, (∀ d ∈ documents, t.place? (documentPath start directory format d.1) ≠ some k) →
    Entries.get? t' k = Entries.get? t k
  located : ∀ d ∈ documents, ∃ k, t.place? (documentPath start directory format d.1) = some k ∧
    ((documents.map fun d => Path.documentName d.1 format).Nodup →
      Entries.get? t' k = some (.file d.2))

theorem stores_of_writeAll {directory : String} {format : Format}
    {documents : List (String × String)}
    (h : runOn (writeAll directory format documents) start t = (.ok (), t')) :
    Stores t t' start directory format documents := by
  induction documents generalizing t with
  | nil =>
    cases h
    exact ⟨fun _ => rfl, fun _ _ => rfl, nofun⟩
  | cons d rest ih =>
    obtain ⟨⟨⟩, u, hfirst, hrest⟩ := runOn_bind_eq_ok h
    obtain ⟨k, hk, rfl, hdir⟩ := FileTree.eq_put_of_write? (runOn_write_eq_ok hfirst)
    have hr := ih hrest
    have hplace (path : String) :
        FileTree.place? (Entries.put t k (.file d.2)) path = t.place? path :=
      FileTree.place?_congr hdir
    refine ⟨fun ns => (hr.directories ns).trans (hdir ns), fun k' hk' => ?_, ?_⟩
    · have hne : k ≠ k' := fun he => hk' d List.mem_cons_self (he ▸ hk)
      rw [hr.others k' fun e he => hplace _ ▸ hk' e (List.mem_cons_of_mem _ he),
        Entries.get?_put, if_neg hne]
    · intro e he
      rcases List.mem_cons.1 he with rfl | he
      · refine ⟨k, hk, fun hnodup => ?_⟩
        rw [hr.others k ?_, Entries.get?_put, if_pos rfl]
        intro e' he' hk'
        rw [List.map_cons, List.nodup_cons] at hnodup
        rw [hplace] at hk'
        refine hnodup.1 (List.mem_map.2 ⟨e', he', ?_⟩)
        exact place?_documentPath_inj hk' hk
      · obtain ⟨k', hk', htext⟩ := hr.located e he
        refine ⟨k', hplace _ ▸ hk', fun hnodup => htext ?_⟩
        rw [List.map_cons, List.nodup_cons] at hnodup
        exact hnodup.2

/-- Where documents go into a directory, it is made if it is missing, and then they are written. -/
theorem grows_of_writeTo {target : String} {format : Format} {documents : List (String × String)}
    (hdir : documents.length ≠ 1 ∨ t.node? (Path.within start target) = some .directory)
    (h : runOn (writeTo target format documents) start t = (.ok (), t')) :
    ∃ u there, t.Grows u ∧ u.locate (Path.within start target) = some there ∧
      u.isDirectoryAt there = true ∧ Stores u t' start target format documents := by
  have hmake : runOn (do
      if ← FileSystem.makeDirectories target then writeAll target format documents
      else throw (.files .create target) : TreeWork Unit) start t = (.ok (), t') := by
    rw [writeTo, runOn_bind (runOn_isDirectory target start t)] at h
    split at h
    · rename_i hd
      rcases hdir with hlen | hnode
      · exact absurd rfl hlen
      · rw [hnode] at hd
        cases hd
    · exact h
  rw [runOn_bind (runOn_makeDirectories target start t)] at hmake
  cases hu : t.makeDirectories? (Path.within start target) with
  | none =>
    rw [hu] at hmake
    cases hmake
  | some u =>
    rw [hu] at hmake
    obtain ⟨hgrows, there, hthere, hd⟩ := FileTree.grows_of_makeDirectories? hu
    exact ⟨u, there, hgrows, hthere, hd, stores_of_writeAll hmake⟩

variable {layout : Layout} {schema : Schema} {programs : List String} {out : Option String}

/-- Compiling one program by itself shows its document. -/
theorem runOn_compileAll_singleton (layout : Layout) (schema : Schema) (program : String)
    (start : String) (t : FileTree) :
    ∃ r, runOn (compileAll layout schema [program] none) start t = (r, t) ∧ ∀ document,
      r = .ok document ↔ Yields start t (TypedConfig.compile layout schema) program document := by
  obtain ⟨r, hr, hall⟩ := runOn_runAll [program] (TypedConfig.compile layout schema) start t
  have hrun : runOn (compileAll layout schema [program] none) start t =
      runOn (do
        return String.join (← runAll [program] (TypedConfig.compile layout schema))) start t := rfl
  cases r with
  | error e =>
    refine ⟨.error e, hrun.trans (runOn_bind_error hr _), fun document => ⟨nofun, fun h => ?_⟩⟩
    exact nomatch (hall [document]).2 (.cons h .nil)
  | ok documents =>
    refine ⟨.ok (String.join documents), hrun.trans (runOn_bind hr _), fun document => ?_⟩
    obtain ⟨d, _, hd, hnil, rfl⟩ := List.forall₂_cons_left_iff.1 ((hall documents).1 rfl)
    obtain rfl := List.forall₂_nil_left_iff.1 hnil
    constructor
    · intro h
      cases h
      simpa using hd
    · intro h
      cases (hall [document]).2 (.cons h .nil)
      simp

/-- Whether compiling a program by itself fails. -/
def Fails (layout : Layout) (schema : Schema) (start : String) (t : FileTree)
    (program : String) : Prop :=
  ∃ e, (runOn (compileAll layout schema [program] none) start t).1 = .error e

theorem fails_iff {program : String} : Fails layout schema start t program ↔
    ¬ ∃ document, Yields start t (TypedConfig.compile layout schema) program document := by
  obtain ⟨r, hr, hyields⟩ := runOn_compileAll_singleton layout schema program start t
  rw [Fails, hr]
  cases r with
  | error e => exact ⟨fun _ ⟨d, hd⟩ => (nomatch (hyields d).2 hd), fun _ => ⟨e, rfl⟩⟩
  | ok d => exact ⟨nofun, fun h => (h ⟨d, (hyields d).1 rfl⟩).elim⟩

/-- What a directory holds after the documents of programs have gone into it. -/
structure Delivered (layout : Layout) (schema : Schema) (programs : List String)
    (start target : String) (t t' : FileTree) : Prop where
  directory : target ≠ "" → t'.node? (Path.within start target) = some .directory
  /-- No two programs go to one file. -/
  distinct : (programs.map fun p => t'.place? (documentPath start target layout.format p)).Nodup
  documents : ∀ p ∈ programs, ∃ document,
    runOn (compileAll layout schema [p] none) start t = (.ok document, t) ∧
      t'.read? (documentPath start target layout.format p) = some document
  /-- All else is as it was, up to directories that were missing. -/
  others : ∀ k, (∀ p ∈ programs, t'.place? (documentPath start target layout.format p) ≠ some k) →
    Entries.get? t' k = Entries.get? t k ∨
      Entries.get? t k = none ∧ Entries.get? t' k = some .directory

theorem exists_mem_zip {R : α → β → Prop} {as : List α} {bs : List β} (h : List.Forall₂ R as bs)
    {a : α} (ha : a ∈ as) : ∃ b, R a b ∧ (a, b) ∈ as.zip bs := by
  induction h with
  | nil => cases ha
  | @cons a' b' as bs hfirst _ ih =>
    rcases List.mem_cons.1 ha with rfl | ha
    · exact ⟨b', hfirst, List.mem_cons_self⟩
    · obtain ⟨b, hb, hz⟩ := ih ha
      exact ⟨b, hb, List.mem_cons_of_mem _ hz⟩

theorem delivered_of_stores {target : String} {documents : List String} {u : FileTree}
    {there : List String}
    (hall : List.Forall₂ (Yields start t (TypedConfig.compile layout schema)) programs documents)
    (hnodup : (programs.map fun p => Path.documentName p layout.format).Nodup)
    (hgrows : t.Grows u) (hthere : u.locate (Path.within start target) = some there)
    (hd : u.isDirectoryAt there = true)
    (hs : Stores u t' start target layout.format (programs.zip documents)) :
    Delivered layout schema programs start target t t' := by
  have hplace (path : String) : t'.place? path = u.place? path :=
    FileTree.place?_congr hs.directories
  have hnames :
      ((programs.zip documents).map fun d => Path.documentName d.1 layout.format).Nodup := by
    rw [← List.map_fst_zip (Nat.le_of_eq hall.length_eq), List.map_map] at hnodup
    exact hnodup
  constructor
  case directory =>
    exact fun hne => FileTree.node?_of_locate (Path.within_ne_empty start hne)
      ((FileTree.locate_congr hs.directories).trans hthere) ((hs.directories there).trans hd)
  case distinct =>
    have hmap : (programs.map fun p => t'.place? (documentPath start target layout.format p)) =
        (programs.map fun p => Path.documentName p layout.format).map
          fun name => t'.place? (Path.within start (Path.join target name)) := by
      rw [List.map_map]
      rfl
    rw [hmap]
    refine hnodup.map_on fun a ha b hb he => ?_
    obtain ⟨p, hp, rfl⟩ := List.mem_map.1 ha
    obtain ⟨q, -, rfl⟩ := List.mem_map.1 hb
    obtain ⟨d, -, hz⟩ := exists_mem_zip hall hp
    obtain ⟨k, hk, -⟩ := hs.located _ hz
    have hk' : t'.place? (documentPath start target layout.format p) = some k := (hplace _).trans hk
    exact place?_documentPath_inj hk' (he ▸ hk')
  case documents =>
    intro p hp
    obtain ⟨d, hy, hz⟩ := exists_mem_zip hall hp
    obtain ⟨r, hr, hrd⟩ := runOn_compileAll_singleton layout schema p start t
    obtain ⟨k, hk, htext⟩ := hs.located _ hz
    exact ⟨d, (hrd d).2 hy ▸ hr, read?_documentPath ((hplace _).trans hk) (htext hnames)⟩
  case others =>
    intro k hk
    rw [hs.others k fun d hdm => hplace _ ▸ hk d.1 (List.of_mem_zip hdm).1]
    exact hgrows k

/-- Programs are compiled all or not at all. If one of them fails, nothing is shown and no file or
directory changes. If they go into a directory, each program has a file of its own there, which
holds the document that the program has by itself, and nothing else changes. -/
theorem compileAll_allOrNothing (layout : Layout) (schema : Schema) (programs : List String)
    (out : Option String) (start : String) (t : FileTree) :
    ((∃ program ∈ programs, Fails layout schema start t program) →
      ∃ e, runOn (compileAll layout schema programs out) start t = (.error e, t)) ∧
    ∀ target shown t', out = some target →
      programs.length ≠ 1 ∨ t.node? (Path.within start target) = some .directory →
      runOn (compileAll layout schema programs out) start t = (.ok shown, t') →
      shown = "" ∧ Delivered layout schema programs start target t t' := by
  obtain ⟨m, hm, hnodup⟩ := runOn_misuse? programs out layout.format start t
  obtain ⟨r, hr, hall⟩ := runOn_runAll programs (TypedConfig.compile layout schema) start t
  unfold compileAll
  rw [runOn_bind hm]
  cases m with
  | some e => exact ⟨fun _ => ⟨.misuse e, rfl⟩, fun _ _ _ _ _ h => by cases h⟩
  | none =>
    cases r with
    | error e =>
      dsimp only
      rw [runOn_bind_error hr]
      exact ⟨fun _ => ⟨e, rfl⟩, fun _ _ _ _ _ h => by cases h⟩
    | ok documents =>
      have hyields := (hall documents).1 rfl
      dsimp only
      rw [runOn_bind hr]
      constructor
      · rintro ⟨p, hp, hfails⟩
        obtain ⟨d, hd, -⟩ := exists_mem_zip hyields hp
        exact (fails_iff.1 hfails ⟨d, hd⟩).elim
      · rintro target shown t' rfl hdir h
        obtain ⟨⟨⟩, u, hw, hu⟩ := runOn_bind_eq_ok h
        cases hu
        have hlen : (programs.zip documents).length = programs.length := by
          rw [List.length_zip, hyields.length_eq, Nat.min_self]
        obtain ⟨u, there, hgrows, hthere, hd, hs⟩ := grows_of_writeTo (hlen ▸ hdir) hw
        exact ⟨rfl, delivered_of_stores hyields (hnodup rfl rfl) hgrows hthere hd hs⟩

def noteSchema : Schema := ⟨[], [], ⟨"note", .scalar .string, "notes.d.ts", ⟨12, 16⟩⟩⟩

/-- Two programs in a directory and one above it; the last has an unbound name. -/
def noteTree : FileTree :=
  [("work", .directory), ("work/notes", .directory), ("work/notes/a.ts", .file "note = \"a\""),
    ("work/b.yml.ts", .file "note = \"b\""), ("work/notes/bad.ts", .file "note = a")]

theorem compile_first : TypedConfig.compile .standard noteSchema ⟨"a.ts", "note = \"a\""⟩ =
    .ok "a\n" := by cbv

theorem compile_second :
    TypedConfig.compile .standard noteSchema ⟨"../b.yml.ts", "note = \"b\""⟩ = .ok "b\n" := by cbv

theorem fails_bad : Fails .standard noteSchema "/work/notes" noteTree "/work/notes/bad.ts" := by
  have hbad : TypedConfig.compile .standard noteSchema ⟨"/work/notes/bad.ts", "note = a"⟩ =
      .error (.check ⟨⟨"/work/notes/bad.ts", "note = a"⟩,
        [⟨"note", "a declared identifier", "unknown identifier `a`", ⟨7, 8⟩, none⟩]⟩) := by cbv
  refine fails_iff.2 ?_
  rintro ⟨d, text, htext, hd⟩
  obtain rfl : "note = a" = text := Option.some.inj htext
  cases hbad.symm.trans hd

/-- The file system after two of the programs have been compiled into a directory. -/
def notesOut : FileTree :=
  noteTree ++ [("out", .directory), ("out/a.yml", .file "a\n"), ("out/b.yml", .file "b\n")]

theorem compileAll_allOrNothing_notes :
    (∃ e, runOn (compileAll .standard noteSchema ["a.ts", "/work/notes/bad.ts"] (some "/out"))
      "/work/notes" noteTree = (.error e, noteTree)) ∧
    Delivered .standard noteSchema ["a.ts", "../b.yml.ts"] "/work/notes" "/out" noteTree
      notesOut := by
  have hfirst : Yields "/work/notes" noteTree (TypedConfig.compile .standard noteSchema) "a.ts"
      "a\n" := ⟨"note = \"a\"", by decide, compile_first⟩
  have hsecond : Yields "/work/notes" noteTree (TypedConfig.compile .standard noteSchema)
      "../b.yml.ts" "b\n" := ⟨"note = \"b\"", by decide, compile_second⟩
  have hcompile : runOn
      (runAll ["a.ts", "../b.yml.ts"] (TypedConfig.compile .standard noteSchema))
      "/work/notes" noteTree = (.ok ["a\n", "b\n"], noteTree) := by
    obtain ⟨r, hr, hall⟩ := runOn_runAll ["a.ts", "../b.yml.ts"]
      (TypedConfig.compile .standard noteSchema) "/work/notes" noteTree
    rw [hr, (hall _).2 (.cons hfirst (.cons hsecond .nil))]
  have hmisuse : runOn (misuse? ["a.ts", "../b.yml.ts"] (some "/out") .yaml) "/work/notes"
      noteTree = (.ok none, noteTree) := rfl
  have hwrite : runOn (writeTo "/out" .yaml [("a.ts", "a\n"), ("../b.yml.ts", "b\n")])
      "/work/notes" noteTree = (.ok (), notesOut) := rfl
  have hrun : runOn (compileAll .standard noteSchema ["a.ts", "../b.yml.ts"] (some "/out"))
      "/work/notes" noteTree = (.ok "", notesOut) :=
    (runOn_bind hmisuse _).trans ((runOn_bind hcompile _).trans (runOn_bind hwrite _))
  exact ⟨(compileAll_allOrNothing ..).1 ⟨"/work/notes/bad.ts", by decide, fails_bad⟩,
    ((compileAll_allOrNothing ..).2 "/out" _ _ rfl (.inl (by decide)) hrun).2⟩

end TypedConfig.Command
