import Mathlib
import TypedConfig.Proofs.Schema.Aliases
import TypedConfig.Proofs.Schema.Reading

/-! # Loaded schemas are well formed

Every source adds types that well-formed expressions denote, and the references of those
expressions, which are all looked up at the end. So the types of a schema that loads are well
formed and none resolves to a name; and where a cycle is reported, names do lead on for ever.
-/

namespace TypedConfig

/-- A schema of well-formed types, none of which resolves to a name. -/
structure Schema.WellFormed (s : Schema) : Prop where
  types : ∀ d ∈ s.types, d.type.WellFormed s.types
  root : s.root.type.WellFormed s.types
  resolve_ne_named : ∀ t : Ty, (∀ name, t = .named name → ∃ d ∈ s.types, d.name = name) →
    ∀ name, s.resolve t ≠ .named name

namespace Schema

namespace Draft

/-- A type that some well-formed expression denotes, with references that a draft holds. -/
def Denoted (references : List (Reference × Source)) (t : Ty) : Prop :=
  ∃ body : TyTerm, t = body.type ∧ body.WellFormed ∧
    ∀ r ∈ body.references, ∃ source, (r, source) ∈ references

/-- What the sources read so far have in common with a well-formed schema. -/
structure WellFormed (d : Draft) : Prop where
  unique : (d.types.map (·.name)).Nodup
  types : ∀ t ∈ d.types, Denoted d.references t.type
  root : ∀ r, d.root = some r → Denoted d.references r.type

theorem wellFormed_empty : empty.WellFormed := ⟨.nil, nofun, nofun⟩

variable {refs more : List (Reference × Source)} {source : Source} {ds : List Declaration}
  {known types : List TypeDeclaration}

theorem Denoted.append_right {t : Ty} (h : Denoted refs t) : Denoted (refs ++ more) t := by
  obtain ⟨body, ht, hb, hr⟩ := h
  refine ⟨body, ht, hb, fun r hm => ?_⟩
  obtain ⟨s, hs⟩ := hr r hm
  exact ⟨s, List.mem_append_left _ hs⟩

theorem denoted_of_declaration {d : Declaration} (hd : d ∈ ds) {body : TyTerm}
    (hb : body.WellFormed) (hr : d.references = body.references) :
    Denoted (refs ++ (ds.flatMap Declaration.references).map (·, source)) body.type := by
  refine ⟨body, rfl, hb, fun r hm => ⟨source, List.mem_append_right _ ?_⟩⟩
  exact List.mem_map.2 ⟨r, List.mem_flatMap.2 ⟨d, hd, hr ▸ hm⟩, rfl⟩

theorem denoted_of_typesOf (h : ∀ d ∈ ds, d.WellFormed) {t : TypeDeclaration}
    (ht : t ∈ typesOf source.name ds) :
    Denoted (refs ++ (ds.flatMap Declaration.references).map (·, source)) t.type := by
  obtain ⟨d, hd, hsome⟩ := List.mem_filterMap.1 ht
  cases d with
  | type name body doc span =>
    cases hsome
    exact denoted_of_declaration hd (h _ hd) rfl
  | constant => cases hsome
  | root => cases hsome

theorem denoted_of_rootOf (h : ∀ d ∈ ds, d.WellFormed) {r : RootBinding}
    (hr : rootOf source.name ds = some r) :
    Denoted (refs ++ (ds.flatMap Declaration.references).map (·, source)) r.type := by
  obtain ⟨d, hd, hsome⟩ := List.mem_filterMap.1 (List.mem_of_getLast? hr)
  cases d with
  | root name body span =>
    cases hsome
    exact denoted_of_declaration hd (h _ hd) rfl
  | constant => cases hsome
  | type => cases hsome

/-- Added types stand behind the known ones, and no name is there twice. -/
theorem addTypes_eq_ok {new : List TypeDeclaration}
    (h : addTypes source known new = .ok types) (hu : (known.map (·.name)).Nodup) :
    types = known ++ new ∧ (types.map (·.name)).Nodup := by
  induction new generalizing known with
  | nil =>
    cases h
    exact ⟨(List.append_nil _).symm, hu⟩
  | cons d rest ih =>
    rw [addTypes] at h
    split at h
    · cases h
    · rename_i hnew
      have hu' : ((known ++ [d]).map (·.name)).Nodup := by
        rw [List.map_append, List.nodup_append]
        refine ⟨hu, List.pairwise_singleton .., fun a ha b hb => ?_⟩
        rintro rfl
        obtain ⟨e, he, hname⟩ := List.mem_map.1 ha
        have heq : e.name = d.name := hname.trans (List.mem_singleton.1 hb)
        exact hnew (List.any_eq_true.2 ⟨e, he, beq_iff_eq.2 heq⟩)
      obtain ⟨htypes, hnodup⟩ := ih h hu'
      exact ⟨by rw [htypes, List.append_assoc, List.singleton_append], hnodup⟩

theorem addRoot_eq_ok {first new root : Option RootBinding}
    (h : addRoot source first new = .ok root) : root = first ∨ root = new := by
  cases new with
  | none => cases h; exact .inl rfl
  | some r =>
    cases first with
    | none => cases h; exact .inr rfl
    | some f => cases h

theorem add_eq_ok {d d' : Draft} (h : d.add source ds = .ok d') :
    addTypes source d.types (typesOf source.name ds) = .ok d'.types ∧
      addRoot source d.root (rootOf source.name ds) = .ok d'.root ∧
      d'.references = d.references ++ (ds.flatMap Declaration.references).map (·, source) := by
  obtain ⟨types, ht, h⟩ := bind_eq_ok_iff.1 h
  obtain ⟨constants, -, h⟩ := bind_eq_ok_iff.1 h
  obtain ⟨root, hr, h⟩ := bind_eq_ok_iff.1 h
  cases h
  exact ⟨ht, hr, rfl⟩

/-- The declarations of one more source keep a draft well formed. -/
theorem WellFormed.add {d d' : Draft} (hd : d.WellFormed) (hds : ∀ x ∈ ds, x.WellFormed)
    (h : d.add source ds = .ok d') : d'.WellFormed := by
  obtain ⟨htypes, hroot, hrefs⟩ := add_eq_ok h
  obtain ⟨heq, hu⟩ := addTypes_eq_ok htypes hd.unique
  refine ⟨hu, fun t ht => ?_, fun r hr => ?_⟩
  · rw [hrefs]
    rw [heq] at ht
    rcases List.mem_append.1 ht with ht | ht
    · exact (hd.types t ht).append_right
    · exact denoted_of_typesOf hds ht
  · rw [hrefs]
    rcases addRoot_eq_ok hroot with hfirst | hnew
    · exact (hd.root r (hfirst ▸ hr)).append_right
    · exact denoted_of_rootOf hds (hnew ▸ hr)

/-- No cycle is reported while the declarations of a source are added. -/
theorem cause_of_add {d : Draft} {e : SchemaError} (h : d.add source ds = .error e)
    (name : String) : e.cause ≠ .cyclicAlias name := by
  have htypes {known new : List TypeDeclaration} {e : SchemaError}
      (h : addTypes source known new = .error e) : e.cause ≠ .cyclicAlias name := by
    induction new generalizing known with
    | nil => cases h
    | cons d rest ih =>
      rw [addTypes] at h
      split at h
      · cases h; exact nofun
      · exact ih h
  have hconstants {known new : List ConstantDeclaration} {e : SchemaError}
      (h : addConstants source known new = .error e) : e.cause ≠ .cyclicAlias name := by
    induction new generalizing known with
    | nil => cases h
    | cons d rest ih =>
      rw [addConstants] at h
      split at h
      · cases h; exact nofun
      · exact ih h
  have hroot {known new : Option RootBinding} {e : SchemaError}
      (h : addRoot source known new = .error e) : e.cause ≠ .cyclicAlias name := by
    cases new with
    | none => cases h
    | some r =>
      cases known with
      | none => cases h
      | some f => cases h; exact nofun
  obtain ht | ⟨types, -, h⟩ := bind_eq_error_iff.1 h
  · exact htypes ht
  obtain hc | ⟨constants, -, h⟩ := bind_eq_error_iff.1 h
  · exact hconstants hc
  obtain hr | ⟨root, -, h⟩ := bind_eq_error_iff.1 h
  · exact hroot hr
  · cases h

end Draft

variable {limits : Limits} {source : Source} {sources : List Source}

theorem wellFormed_of_declarations {ds : List Declaration}
    (h : declarations limits source = .ok ds) : ∀ d ∈ ds, d.WellFormed := by
  unfold declarations at h
  split at h
  · cases h
  · split at h
    · cases h
    · split at h
      · cases h
      · rename_i hread
        cases h
        exact Declaration.wellFormed_of_ofTokens hread

theorem cause_of_declarations {e : SchemaError} (h : declarations limits source = .error e)
    (name : String) : e.cause ≠ .cyclicAlias name := by
  unfold declarations at h
  split at h
  · cases h
    exact nofun
  · split at h
    · cases h
      exact nofun
    · split at h
      · rename_i hread
        cases h
        exact Declaration.cause_of_ofTokens hread name
      · cases h

theorem wellFormed_of_draft {d d' : Draft} (hd : d.WellFormed)
    (h : draft limits d sources = .ok d') : d'.WellFormed := by
  induction sources generalizing d with
  | nil =>
    cases h
    exact hd
  | cons source rest ih =>
    obtain ⟨ds, hds, h⟩ := bind_eq_ok_iff.1 h
    obtain ⟨next, ha, h⟩ := bind_eq_ok_iff.1 h
    exact ih (hd.add (wellFormed_of_declarations hds) ha) h

theorem cause_of_draft {d : Draft} {e : SchemaError} (h : draft limits d sources = .error e)
    (name : String) : e.cause ≠ .cyclicAlias name := by
  induction sources generalizing d with
  | nil => cases h
  | cons source rest ih =>
    obtain hds | ⟨ds, -, h⟩ := bind_eq_error_iff.1 h
    · exact cause_of_declarations hds name
    obtain ha | ⟨next, -, h⟩ := bind_eq_error_iff.1 h
    · exact Draft.cause_of_add ha name
    · exact ih h

theorem declared_of_checkReferences {types : List TypeDeclaration}
    {refs : List (Reference × Source)} (h : checkReferences types refs = .ok ()) :
    ∀ r ∈ refs, ∃ d ∈ types, d.name = r.1.name := by
  induction refs with
  | nil => exact nofun
  | cons r rest ih =>
    rw [checkReferences] at h
    split at h
    · rename_i hany
      obtain ⟨d, hd, hname⟩ := List.any_eq_true.1 hany
      exact List.forall_mem_cons.2 ⟨⟨d, hd, beq_iff_eq.1 hname⟩, ih h⟩
    · cases h

theorem cause_of_checkReferences {types : List TypeDeclaration}
    {refs : List (Reference × Source)} {e : SchemaError}
    (h : checkReferences types refs = .error e) (name : String) :
    e.cause ≠ .cyclicAlias name := by
  induction refs with
  | nil => cases h
  | cons r rest ih =>
    rw [checkReferences] at h
    split at h
    · exact ih h
    · cases h
      exact nofun

theorem Draft.Denoted.wellFormed {types : List TypeDeclaration}
    {refs : List (Reference × Source)} {t : Ty} (h : Denoted refs t)
    (hr : checkReferences types refs = .ok ()) : t.WellFormed types := by
  obtain ⟨body, rfl, hb, hrefs⟩ := h
  refine hb.type fun r hm => ?_
  obtain ⟨source, hs⟩ := hrefs r hm
  exact declared_of_checkReferences hr _ hs

/-- A load that succeeds has gone through all its checks. -/
theorem load_eq_ok {schema : Schema} (h : load limits sources = .ok schema) :
    ∃ d, draft limits .empty sources = .ok d ∧ checkReferences d.types d.references = .ok () ∧
      checkCycles sources d.types d.types = .ok () ∧ d.root = some schema.root ∧
      schema.types = d.types := by
  obtain ⟨d, hd, h⟩ := bind_eq_ok_iff.1 h
  obtain ⟨_, hr, h⟩ := bind_eq_ok_iff.1 h
  cases hroot : d.root with
  | none => rw [hroot] at h; cases h
  | some root =>
    rw [hroot] at h
    obtain ⟨_, hc, h⟩ := bind_eq_ok_iff.1 h
    cases h
    exact ⟨d, hd, hr, hc, hroot, rfl⟩

/-- A load that reports a cycle does so from the check for cycles. -/
theorem load_eq_cyclic {e : SchemaError} {name : String} (h : load limits sources = .error e)
    (hcause : e.cause = .cyclicAlias name) :
    ∃ d, draft limits .empty sources = .ok d ∧
      checkCycles sources d.types d.types = .error e := by
  obtain hd | ⟨d, hd, h⟩ := bind_eq_error_iff.1 h
  · exact absurd hcause (cause_of_draft hd name)
  obtain hr | ⟨_, -, h⟩ := bind_eq_error_iff.1 h
  · exact absurd hcause (cause_of_checkReferences hr name)
  cases hroot : d.root with
  | none =>
    rw [hroot] at h
    cases h
    exact absurd hcause nofun
  | some root =>
    rw [hroot] at h
    obtain hc | ⟨_, -, h⟩ := bind_eq_error_iff.1 h
    · exact ⟨d, hd, hc⟩
    · cases h

theorem wellFormed_of_load {schema : Schema} (h : load limits sources = .ok schema) :
    schema.WellFormed := by
  obtain ⟨d, hd, hr, hc, hroot, htypes⟩ := load_eq_ok h
  have hw : d.WellFormed := wellFormed_of_draft Draft.wellFormed_empty hd
  have ht : ∀ t ∈ schema.types, t.type.WellFormed schema.types := by
    rw [htypes]
    exact fun t hm => (hw.types t hm).wellFormed hr
  refine ⟨ht, ?_, fun t hnamed => ?_⟩
  · rw [htypes]
    exact (hw.root _ hroot).wellFormed hr
  · refine resolve_ne_named (fun t hm name hname => ?_) ?_ hnamed
    · have hwf := ht t hm
      rw [hname] at hwf
      cases hwf with
      | named declared => exact declared
    · rw [htypes]
      exact not_returnsTo_of_checkCycles hc

/-- A schema that loads is well formed; and where a cycle is reported for a name, the sources
declare a type of that name from which names lead to declared names for ever. -/
theorem load_wellFormed (limits : Limits) (sources : List Source) :
    (∀ schema, load limits sources = .ok schema → schema.WellFormed) ∧
    ∀ e name, load limits sources = .error e → e.cause = .cyclicAlias name →
      ∃ d, draft limits .empty sources = .ok d ∧ ∃ t ∈ d.types, t.name = name ∧
        ∀ schema : Schema, schema.types = d.types → ∀ n,
          ∃ next, schema.follow n t.type = .named next ∧ (schema.type? next).isSome := by
  refine ⟨fun schema h => wellFormed_of_load h, fun e name h hcause => ?_⟩
  obtain ⟨d, hd, hc⟩ := load_eq_cyclic h hcause
  have hw : d.WellFormed := wellFormed_of_draft Draft.wellFormed_empty hd
  obtain ⟨t, ht, ht', hr⟩ := returnsTo_of_checkCycles hc
  have hname : t.name = name := by
    rw [ht'] at hcause
    cases hcause
    rfl
  refine ⟨d, hd, t, ht, hname, fun schema hs n => ?_⟩
  rw [← hs] at hr ht
  exact follow_of_returnsTo (hs ▸ hw.unique) ht hr n

/-- A union whose alternatives repeat a literal, behind two names. -/
def aliased : Source := ⟨"aliased.d.ts",
  "type A = B; type B = \"x\" | \"y\" | \"x\"; declare var r: A[];"⟩

def aliasedSchema : Schema where
  types :=
    [⟨"A", .named "B", none, "aliased.d.ts", ⟨5, 6⟩⟩,
      ⟨"B", .literal [.string "x", .string "y"], none, "aliased.d.ts", ⟨17, 18⟩⟩]
  constants := []
  root := ⟨"r", .sequence (.named "A") false, "aliased.d.ts", ⟨50, 51⟩⟩

def looping : Source := ⟨"looping.d.ts", "type A = B; type B = A; declare var r: A;"⟩

set_option maxRecDepth 1024 in
theorem load_wellFormed_aliased :
    load .standard [aliased] = .ok aliasedSchema ∧ aliasedSchema.WellFormed ∧
    ∃ e, load .standard [looping] = .error e ∧ e.cause = .cyclicAlias "A" ∧
      ∃ d, draft .standard .empty [looping] = .ok d ∧ ∃ t ∈ d.types, t.name = "A" ∧
        ∀ schema : Schema, schema.types = d.types → ∀ n,
          ∃ next, schema.follow n t.type = .named next ∧ (schema.type? next).isSome := by
  have ha : load .standard [aliased] = .ok aliasedSchema := by cbv
  have hl : load .standard [looping] = .error (.of (.cyclicAlias "A") looping ⟨5, 6⟩) := by cbv
  exact ⟨ha, (load_wellFormed .standard [aliased]).1 _ ha, _, hl, rfl,
    (load_wellFormed .standard [looping]).2 _ "A" hl rfl⟩

end Schema

end TypedConfig
