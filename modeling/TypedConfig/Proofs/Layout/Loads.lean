import Mathlib.Data.List.Forall2
import TypedConfig.Proofs.Layout.Nesting
import TypedConfig.Proofs.Layout.Schemas

/-! # Loading does not depend on layout

Declarations that are equal without layout are refused together, or assembled to schemas that are
equal up to spans and doc comments.
-/

namespace TypedConfig

variable {ε δ α β γ κ : Type}

/-- Both fail, or give results that a function takes to the same. -/
def Alike (f : α → β) (x y : Except ε α) : Prop := x.toOption.map f = y.toOption.map f

theorem Alike.bind {f : α → β} {g : γ → κ} {x y : Except ε α} {k k' : α → Except ε γ}
    (h : Alike f x y) (hk : ∀ a b, f a = f b → Alike g (k a) (k' b)) :
    Alike g (x >>= k) (y >>= k') := by
  match x, y, h with
  | .ok a, .ok b, h => exact hk a b (Option.some.inj h)
  | .error _, .error _, _ => rfl

/-- Computations mirrored by the same computation are alike. -/
theorem Mirrors.alike {f : α → β} {x y : Except (Located ε) α} {z : Except (Located ε) β}
    (hx : Mirrors f x z) (hy : Mirrors f y z) : Alike f x y := by
  match x, y, z, hx, hy with
  | .ok _, .ok _, .ok _, rfl, h => exact congrArg some h
  | .error _, .error _, .error _, _, _ => rfl

namespace Schema

namespace Draft

/-- What has been read, with all spans and doc comments and the sources of references
forgotten. -/
def bare (d : Draft) : Draft :=
  ⟨d.types.map .bare, d.constants.map .bare, d.root.map .bare,
    d.references.map fun r => (r.1.bare, default)⟩

variable (source source' : Source)

theorem typesOf_bare (name : String) (ds : List Declaration) :
    typesOf name (ds.map .bare) = (typesOf name ds).map .bare := by
  induction ds with
  | nil => rfl
  | cons d ds ih =>
    cases d with
    | type word body doc span =>
      refine List.cons_eq_cons.2 ⟨?_, ih⟩
      simp only [TypeDeclaration.bare, TyTerm.type_bare]
    | constant word value span => exact ih
    | root word body span => exact ih

theorem constantsOf_bare (ds : List Declaration) :
    constantsOf (ds.map .bare) = (constantsOf ds).map .bare := by
  induction ds with
  | nil => rfl
  | cons d ds ih =>
    cases d with
    | constant word value span => exact congrArg (List.cons _) ih
    | type word body doc span => exact ih
    | root word body span => exact ih

theorem rootOf_bare (name : String) (ds : List Declaration) :
    rootOf name (ds.map .bare) = (rootOf name ds).map .bare := by
  unfold rootOf
  rw [← List.getLast?_map]
  congr 1
  induction ds with
  | nil => rfl
  | cons d ds ih =>
    cases d with
    | root word body span =>
      refine List.cons_eq_cons.2 ⟨?_, ih⟩
      simp only [RootBinding.bare, TyTerm.type_bare]
    | type word body doc span => exact ih
    | constant word value span => exact ih

theorem addTypes_bare (known ds : List TypeDeclaration) :
    (addTypes source' (known.map .bare) (ds.map .bare)).toOption =
      (addTypes source known ds).toOption.map (List.map .bare) := by
  induction ds generalizing known with
  | nil => rfl
  | cons d ds ih =>
    have hany : (known.map TypeDeclaration.bare).any (·.name == d.bare.name) =
        known.any (·.name == d.name) := List.any_map
    rw [List.map_cons, addTypes, addTypes, hany]
    split
    · rfl
    · rw [← ih, List.map_append]
      rfl

theorem addConstants_bare (known ds : List ConstantDeclaration) :
    (addConstants source' (known.map .bare) (ds.map .bare)).toOption =
      (addConstants source known ds).toOption.map (List.map .bare) := by
  induction ds generalizing known with
  | nil => rfl
  | cons d ds ih =>
    have hany : (known.map ConstantDeclaration.bare).any (·.name == d.bare.name) =
        known.any (·.name == d.name) := List.any_map
    rw [List.map_cons, addConstants, addConstants, hany]
    split
    · rfl
    · rw [← ih, List.map_append]
      rfl

theorem addRoot_bare (known new : Option RootBinding) :
    (addRoot source' (known.map .bare) (new.map .bare)).toOption =
      (addRoot source known new).toOption.map (Option.map .bare) := by
  cases new <;> cases known <;> rfl

theorem references_map_bare (ds : List Declaration) :
    (ds.map Declaration.bare).flatMap Declaration.references =
      (ds.flatMap Declaration.references).map Reference.bare := by
  induction ds with
  | nil => rfl
  | cons d ds ih =>
    rw [List.map_cons, List.flatMap_cons, List.flatMap_cons, List.map_append, ih,
      Declaration.references_bare]

/-- Drafts and declarations that are equal without layout are refused together, or put together
to drafts that are equal without layout. -/
theorem alike_add {d d' : Draft} (hd : d.bare = d'.bare) {source source' : Source}
    (hname : source.name = source'.name) {ds ds' : List Declaration}
    (hds : ds.map Declaration.bare = ds'.map .bare) :
    Alike bare (d.add source ds) (d'.add source' ds') := by
  simp only [bare, mk.injEq] at hd
  obtain ⟨htypes, hconstants, hroot, hrefs⟩ := hd
  have ht : Alike (List.map TypeDeclaration.bare)
      (addTypes source d.types (typesOf source.name ds))
      (addTypes source' d'.types (typesOf source'.name ds')) := by
    rw [Alike, ← addTypes_bare source default, ← addTypes_bare source' default, htypes,
      ← typesOf_bare, ← typesOf_bare, hds, hname]
  have hc : Alike (List.map ConstantDeclaration.bare)
      (addConstants source d.constants (constantsOf ds))
      (addConstants source' d'.constants (constantsOf ds')) := by
    rw [Alike, ← addConstants_bare source default, ← addConstants_bare source' default,
      hconstants, ← constantsOf_bare, ← constantsOf_bare, hds]
  have hr : Alike (Option.map RootBinding.bare)
      (addRoot source d.root (rootOf source.name ds))
      (addRoot source' d'.root (rootOf source'.name ds')) := by
    rw [Alike, ← addRoot_bare source default, ← addRoot_bare source' default, hroot,
      ← rootOf_bare, ← rootOf_bare, hds, hname]
  refine ht.bind fun _ _ ht => hc.bind fun _ _ hc => hr.bind fun _ _ hr => congrArg some ?_
  have hnew : (ds.flatMap Declaration.references).map Reference.bare =
      (ds'.flatMap Declaration.references).map Reference.bare := by
    rw [← references_map_bare, ← references_map_bare, hds]
  have hpairs (s : Source) (rs : List Reference) :
      (rs.map (·, s)).map (fun r : Reference × Source => (r.1.bare, (default : Source))) =
        (rs.map Reference.bare).map (·, default) := by simp
  simp only [bare, ht, hc, hr, List.map_append, hrefs, hpairs, hnew]

end Draft

theorem checkReferences_bare (types : List TypeDeclaration) (refs : List (Reference × Source)) :
    (checkReferences (types.map .bare) (refs.map fun r => (r.1.bare, default))).toOption =
      (checkReferences types refs).toOption := by
  induction refs with
  | nil => rfl
  | cons r refs ih =>
    have hany : (types.map TypeDeclaration.bare).any (·.name == r.1.name) =
        types.any (·.name == r.1.name) := List.any_map
    have hname : r.1.bare.name = r.1.name := rfl
    rw [List.map_cons, checkReferences, checkReferences, hname, hany]
    split
    · exact ih
    · rfl

theorem returnsTo_bare (types : List TypeDeclaration) (name : String) (n : Nat)
    (seen : List String) (t : Ty) :
    returnsTo (types.map .bare) name n seen t.bare = returnsTo types name n seen t := by
  induction n generalizing seen t with
  | zero => rfl
  | succ n ih =>
    cases t with
    | named next =>
      have hfind : (types.map TypeDeclaration.bare).find? (fun d => d.name == next) =
          (types.find? fun d => d.name == next).map .bare := by
        rw [List.find?_map]
        rfl
      simp only [Ty.bare, returnsTo, hfind]
      split
      · rfl
      · cases types.find? fun d => d.name == next with
        | none => rfl
        | some d => exact ih _ d.type
    | _ => rfl

theorem checkCycles_bare (sources sources' : List Source) (types ds : List TypeDeclaration) :
    (checkCycles sources' (types.map .bare) (ds.map .bare)).toOption =
      (checkCycles sources types ds).toOption := by
  induction ds with
  | nil => rfl
  | cons d ds ih =>
    have hreturns := returnsTo_bare types d.name (types.length + 1) [] d.type
    rw [List.map_cons, checkCycles, checkCycles, List.length_map]
    simp only [TypeDeclaration.bare, hreturns]
    split
    · rfl
    · exact ih

variable {limits : Limits} {a b : Source}

theorem alike_declarations (h : SameTokens limits false a.text b.text) :
    Alike (List.map Declaration.bare) (declarations limits a) (declarations limits b) := by
  unfold declarations
  rw [h.leftSize, h.rightSize]
  obtain ⟨ts, us, hts, hus, hbare⟩ | ⟨e, e', he, he'⟩ := h.within limits.maxDepth
  · rw [hts, hus]
    dsimp only
    have ha := Declaration.mirrors_ofTokens limits.maxDepth ts
    have hb := Declaration.mirrors_ofTokens limits.maxDepth us
    rw [hbare] at ha
    have hread := ha.alike hb
    revert hread
    cases Declaration.ofTokens limits.maxDepth ts <;>
      cases Declaration.ofTokens limits.maxDepth us <;> exact id
  · rw [he, he']
    rfl

/-- Sources under one name that have the same tokens up to layout. -/
def SameDeclarations (limits : Limits) (a b : Source) : Prop :=
  a.name = b.name ∧ SameTokens limits false a.text b.text

theorem alike_draft {sources sources' : List Source}
    (h : List.Forall₂ (SameDeclarations limits) sources sources') {d d' : Draft}
    (hd : d.bare = d'.bare) :
    Alike Draft.bare (draft limits d sources) (draft limits d' sources') := by
  induction h generalizing d d' with
  | nil => exact congrArg some hd
  | cons hab _ ih =>
    exact (alike_declarations hab.2).bind fun _ _ hds =>
      (Draft.alike_add hd hab.1 hds).bind fun _ _ hnext => ih hnext

theorem alike_load {sources sources' : List Source}
    (h : List.Forall₂ (SameDeclarations limits) sources sources') :
    Alike bare (load limits sources) (load limits sources') := by
  refine (alike_draft h rfl).bind fun d d' hd => ?_
  simp only [Draft.bare, Draft.mk.injEq] at hd
  obtain ⟨htypes, hconstants, hroot, hrefs⟩ := hd
  have hreferences : Alike id (checkReferences d.types d.references)
      (checkReferences d'.types d'.references) := by
    rw [Alike, ← checkReferences_bare, ← checkReferences_bare d'.types, htypes, hrefs]
  refine hreferences.bind fun _ _ _ => ?_
  have hcycles : Alike id (checkCycles sources d.types d.types)
      (checkCycles sources' d'.types d'.types) := by
    rw [Alike, ← checkCycles_bare sources [], ← checkCycles_bare sources' [], htypes]
  -- A missing root is reported before cycles are looked for.
  match hr : d.root, hr' : d'.root with
  | none, none => rfl
  | some r, some r' =>
    rw [hr, hr'] at hroot
    refine hcycles.bind fun _ _ _ => congrArg some ?_
    simp only [bare, htypes, hconstants, Option.some.inj hroot]
  | none, some _ | some _, none => rw [hr, hr'] at hroot; cases hroot

end Schema

end TypedConfig
