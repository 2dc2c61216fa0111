import Mathlib
import TypedConfig.Compile
import TypedConfig.Proofs.Layout.Checks
import TypedConfig.Proofs.Layout.Evals
import TypedConfig.Proofs.Layout.Loads
import TypedConfig.Proofs.Layout.Programs

/-! # Layout does not matter

Programs with the same tokens have the same document or fail in the same stage, and declarations
with the same tokens load to the same schema up to spans and doc comments or do not load.
-/

namespace TypedConfig

variable {ε α β γ δ : Type} {layout : Layout} {schema : Schema} {a b : Source}

/-- Sources with the same tokens and line ends are read as the same statements up to spans, or
not read. -/
theorem Program.alike_parse {limits : Limits} (h : SameTokens limits true a.text b.text) :
    Alike (fun p => p.statements.map Statement.bare) (parse limits a) (parse limits b) := by
  unfold parse
  rw [h.leftSize, h.rightSize]
  obtain ⟨ts, us, hts, hus, hbare⟩ | ⟨e, e', he, he'⟩ := h.within limits.maxDepth
  · rw [hts, hus]
    dsimp only
    have ha := mirrors_ofTokens limits.maxDepth ts
    have hb := mirrors_ofTokens limits.maxDepth us
    rw [hbare] at ha
    have hread := ha.alike hb
    match ofTokens limits.maxDepth ts, ofTokens limits.maxDepth us, hread with
    | .error _, .error _, _ => rfl
    | .ok (_, _), .ok (_, _), hread => exact congrArg (Option.map Prod.snd) hread
  · rw [he, he']
    rfl

/-- A checked program without the places in it and its alternatives. -/
def CheckedProgram.bare (c : CheckedProgram) : Schema × List Statement :=
  (c.schema, c.program.statements.map .bare)

/-- Both fail in the same stage, or give results that a function takes to the same. -/
def SameOutcome (f : α → β) (x y : Except CompileError α) : Prop :=
  (x.mapError CompileError.stage).map f = (y.mapError CompileError.stage).map f

namespace SameOutcome

theorem bind {f : α → β} {g : γ → δ} {x y : Except CompileError α}
    {k k' : α → Except CompileError γ} (h : SameOutcome f x y)
    (hk : ∀ a b, f a = f b → SameOutcome g (k a) (k' b)) :
    SameOutcome g (x >>= k) (y >>= k') := by
  match x, y, h with
  | .ok a, .ok b, h => exact hk a b (Except.ok.inj h)
  | .error _, .error _, h => exact congrArg Except.error (Except.error.inj h)

/-- All errors of a stage have its name. -/
theorem of_alike {f : α → β} {x y : Except ε α} (h : Alike f x y) (error : ε → CompileError)
    {name : String} (hname : ∀ e, (error e).stage = name) :
    SameOutcome f (x.mapError error) (y.mapError error) := by
  match x, y, h with
  | .ok _, .ok _, h => exact congrArg Except.ok (Option.some.inj h)
  | .error e, .error e', _ => exact congrArg Except.error ((hname e).trans (hname e').symm)

end SameOutcome

theorem sameOutcome_checkSource (h : SameTokens layout.limits true a.text b.text) :
    SameOutcome CheckedProgram.bare (checkSource layout.limits schema a)
      (checkSource layout.limits schema b) := by
  refine (SameOutcome.of_alike (Program.alike_parse h) .parse fun _ => rfl).bind fun p q hpq => ?_
  have hcheck : Alike CheckedProgram.bare (p.check layout.limits schema)
      (q.check layout.limits schema) := by
    obtain ⟨rs, hp, hq⟩ | ⟨e, e', hp, hq⟩ := Program.check_of_bare hpq
    · rw [hp, hq]
      exact congrArg (fun ss => some (schema, ss)) hpq
    · rw [hp, hq]
      rfl
  exact .of_alike hcheck .check fun _ => rfl

theorem sameOutcome_compile (h : SameTokens layout.limits true a.text b.text) :
    SameOutcome id (compile layout schema a) (compile layout schema b) := by
  refine (sameOutcome_checkSource h).bind fun ⟨s, p, rs⟩ ⟨t, q, rs'⟩ hpq => ?_
  obtain ⟨rfl, hstatements⟩ := Prod.mk.inj hpq
  have hvalue : Alike id (CheckedProgram.evaluate layout.limits ⟨s, p, rs⟩)
      (CheckedProgram.evaluate layout.limits ⟨s, q, rs'⟩) :=
    congrArg (Option.map id) (Program.evaluate_of_bare hstatements rs rs')
  refine (SameOutcome.of_alike hvalue .evaluate fun _ => rfl).bind fun v w hv => ?_
  -- Equal values are written in the same way, with the same success.
  obtain rfl : v = w := hv
  rfl

/-- Programs with the same tokens and line ends compile to the same document or fail in the same
stage, and declarations with the same tokens load to the same schema up to spans and doc comments
or do not load. -/
theorem compile_and_load_layout :
    (∀ layout schema (a b : Source), SameTokens layout.limits true a.text b.text →
      (compile layout schema a).mapError CompileError.stage =
        (compile layout schema b).mapError CompileError.stage) ∧
    ∀ limits sources sources', List.Forall₂ (Schema.SameDeclarations limits) sources sources' →
      (Schema.load limits sources).toOption.map Schema.bare =
        (Schema.load limits sources').toOption.map Schema.bare := by
  refine ⟨fun layout schema a b h => ?_, fun limits sources sources' => Schema.alike_load⟩
  have houtcome : SameOutcome id (compile layout schema a) (compile layout schema b) :=
    sameOutcome_compile h
  rwa [SameOutcome, Except.map_id] at houtcome

def tagSource : Source := ⟨"tag.d.ts", "declare var tag: string;"⟩

def looseTagSource : Source :=
  ⟨"tag.d.ts", "// the tag\ndeclare var\n  /** shown */ tag : string ;\n"⟩

def tagSchema : Schema := ⟨[], [], ⟨"tag", .scalar .string, "tag.d.ts", ⟨12, 15⟩⟩⟩

def tagProgram : Source := ⟨"tag.ts", "tag=((n)=>`v${n+n}`)(\"1\");"⟩

def looseTagProgram : Source :=
  ⟨"tag.ts", "tag = ((n) => `v${ n /* twice */ + n }`)( \"1\" ); // done"⟩

theorem compile_and_load_layout_tag :
    SameTokens .standard true tagProgram.text looseTagProgram.text ∧
    Schema.SameDeclarations .standard tagSource looseTagSource ∧
    (compile .standard tagSchema looseTagProgram).mapError CompileError.stage = .ok "v11\n" ∧
    (Schema.load .standard [looseTagSource]).toOption.map Schema.bare = some tagSchema.bare := by
  have hp : SameTokens .standard true tagProgram.text looseTagProgram.text :=
    .of_tokens (by cbv) (by cbv) 8 (by cbv) (by cbv)
  have hd : Schema.SameDeclarations .standard tagSource looseTagSource :=
    ⟨rfl, .of_tokens (by cbv) (by cbv) 8 (by cbv) (by cbv)⟩
  have hc : compile .standard tagSchema tagProgram = .ok "v11\n" := by cbv
  have hs : Schema.load .standard [tagSource] = .ok tagSchema := by cbv
  obtain ⟨hcompile, hload⟩ := compile_and_load_layout
  refine ⟨hp, hd, ?_, ?_⟩
  · rw [← hcompile .standard tagSchema _ _ hp, hc]
    rfl
  · rw [← hload _ _ _ (.cons hd .nil), hs]
    rfl

end TypedConfig
