import TypedConfig.Program
import TypedConfig.Proofs.Entries
import TypedConfig.Proofs.Number.Negation
import TypedConfig.Schema

/-! # Constants written out

A program in which a constant of the schema is written out has the literal of the constant in
place of its name, except where an arrow binds the name itself.
-/

namespace TypedConfig

def Number.isNegative (x : Float) : Bool := decide (Nat.pow 2 63 ≤ x.toBits.toNat)

/-- The expression that a scalar is written as: a number whose sign is a minus has it in front. -/
def Scalar.expr (s : Span) : Scalar → Expr
  | .string v => .string s v
  | .number x => if Number.isNegative x then .unary s .negate (.number s (-x)) else .number s x
  | .boolean v => .boolean s v

def Entries.anyBinds {α : Type} (frames : List (Entries α)) (name : String) : Bool :=
  frames.any fun frame => frame.contains name

def Ident.anyNamed (params : List Ident) (name : String) : Bool :=
  params.any fun p => p.name = name

namespace Expr

variable (c : Sentinel)

mutual

/-- The expression with a constant written out, unless the constant's name is bound around it or
by an arrow in it. -/
def inlined (bound : Bool) : Expr → Expr
  | name s n => if bound = false ∧ n = c.name then c.literal.expr s else name s n
  | template s segments => template s (inlinedSegments bound segments)
  | array s items => array s (inlinedItems bound items)
  | object s members => object s (inlinedMembers bound members)
  | member s o p => member s (o.inlined bound) p
  | index s o i => index s (o.inlined bound) (i.inlined bound)
  | call s f args => call s (f.inlined bound) (inlinedAll bound args)
  | arrow s params body => arrow s params (body.inlined (bound || Ident.anyNamed params c.name))
  | unary s op e => unary s op (e.inlined bound)
  | binary s op l r => binary s op (l.inlined bound) (r.inlined bound)
  | conditional s t x y => conditional s (t.inlined bound) (x.inlined bound) (y.inlined bound)
  | string s v => string s v
  | number s x => number s x
  | boolean s b => boolean s b
  | null s => null s
  | undefined s => undefined s

def inlinedSegments (bound : Bool) : List TemplateSegment → List TemplateSegment
  | [] => []
  | .text t :: rest => .text t :: inlinedSegments bound rest
  | .hole e :: rest => .hole (e.inlined bound) :: inlinedSegments bound rest

def inlinedItems (bound : Bool) : List ArrayItem → List ArrayItem
  | [] => []
  | .item e :: rest => .item (e.inlined bound) :: inlinedItems bound rest
  | .spread e :: rest => .spread (e.inlined bound) :: inlinedItems bound rest

def inlinedMembers (bound : Bool) : List ObjectMember → List ObjectMember
  | [] => []
  | .field key s e :: rest => .field key s (e.inlined bound) :: inlinedMembers bound rest
  | .spread e :: rest => .spread (e.inlined bound) :: inlinedMembers bound rest

def inlinedAll (bound : Bool) : List Expr → List Expr
  | [] => []
  | e :: es => e.inlined bound :: inlinedAll bound es

end

variable {c} {bound : Bool}

/-- Only a member is written out as a member. -/
theorem not_member_inlined {e : Expr} (h : ¬ ∃ s object property, e = .member s object property) :
    ¬ ∃ s object property, e.inlined c bound = .member s object property := by
  cases e with
  | member s object property => exact absurd ⟨s, object, property, rfl⟩ h
  | name s n =>
    rintro ⟨s', object, property, hm⟩
    rw [inlined] at hm
    split at hm
    · rcases hc : c.literal with _ | x | _ <;> rw [hc, Scalar.expr] at hm
      · cases hm
      · split at hm <;> cases hm
      · cases hm
    · cases hm
  | _ => rintro ⟨_, _, _, ⟨⟩⟩

end Expr

/-- The statement with a constant written out. -/
def Statement.inlined (c : Sentinel) : Statement → Statement
  | declare kind name init s => declare kind name (init.map (Expr.inlined c false)) s
  | assign target e s => assign target (e.inlined c false) s
  | expression e => expression (e.inlined c false)

def Statement.target? : Statement → Option Ident
  | declare _ name _ _ => some name
  | assign target _ _ => some target
  | expression _ => none

/-- The program with a constant written out. -/
def Program.inlined (c : Sentinel) (p : Program) : Program :=
  { p with statements := p.statements.map (.inlined c) }

def ConstantDeclaration.sentinel (d : ConstantDeclaration) : Sentinel := ⟨d.name, d.value⟩

namespace Schema

variable {α : Type} {schema : Schema} {f : Sentinel → α} {root a : α} {d : ConstantDeclaration}
  {name : String}

/-- What is made of every constant under its name, and something under the name of the root. -/
def bindings (schema : Schema) (f : Sentinel → α) (root : α) : Entries α :=
  Entries.put (Entries.ofList (schema.constants.map fun d => (d.name, f d.sentinel)))
    schema.root.name root

theorem get?_bindings (hd : (schema.constants.map (·.name)).Nodup) :
    Entries.get? (schema.bindings f root) name =
      if schema.root.name = name then some root
      else Entries.get? (schema.constants.map fun d => (d.name, f d.sentinel)) name := by
  have hdistinct : Entries.Distinct (schema.constants.map fun d => (d.name, f d.sentinel)) := by
    rw [Entries.Distinct, Entries.keys, List.map_map]
    exact hd
  rw [bindings, Entries.get?_put, Entries.get?_ofList hdistinct]

theorem get?_bindings_constant (hd : (schema.constants.map (·.name)).Nodup)
    (hc : d ∈ schema.constants) (hroot : schema.root.name ≠ d.name) :
    Entries.get? (schema.bindings f root) d.name = some (f d.sentinel) := by
  rw [get?_bindings hd, if_neg hroot]
  refine Entries.get?_of_mem ?_ (List.mem_map_of_mem hc)
  rw [Entries.Distinct, Entries.keys, List.map_map]
  exact hd

/-- No other name is bound to a constant. -/
theorem get?_bindings_ne (hd : (schema.constants.map (·.name)).Nodup) (hname : name ≠ d.name)
    (h : Entries.get? (schema.bindings f root) name = some a) :
    a = root ∨ ∃ x, x ≠ d.sentinel ∧ a = f x := by
  rw [get?_bindings hd] at h
  split at h
  · exact .inl (Option.some.inj h).symm
  · obtain ⟨e, -, he⟩ := List.mem_map.1 (Entries.mem_of_get? h)
    obtain ⟨rfl, rfl⟩ := Prod.mk.inj he
    exact .inr ⟨_, fun heq => hname (congrArg Sentinel.name heq), rfl⟩

end Schema

end TypedConfig
