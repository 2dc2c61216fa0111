import TypedConfig.Program

/-! # Programs without places

What is left of expressions and statements when all their spans are forgotten.
-/

namespace TypedConfig

def Ident.bare (p : Ident) : Ident := ⟨p.name, default⟩

@[simp] theorem Ident.name_bare (p : Ident) : p.bare.name = p.name := rfl

namespace Expr

mutual

def bare : Expr → Expr
  | string _ v => string default v
  | number _ x => number default x
  | boolean _ b => boolean default b
  | null _ => null default
  | undefined _ => undefined default
  | name _ n => name default n
  | template _ segments => template default (bareSegments segments)
  | array _ items => array default (bareItems items)
  | object _ members => object default (bareMembers members)
  | member _ o p => member default o.bare ⟨p.name, default⟩
  | index _ o i => index default o.bare i.bare
  | call _ f args => call default f.bare (bareAll args)
  | arrow _ params body => arrow default (params.map fun p => ⟨p.name, default⟩) body.bare
  | unary _ op e => unary default op e.bare
  | binary _ op l r => binary default op l.bare r.bare
  | conditional _ t c a => conditional default t.bare c.bare a.bare

def bareSegments : List TemplateSegment → List TemplateSegment
  | [] => []
  | .text s :: rest => .text s :: bareSegments rest
  | .hole e :: rest => .hole e.bare :: bareSegments rest

def bareItems : List ArrayItem → List ArrayItem
  | [] => []
  | .item e :: rest => .item e.bare :: bareItems rest
  | .spread e :: rest => .spread e.bare :: bareItems rest

def bareMembers : List ObjectMember → List ObjectMember
  | [] => []
  | .field key _ e :: rest => .field key default e.bare :: bareMembers rest
  | .spread e :: rest => .spread e.bare :: bareMembers rest

def bareAll : List Expr → List Expr
  | [] => []
  | e :: es => e.bare :: bareAll es

end

@[simp] theorem bare_withSpan (s : Span) (e : Expr) : (e.withSpan s).bare = e.bare := by
  cases e <;> rfl

@[simp] theorem withSpan_bare (e : Expr) : e.bare.withSpan default = e.bare := by
  cases e <;> rfl

@[simp] theorem span_bare (e : Expr) : e.bare.span = default := by cases e <;> rfl

theorem not_member_bare {e : Expr} (h : ¬ ∃ s object property, e = .member s object property) :
    ¬ ∃ s object property, e.bare = .member s object property := by
  cases e with
  | member s object property => exact absurd ⟨s, object, property, rfl⟩ h
  | _ => rintro ⟨_, _, _, ⟨⟩⟩

end Expr

def ArrayItem.bare : ArrayItem → ArrayItem
  | item e => item e.bare
  | spread e => spread e.bare

def ObjectMember.bare : ObjectMember → ObjectMember
  | field key _ e => field key default e.bare
  | spread e => spread e.bare

namespace Expr

theorem bareItems_eq_map (items : List ArrayItem) :
    bareItems items = items.map ArrayItem.bare := by
  induction items with
  | nil => rfl
  | cons i items ih => cases i <;> exact congrArg (List.cons _) ih

theorem bareMembers_eq_map (members : List ObjectMember) :
    bareMembers members = members.map ObjectMember.bare := by
  induction members with
  | nil => rfl
  | cons m members ih => cases m <;> exact congrArg (List.cons _) ih

theorem bareAll_eq_map (es : List Expr) : bareAll es = es.map bare := by
  induction es with
  | nil => rfl
  | cons e es ih => exact congrArg (List.cons _) ih

end Expr

def Import.bare (i : Import) : Import := ⟨i.path, default⟩

def Statement.bare : Statement → Statement
  | declare kind name init _ => declare kind ⟨name.name, default⟩ (init.map Expr.bare) default
  | assign target e _ => assign ⟨target.name, default⟩ e.bare default
  | expression e => expression e.bare

end TypedConfig
