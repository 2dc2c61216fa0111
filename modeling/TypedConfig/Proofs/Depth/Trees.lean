import TypedConfig.Program

/-! # How deep expressions are

An expression is a link if it continues its first operand: a property, an index, a call, a binary
operation or a conditional. The height of an expression counts links as it counts other steps
down, its nesting does not. Between two steps that the nesting counts stands a chain of links, so
the nesting and the longest chain bound the height.
-/

namespace TypedConfig

mutual

/-- The number of nodes on the longest path down an expression, where a step from a link to its
first operand counts as much as given. -/
def Expr.depth (link : Nat) : Expr → Nat
  | .string .. | .number .. | .boolean .. | .null _ | .undefined _ | .name .. => 1
  | .template _ ts => 1 + TemplateSegment.depthAll link ts
  | .array _ is => 1 + ArrayItem.depthAll link is
  | .object _ ms => 1 + ObjectMember.depthAll link ms
  | .member _ o _ => link + o.depth link
  | .index _ o i => max (link + o.depth link) (1 + i.depth link)
  | .call _ f as => max (link + f.depth link) (1 + Expr.depthAll link as)
  | .arrow _ _ b => 1 + b.depth link
  | .unary _ _ e => 1 + e.depth link
  | .binary _ _ l r => max (link + l.depth link) (1 + r.depth link)
  | .conditional _ t c a => max (link + t.depth link) (1 + max (c.depth link) (a.depth link))

def Expr.depthAll (link : Nat) : List Expr → Nat
  | [] => 0
  | e :: es => max (e.depth link) (Expr.depthAll link es)

def TemplateSegment.depthAll (link : Nat) : List TemplateSegment → Nat
  | [] => 0
  | .text _ :: ts => TemplateSegment.depthAll link ts
  | .hole e :: ts => max (e.depth link) (TemplateSegment.depthAll link ts)

def ArrayItem.depthAll (link : Nat) : List ArrayItem → Nat
  | [] => 0
  | .item e :: is | .spread e :: is => max (e.depth link) (ArrayItem.depthAll link is)

def ObjectMember.depthAll (link : Nat) : List ObjectMember → Nat
  | [] => 0
  | .field _ _ e :: ms | .spread e :: ms => max (e.depth link) (ObjectMember.depthAll link ms)

end

namespace Expr

/-- The number of nodes on the longest path down an expression. -/
def height (e : Expr) : Nat := e.depth 1

/-- The height without the links. -/
def nesting (e : Expr) : Nat := e.depth 0

/-- The number of links from an expression down to the first that is no link. -/
def links : Expr → Nat
  | .member _ o _ | .index _ o _ | .call _ o _ | .binary _ _ o _ | .conditional _ o _ _ =>
    o.links + 1
  | _ => 0

end Expr

mutual

/-- The length of the longest chain of links in an expression. -/
def Expr.longestChain : Expr → Nat
  | .string .. | .number .. | .boolean .. | .null _ | .undefined _ | .name .. => 0
  | .template _ ts => TemplateSegment.longestChain ts
  | .array _ is => ArrayItem.longestChain is
  | .object _ ms => ObjectMember.longestChain ms
  | .member _ o _ => max (o.links + 1) o.longestChain
  | .index _ o i => max (o.links + 1) (max o.longestChain i.longestChain)
  | .call _ f as => max (f.links + 1) (max f.longestChain (Expr.longestChainOf as))
  | .arrow _ _ b => b.longestChain
  | .unary _ _ e => e.longestChain
  | .binary _ _ l r => max (l.links + 1) (max l.longestChain r.longestChain)
  | .conditional _ t c a =>
    max (t.links + 1) (max t.longestChain (max c.longestChain a.longestChain))

def Expr.longestChainOf : List Expr → Nat
  | [] => 0
  | e :: es => max e.longestChain (Expr.longestChainOf es)

def TemplateSegment.longestChain : List TemplateSegment → Nat
  | [] => 0
  | .text _ :: ts => TemplateSegment.longestChain ts
  | .hole e :: ts => max e.longestChain (TemplateSegment.longestChain ts)

def ArrayItem.longestChain : List ArrayItem → Nat
  | [] => 0
  | .item e :: is | .spread e :: is => max e.longestChain (ArrayItem.longestChain is)

def ObjectMember.longestChain : List ObjectMember → Nat
  | [] => 0
  | .field _ _ e :: ms | .spread e :: ms => max e.longestChain (ObjectMember.longestChain ms)

end

theorem Expr.links_le_longestChain (e : Expr) : e.links ≤ e.longestChain := by
  cases e with
  | member | index | call | binary | conditional => exact Nat.le_max_left ..
  | _ => exact Nat.zero_le _

variable {a b n m k c : Nat}

theorem max_le_max_mul (ha : a ≤ n * k) (hb : b ≤ m * k) : max a b ≤ max n m * k :=
  Nat.max_le.2 ⟨Nat.le_trans ha (Nat.mul_le_mul_right k (Nat.le_max_left n m)),
    Nat.le_trans hb (Nat.mul_le_mul_right k (Nat.le_max_right n m))⟩

/-- A node over operands that the nesting counts. -/
theorem node_le (h : a ≤ n * (k + 1)) : 1 + a + k ≤ 0 + (1 + n) * (k + 1) := by
  rw [Nat.add_mul]
  omega

/-- A link over a chain of `c` links and operands that the nesting counts. -/
theorem link_le (ha : a + k ≤ c + n * (k + 1)) (hb : b ≤ m * (k + 1)) :
    max (1 + a) (1 + b) + k ≤ c + 1 + max (0 + n) (1 + m) * (k + 1) := by
  have hn : n * (k + 1) ≤ max (0 + n) (1 + m) * (k + 1) :=
    Nat.mul_le_mul_right _ (by omega)
  have hm : (1 + m) * (k + 1) ≤ max (0 + n) (1 + m) * (k + 1) :=
    Nat.mul_le_mul_right _ (Nat.le_max_right ..)
  rw [Nat.add_mul] at hm
  omega

mutual

/-- A chain of links reaches down to an expression of the same nesting. -/
theorem Expr.depth_le_links : ∀ {e : Expr}, e.longestChain ≤ k →
    e.depth 1 + k ≤ e.links + e.depth 0 * (k + 1)
  | .string .., _ | .number .., _ | .boolean .., _ | .null _, _ | .undefined _, _
  | .name .., _ => node_le (Nat.zero_le (0 * (k + 1)))
  | .template _ ts, h => node_le (@TemplateSegment.depthAll_le ts h)
  | .array _ is, h => node_le (@ArrayItem.depthAll_le is h)
  | .object _ ms, h => node_le (@ObjectMember.depthAll_le ms h)
  | .arrow _ _ b, h => node_le (Expr.depth_le (e := b) h)
  | .unary _ _ e, h => node_le (Expr.depth_le (e := e) h)
  | .member _ o _, h => by
    have ho := Expr.depth_le_links (Nat.max_le.1 h).2
    simp only [Expr.depth, Expr.links, Nat.zero_add]
    omega
  | .index _ o i, h =>
    have h := Nat.max_le.1 (Nat.max_le.1 h).2
    link_le (Expr.depth_le_links h.1) (Expr.depth_le h.2)
  | .call _ f as, h =>
    have h := Nat.max_le.1 (Nat.max_le.1 h).2
    link_le (Expr.depth_le_links h.1) (Expr.depthAll_le h.2)
  | .binary _ _ l r, h =>
    have h := Nat.max_le.1 (Nat.max_le.1 h).2
    link_le (Expr.depth_le_links h.1) (Expr.depth_le h.2)
  | .conditional _ t c a, h =>
    have h := Nat.max_le.1 (Nat.max_le.1 h).2
    have hs := Nat.max_le.1 h.2
    link_le (Expr.depth_le_links h.1) (max_le_max_mul (Expr.depth_le hs.1) (Expr.depth_le hs.2))

theorem Expr.depth_le {e : Expr} (h : e.longestChain ≤ k) :
    e.depth 1 ≤ e.depth 0 * (k + 1) := by
  have hlinks := Expr.depth_le_links h
  have := e.links_le_longestChain
  omega

theorem Expr.depthAll_le : ∀ {es : List Expr}, Expr.longestChainOf es ≤ k →
    Expr.depthAll 1 es ≤ Expr.depthAll 0 es * (k + 1)
  | [], _ => Nat.zero_le _
  | _ :: _, h => max_le_max_mul (Expr.depth_le (Nat.max_le.1 h).1)
      (Expr.depthAll_le (Nat.max_le.1 h).2)

theorem TemplateSegment.depthAll_le : ∀ {ts : List TemplateSegment},
    TemplateSegment.longestChain ts ≤ k →
    TemplateSegment.depthAll 1 ts ≤ TemplateSegment.depthAll 0 ts * (k + 1)
  | [], _ => Nat.zero_le _
  | .text _ :: ts, h => @TemplateSegment.depthAll_le ts h
  | .hole _ :: _, h => max_le_max_mul (Expr.depth_le (Nat.max_le.1 h).1)
      (TemplateSegment.depthAll_le (Nat.max_le.1 h).2)

theorem ArrayItem.depthAll_le : ∀ {is : List ArrayItem}, ArrayItem.longestChain is ≤ k →
    ArrayItem.depthAll 1 is ≤ ArrayItem.depthAll 0 is * (k + 1)
  | [], _ => Nat.zero_le _
  | .item _ :: _, h | .spread _ :: _, h => max_le_max_mul (Expr.depth_le (Nat.max_le.1 h).1)
      (ArrayItem.depthAll_le (Nat.max_le.1 h).2)

theorem ObjectMember.depthAll_le : ∀ {ms : List ObjectMember}, ObjectMember.longestChain ms ≤ k →
    ObjectMember.depthAll 1 ms ≤ ObjectMember.depthAll 0 ms * (k + 1)
  | [], _ => Nat.zero_le _
  | .field .. :: _, h | .spread _ :: _, h => max_le_max_mul (Expr.depth_le (Nat.max_le.1 h).1)
      (ObjectMember.depthAll_le (Nat.max_le.1 h).2)

end

namespace Expr

/-- The nesting and the longest chain bound the height. -/
theorem height_le (e : Expr) : e.height ≤ e.nesting * (e.longestChain + 1) :=
  depth_le (Nat.le_refl _)

end Expr

end TypedConfig
