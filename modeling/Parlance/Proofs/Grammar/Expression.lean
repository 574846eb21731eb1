import Parlance.Reader.Expression

/-!
# The grammar of expressions

Eight tiers, the loosest first. A phrase of one of the five tiers of infix operators is a phrase of
the next tier, or a phrase of the same tier, an operator of it and a phrase of the next: so equal
operators associate to the left and every phrase has one tree. `Derives tier ts e` says that the
tokens `ts` are a phrase of the tier with the tree `e`, and `Phrase ts e` that a whole list is an
expression, line ends and at most one token for the end of the input.
-/

namespace Parlance.Grammar

inductive Tier where
  | or
  | and
  | cmp
  | sum
  | prod
  | unary
  | post
  | prim
  deriving Repr, DecidableEq

namespace Tier

/-- The next tighter tier. -/
def next? : Tier → Option Tier
  | or => some and
  | and => some cmp
  | cmp => some sum
  | sum => some prod
  | prod => some unary
  | unary => some post
  | post => some prim
  | prim => none

/-- The signs between the phrases of a tier. -/
def sign? : Tier → Kind → Option Op
  | or, .orWord => some .or
  | and, .andWord => some .and
  | cmp, .equal => some .equal
  | cmp, .bangEqual => some .notEqual
  | cmp, .less => some .less
  | cmp, .greater => some .greater
  | cmp, .lessEqual => some .lessEqual
  | cmp, .greaterEqual => some .greaterEqual
  | sum, .plus => some .plus
  | sum, .minus => some .minus
  | prod, .star => some .multiply
  | prod, .slash => some .divide
  | prod, .percent => some .mod
  | _, _ => none

end Tier

mutual
inductive Derives : Tier → List Token → Expr → Prop where
  | pass {tier tight : Tier} {ts : List Token} {e : Expr} (hn : tier.next? = some tight)
      (h : Derives tight ts e) : Derives tier ts e
  | join {tier tight : Tier} {ls rs : List Token} {t : Token} {op : Op} {a b : Expr}
      (hn : tier.next? = some tight) (hl : Derives tier ls a) (ht : tier.sign? t.kind = some op)
      (hr : Derives tight rs b) : Derives tier (ls ++ t :: rs) (.apply op [a, b])
  | minus {t : Token} {ts : List Token} {e : Expr} (ht : t.kind = .minus)
      (h : Derives .unary ts e) : Derives .unary (t :: ts) (.apply .minus [e])
  | bang {t : Token} {ts : List Token} {e : Expr} (ht : t.kind = .bang)
      (h : Derives .unary ts e) : Derives .unary (t :: ts) (.apply .not [e])
  | index {t closer : Token} {ls rs : List Token} {a b : Expr} (hl : Derives .post ls a)
      (ht : t.kind = .leftBracket) (hr : Derives .or rs b) (hc : closer.kind = .rightBracket) :
      Derives .post (ls ++ t :: rs ++ [closer]) (.apply .index [a, b])
  | field {t x : Token} {ls : List Token} {a : Expr} (hl : Derives .post ls a)
      (ht : t.kind = .dot) (hx : x.kind = .identifier) :
      Derives .post (ls ++ [t, x]) (.apply .field [a, .name x.lexeme])
  | number {t : Token} (ht : t.kind = .number) : Derives .prim [t] (.literal t.literal)
  | string {t : Token} (ht : t.kind = .string) : Derives .prim [t] (.literal t.literal)
  | trueWord {t : Token} (ht : t.kind = .trueWord) : Derives .prim [t] (.literal (.boolean true))
  | falseWord {t : Token} (ht : t.kind = .falseWord) : Derives .prim [t] (.literal (.boolean false))
  | name {x : Token} (hx : x.kind = .identifier) : Derives .prim [x] (.name x.lexeme)
  | call {x t closer : Token} {ts : List Token} {es : List Expr} (hx : x.kind = .identifier)
      (ht : t.kind = .leftParen) (h : DerivesArgs ts es) (hc : closer.kind = .rightParen) :
      Derives .prim (x :: t :: ts ++ [closer]) (.call x.lexeme es)
  | paren {t closer : Token} {ts : List Token} {e : Expr} (ht : t.kind = .leftParen)
      (h : Derives .or ts e) (hc : closer.kind = .rightParen) :
      Derives .prim (t :: ts ++ [closer]) e
  | array {t closer : Token} {ts : List Token} {es : List Expr} (ht : t.kind = .leftBracket)
      (h : DerivesArgs ts es) (hc : closer.kind = .rightBracket) :
      Derives .prim (t :: ts ++ [closer]) (.array es)

/-- Any number of expressions with commas between them. -/
inductive DerivesArgs : List Token → List Expr → Prop where
  | none : DerivesArgs [] []
  | some {ts : List Token} {es : List Expr} (h : DerivesItems ts es) : DerivesArgs ts es

/-- At least one expression. -/
inductive DerivesItems : List Token → List Expr → Prop where
  | last {ts : List Token} {e : Expr} (h : Derives .or ts e) : DerivesItems ts [e]
  | more {t : Token} {ts us : List Token} {e : Expr} {es : List Expr} (h : Derives .or ts e)
      (ht : t.kind = .comma) (hs : DerivesItems us es) : DerivesItems (ts ++ t :: us) (e :: es)
end

/-- An expression, line ends, and at most one token for the end of the input. -/
def Phrase (ts : List Token) (e : Expr) : Prop :=
  ∃ phrase lines tail, ts = phrase ++ lines ++ tail ∧ Derives .or phrase e ∧
    (∀ t ∈ lines, t.kind = .newline) ∧ (tail = [] ∨ ∃ t, tail = [t] ∧ t.kind = .endOfInput)

/-- No token but the last is one for the end of the input. -/
def EndsOnce (ts : List Token) : Prop := ∀ t ∈ ts.dropLast, t.kind ≠ .endOfInput

end Parlance.Grammar
