import Parlance.Proofs.Grammar.Expression

/-!
# Tiers and binding powers

Every tier of the grammar has a power, that of the operators which join its phrases. A token pulls
at the phrase before it with the power of the operator that it stands for there. The reader goes on
exactly as long as the pull is at least what it was asked for (`next?_eq_none_iff`), and then takes
an operator of the tier with that power (`sign?_of_next?`).
-/

namespace Parlance.Grammar

def Tier.power : Tier → Nat
  | .or => 1
  | .and => 3
  | .cmp => 5
  | .sum => 7
  | .prod => 9
  | .unary => 11
  | .post => 13
  | .prim => 15

/-- How strongly a token pulls at the phrase before it; zero for one that is no operator there. -/
def pull (kind : Kind) : Nat :=
  match (Op.joining? kind).bind Op.power? with
  | some (left, _) => left
  | none => 0

/-- No token in front pulls stronger than `bound`. -/
def Stops (bound : Nat) (ts : List Token) : Prop :=
  ∀ t rest, ts = t :: rest → pull t.kind ≤ bound

/-- The token in front does not continue a phrase that was asked for with `least`. -/
def Rests (least : Nat) (ts : List Token) : Prop :=
  ∀ t rest, ts = t :: rest → Op.next? least t.kind = none

theorem pull_le (kind : Kind) : pull kind ≤ 13 := by
  cases kind <;> simp [pull, Op.joining?, Op.power?]

/-- No sign has the power of the operators in front of an operand. -/
theorem pull_lt_frontPower {kind : Kind} (h : pull kind ≤ Tier.unary.power) :
    pull kind < Op.frontPower := by
  cases kind <;> simp [pull, Op.joining?, Op.power?, Op.frontPower, Tier.power] at h ⊢

theorem next?_eq_none_iff {least : Nat} {kind : Kind} :
    Op.next? least kind = none ↔ pull kind < least ∨ pull kind = 0 := by
  cases kind <;> simp [Op.next?, pull, Op.joining?, Op.power?]

theorem next?_of_sign? {tier : Tier} {kind : Kind} {op : Op} (h : tier.sign? kind = some op)
    {least : Nat} (hl : least ≤ tier.power) :
    Op.next? least kind = some (op, tier.power + 1) ∧ op ≠ .index ∧ op ≠ .field := by
  cases tier <;> cases kind <;> simp only [Tier.sign?, reduceCtorEq] at h <;> cases h <;>
    simp [Op.next?, Op.joining?, Op.power?, Tier.power] at hl ⊢ <;> omega

theorem pull_of_sign? {tier : Tier} {kind : Kind} {op : Op} (h : tier.sign? kind = some op) :
    pull kind = tier.power := by
  cases tier <;> cases kind <;> simp only [Tier.sign?, reduceCtorEq] at h <;> rfl

/-- The tier that an operator joins phrases of. -/
def tierOf : Op → Tier
  | .or => .or
  | .and => .and
  | .equal | .notEqual | .less | .greater | .lessEqual | .greaterEqual => .cmp
  | .plus | .minus => .sum
  | .multiply | .divide | .mod => .prod
  | .not | .index | .field => .post

theorem sign?_of_next? {least power : Nat} {kind : Kind} {op : Op}
    (h : Op.next? least kind = some (op, power)) (hi : op ≠ .index) (hf : op ≠ .field) :
    ∃ tight, (tierOf op).next? = some tight ∧ (tierOf op).sign? kind = some op ∧
      power = (tierOf op).power + 1 ∧ least ≤ (tierOf op).power := by
  cases kind <;> simp only [Op.next?, Op.joining?, Op.power?, reduceCtorEq] at h
  all_goals
    split at h
    · nomatch h
    · obtain ⟨rfl, rfl⟩ := Prod.mk.inj (Option.some.inj h)
      first
      | exact absurd rfl hi
      | exact absurd rfl hf
      | exact ⟨_, rfl, rfl, rfl, Nat.le_of_not_lt (by assumption)⟩

theorem kind_of_next?_index {least power : Nat} {kind : Kind}
    (h : Op.next? least kind = some (.index, power)) : kind = .leftBracket ∧ least ≤ 13 := by
  cases kind <;> simp [Op.next?, Op.joining?, Op.power?] at h ⊢
  omega

theorem kind_of_next?_field {least power : Nat} {kind : Kind}
    (h : Op.next? least kind = some (.field, power)) : kind = .dot ∧ least ≤ 13 := by
  cases kind <;> simp [Op.next?, Op.joining?, Op.power?] at h ⊢
  omega

theorem Tier.next?_power {tier tight : Tier} (h : tier.next? = some tight) :
    tight.power = tier.power + 2 := by
  cases tier <;> cases h <;> rfl

theorem Tier.power_of_lt {tier tight other : Tier} (h : tier.next? = some tight)
    (hp : tier.power + 1 ≤ other.power) : tight.power ≤ other.power := by
  cases tier <;> cases h <;> cases other <;> simp [Tier.power] at hp ⊢

theorem Tier.power_lt_frontPower {tier : Tier} {kind : Kind} {op : Op}
    (h : tier.sign? kind = some op) : tier.power + 1 ≤ Op.frontPower := by
  cases tier <;> first | decide | cases kind <;> nomatch h

theorem Derives.leading {t : Token} {op : Op} {ts : List Token} {e : Expr}
    (ht : Op.leading? t.kind = some op) (h : Derives .unary ts e) :
    Derives .unary (t :: ts) (.apply op [e]) := by
  cases hk : t.kind <;> rw [hk] at ht <;> cases ht
  · exact .minus hk h
  · exact .bang hk h

/-- A phrase of a tier is one of every looser tier. -/
theorem Derives.loosen {tier tight : Tier} {ts : List Token} {e : Expr} (h : Derives tight ts e)
    (hp : tier.power ≤ tight.power) : Derives tier ts e := by
  induction hn : tight.power - tier.power using Nat.strongRecOn generalizing tier with
  | ind n ih =>
    by_cases heq : tier.power = tight.power
    · have : tier = tight := by revert heq; cases tier <;> cases tight <;> decide
      exact this ▸ h
    · have hlt : tier.power < tight.power := by omega
      obtain ⟨next, hnext⟩ : ∃ next, tier.next? = some next := by
        cases tier <;> first | exact ⟨_, rfl⟩ | cases tight <;> simp [Tier.power] at hlt
      have hpow := Tier.next?_power hnext
      exact .pass hnext (ih _ (by omega) (Tier.power_of_lt hnext hlt) rfl)

end Parlance.Grammar
