import Parlance.Proofs.Grammar.Phrase
import Parlance.Proofs.Token.Proper

/-!
# Well-formed trees

The trees that a text can give: no value but booleans, strings without a quote and positive numbers,
names that are no keywords, and each operator over as many operands as it stands with. Since scanned
tokens are proper, every tree read from a text is well formed.
-/

namespace Parlance

/-- The operators that stand between two operands. -/
def Op.joins : Op → Bool
  | .not | .index | .field => false
  | _ => true

namespace Expr

inductive WellFormed : Expr → Prop where
  | boolean (b : Bool) : WellFormed (.literal (.boolean b))
  | string {s : String} (h : '"' ∉ s.toList) : WellFormed (.literal (.string s))
  | number {x : Number} (h : x.IsPositive) : WellFormed (.literal (.number x))
  | name {x : String} (h : IsName x) : WellFormed (.name x)
  | array {es : List Expr} (h : ∀ e ∈ es, WellFormed e) : WellFormed (.array es)
  | call {f : String} {es : List Expr} (hf : IsName f) (h : ∀ e ∈ es, WellFormed e) :
      WellFormed (.call f es)
  | leading {op : Op} {e : Expr} (hop : op = .minus ∨ op = .not) (h : WellFormed e) :
      WellFormed (.apply op [e])
  | between {op : Op} {a b : Expr} (hop : op.joins = true) (ha : WellFormed a) (hb : WellFormed b) :
      WellFormed (.apply op [a, b])
  | index {a b : Expr} (ha : WellFormed a) (hb : WellFormed b) : WellFormed (.apply .index [a, b])
  | field {a : Expr} {x : String} (ha : WellFormed a) (hx : IsName x) :
      WellFormed (.apply .field [a, .name x])

end Expr

namespace Grammar

theorem joins_of_sign? {tier : Tier} {kind : Kind} {op : Op} (h : tier.sign? kind = some op) :
    op.joins = true := by
  unfold Tier.sign? at h
  split at h <;> cases h <;> rfl

mutual
theorem Derives.wellFormed {tier : Tier} {ts : List Token} {e : Expr} :
    Derives tier ts e → (∀ t ∈ ts, t.Proper) → e.WellFormed
  | .pass _ h, hts => h.wellFormed hts
  | .join _ hl ht hr, hts =>
    .between (joins_of_sign? ht) (hl.wellFormed fun t hmem => hts t (by simp [hmem]))
      (hr.wellFormed fun t hmem => hts t (by simp [hmem]))
  | .minus _ h, hts => .leading (.inl rfl) (h.wellFormed fun t hmem => hts t (by simp [hmem]))
  | .bang _ h, hts => .leading (.inr rfl) (h.wellFormed fun t hmem => hts t (by simp [hmem]))
  | .index hl _ hr _, hts =>
    .index (hl.wellFormed fun t hmem => hts t (by simp [hmem]))
      (hr.wellFormed fun t hmem => hts t (by simp [hmem]))
  | .field hl _ hx, hts =>
    .field (hl.wellFormed fun t hmem => hts t (by simp [hmem])) ((hts _ (by simp)).name hx)
  | .number ht, hts => by
    obtain ⟨x, hx, hpositive⟩ := (hts _ (by simp)).number ht
    rw [hx]
    exact .number hpositive
  | .string ht, hts => by
    obtain ⟨s, hs, hquote⟩ := (hts _ (by simp)).string ht
    rw [hs]
    exact .string hquote
  | .trueWord _, _ => .boolean true
  | .falseWord _, _ => .boolean false
  | .name hx, hts => .name ((hts _ (by simp)).name hx)
  | .call hx _ h _, hts =>
    .call ((hts _ (by simp)).name hx) (h.wellFormed fun t hmem => hts t (by simp [hmem]))
  | .paren _ h _, hts => h.wellFormed fun t hmem => hts t (by simp [hmem])
  | .array _ h _, hts => .array (h.wellFormed fun t hmem => hts t (by simp [hmem]))

theorem DerivesArgs.wellFormed {ts : List Token} {es : List Expr} :
    DerivesArgs ts es → (∀ t ∈ ts, t.Proper) → ∀ e ∈ es, e.WellFormed
  | .none, _ => by simp
  | .some h, hts => h.wellFormed hts

theorem DerivesItems.wellFormed {ts : List Token} {es : List Expr} :
    DerivesItems ts es → (∀ t ∈ ts, t.Proper) → ∀ e ∈ es, e.WellFormed
  | .last h, hts => by
    simpa using h.wellFormed hts
  | .more h _ hs, hts => by
    have hfirst := h.wellFormed fun t hmem => hts t (by simp [hmem])
    have hmore := hs.wellFormed fun t hmem => hts t (by simp [hmem])
    simpa using ⟨hfirst, hmore⟩
end

end Grammar

/-- In a scanned list the end of the input stands last and nowhere else. -/
theorem endsOnce_of_scan {source : String} {ts : List Token} (h : scan source = .ok ts) :
    Grammar.EndsOnce ts := by
  obtain ⟨init, next, rfl, hinit⟩ := Token.scanFrom_proper h
  intro t ht
  rw [List.dropLast_concat] at ht
  exact (hinit t ht).2

theorem proper_of_scan {source : String} {ts : List Token} (h : scan source = .ok ts) :
    ∀ t ∈ ts, t.Proper := by
  obtain ⟨init, next, rfl, hinit⟩ := Token.scanFrom_proper h
  intro t ht
  rcases List.mem_append.1 ht with ht | ht
  · exact (hinit t ht).1
  · obtain rfl := List.mem_singleton.1 ht
    exact ⟨nofun, nofun, nofun⟩

theorem wellFormed_of_parseExpression {source : String} {e : Expr}
    (h : parseExpression source = .ok e) : e.WellFormed := by
  unfold parseExpression at h
  cases hscan : scan source with
  | error err =>
    rw [hscan] at h
    nomatch h
  | ok ts =>
    rw [hscan] at h
    obtain ⟨phrase, lines, tail, rfl, hd, -⟩ :=
      Grammar.phrase_of_readExpression (endsOnce_of_scan hscan) h
    exact hd.wellFormed fun t ht => proper_of_scan hscan t (by simp [ht])

end Parlance
