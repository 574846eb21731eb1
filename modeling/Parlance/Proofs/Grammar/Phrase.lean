import Parlance.Proofs.Grammar.Complete

/-!
# Expressions are read exactly as the grammar says

A list of tokens in which the end of the input stands last or nowhere is read as an expression if
and only if it is a phrase of the grammar, and then as the tree of the phrase
(`readExpression_eq_ok_iff_phrase`). In particular the grammar gives no list two trees.
-/

namespace Parlance.Grammar

open Reader (front lastLine skipNewlines refusal)
open Reader.Plain

theorem readExpression_eq (limit : Nat) (ts : List Token) :
    readExpression limit ts =
      match expression (lastLine ts) limit 0 ts with
      | .error e => .error e
      | .ok (e, rest) =>
        if (front (lastLine ts) (skipNewlines rest)).kind = .endOfInput then .ok e
        else .error (refusal (lastLine ts) .noMore (skipNewlines rest)) := by
  unfold readExpression expression
  dsimp only
  cases Reader.expression (lastLine ts) limit 0 ts with
  | error e => rfl
  | ok taken => rfl

/-! ## What is read is a phrase -/

/-- The end of the input stands behind the line ends only once. -/
theorem tail_of_endsOnce {last : Int} {used rest : List Token} (honce : EndsOnce (used ++ rest))
    (hend : (front last rest).kind = .endOfInput) :
    rest = [] ∨ ∃ t, rest = [t] ∧ t.kind = .endOfInput := by
  match rest with
  | [] => exact .inl rfl
  | [t] => exact .inr ⟨t, rfl, hend⟩
  | t :: u :: us =>
    refine absurd hend (honce t ?_)
    rw [List.dropLast_append_of_ne_nil (List.cons_ne_nil _ _), List.dropLast_cons_cons]
    simp

theorem phrase_of_readExpression {limit : Nat} {ts : List Token} {e : Expr} (honce : EndsOnce ts)
    (h : readExpression limit ts = .ok e) : Phrase ts e := by
  rw [readExpression_eq] at h
  split at h
  · nomatch h
  · rename_i a rest hread
    split at h
    · rename_i hend
      obtain rfl := Except.ok.inj h
      obtain ⟨used, hts, hd⟩ := (expression_sound (Nat.zero_le _) hread).loosest
      have hsplit : rest = rest.takeWhile (·.kind == .newline) ++ skipNewlines rest :=
        List.takeWhile_append_dropWhile.symm
      rw [hsplit, ← List.append_assoc] at hts
      refine ⟨used, _, _, hts, hd, fun t ht => ?_, tail_of_endsOnce (hts ▸ honce) hend⟩
      exact beq_iff_eq.1 (List.all_eq_true.1 List.all_takeWhile t ht)
    · nomatch h

/-! ## A phrase is read -/

theorem skipNewlines_lines {lines tail : List Token} (hlines : ∀ t ∈ lines, t.kind = .newline)
    (htail : tail = [] ∨ ∃ t, tail = [t] ∧ t.kind = .endOfInput) :
    skipNewlines (lines ++ tail) = tail := by
  unfold skipNewlines
  rw [List.dropWhile_append_of_pos (fun t ht => by rw [hlines t ht]; rfl)]
  rcases htail with rfl | ⟨t, rfl, ht⟩
  · rfl
  · rw [List.dropWhile_cons_of_neg (by rw [ht]; decide)]

theorem readExpression_of_phrase {ts : List Token} {e : Expr} (h : Phrase ts e) (limit : Nat) :
    Yields (readExpression limit ts) (.ok e) := by
  obtain ⟨used, lines, tail, rfl, hd, hlines, htail⟩ := h
  have hkind : ∀ t us, lines ++ tail = t :: us → t.kind = .newline ∨ t.kind = .endOfInput := by
    intro t us hts
    match lines, hts with
    | [], hts =>
      rcases htail with rfl | ⟨u, rfl, hu⟩
      · nomatch hts
      · cases hts
        exact .inr hu
    | _ :: _, hts =>
      cases hts
      exact .inl (hlines t (by simp))
  have hparts : Parts .or (lines ++ tail) := fun t us hts => by
    rcases hkind t us hts with hk | hk <;> rw [hk] <;> exact ⟨Nat.zero_le _, by decide⟩
  have hrests : Rests 0 (lines ++ tail) := fun t us hts => by
    rcases hkind t us hts with hk | hk <;> rw [hk] <;> rfl
  rw [readExpression_eq]
  generalize lastLine (used ++ lines ++ tail) = last
  have hread : Yields (expression last limit 0 (used ++ lines ++ tail)) (.ok (e, lines ++ tail)) := by
    rw [List.append_assoc, ← joined_of_rests hrests]
    exact hd.complete limit 0 (lines ++ tail) (Nat.zero_le _) hparts
  rcases hread with hread | ⟨line, hread⟩
  · rw [hread]
    dsimp only
    rw [skipNewlines_lines hlines htail, if_pos]
    · exact .rfl
    · rcases htail with rfl | ⟨t, rfl, ht⟩
      · rfl
      · exact ht
  · rw [hread]
    exact .inr ⟨line, rfl⟩

theorem readExpression_fault {limit : Nat} {ts : List Token} {e : Error}
    (h : readExpression limit ts = .error e) : Reader.Fault limit ts.length e := by
  rw [readExpression_eq] at h
  split at h
  · rename_i hread
    obtain rfl := Except.error.inj h
    exact expression_fault hread
  · split at h
    · nomatch h
    · obtain rfl := Except.error.inj h
      exact .refusal

/-- **Reading is exact**: with the end of the input last or nowhere, and unless the limit for
nesting is reached (which takes more tokens than the limit), the reader returns a tree if and only
if the tokens are a phrase with that tree, and otherwise fails with an error of reading. -/
theorem readExpression_eq_ok_iff_phrase (limit : Nat) (ts : List Token) (honce : EndsOnce ts) :
    (ts.length ≤ limit → ¬ StopsAtLimit (readExpression limit ts)) ∧
      (¬ StopsAtLimit (readExpression limit ts) →
        (∀ e, readExpression limit ts = .ok e ↔ Phrase ts e) ∧
        ((∀ e, ¬ Phrase ts e) →
          ∃ err, readExpression limit ts = .error err ∧ err.cause.kind = .parse)) := by
  refine ⟨?_, fun hlimit => ⟨fun e => ⟨phrase_of_readExpression honce, fun h => ?_⟩, fun hno => ?_⟩⟩
  · rintro hle ⟨line, h⟩
    rcases readExpression_fault h with ⟨wanted, found, hc⟩ | ⟨-, hlt⟩
    · nomatch hc
    · omega
  · exact (readExpression_of_phrase h limit).resolve_right hlimit
  · cases h : readExpression limit ts with
    | ok e => exact absurd (phrase_of_readExpression honce h) (hno e)
    | error err => exact ⟨err, rfl, (readExpression_fault h).kind⟩

/-- The tokens of `a - -b * c` with a line end, and the tree that the grammar gives them. -/
theorem readExpression_difference_of_product :
    let word (x : String) : Token := ⟨.identifier, x, .nothing, 1⟩
    let sign (kind : Kind) (lexeme : String) : Token := ⟨kind, lexeme, .nothing, 1⟩
    let ts := [word "a", sign .minus "-", sign .minus "-", word "b", sign .star "*", word "c",
      sign .newline "\n", .endOfInput 2]
    EndsOnce ts ∧ readExpression nestingLimit ts =
      .ok (.apply .minus [.name "a", .apply .multiply [.apply .minus [.name "b"], .name "c"]]) := by
  intro word sign ts
  have honce : EndsOnce ts := by unfold EndsOnce; decide
  refine ⟨honce, ?_⟩
  obtain ⟨hroom, hexact⟩ := readExpression_eq_ok_iff_phrase nestingLimit ts honce
  refine ((hexact (hroom (by decide))).1 _).2
    ⟨[word "a", sign .minus "-", sign .minus "-", word "b", sign .star "*", word "c"],
      [sign .newline "\n"], [.endOfInput 2], rfl, ?_, by simp [sign], .inr ⟨_, rfl, rfl⟩⟩
  have hname (x : String) : Derives .prim [word x] (.name x) := .name rfl
  have hproduct : Derives .prod [sign .minus "-", word "b", sign .star "*", word "c"]
      (.apply .multiply [.apply .minus [.name "b"], .name "c"]) :=
    .join rfl (.pass rfl (.minus rfl (Derives.loosen (hname "b") (by decide)))) rfl
      (Derives.loosen (hname "c") (by decide))
  have hleft : Derives .sum [word "a"] (.name "a") := Derives.loosen (hname "a") (by decide)
  exact (Derives.join rfl hleft rfl hproduct).loosen (by decide)

end Parlance.Grammar
