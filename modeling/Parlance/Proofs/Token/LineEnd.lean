import Parlance.Proofs.Token.Lines
import Parlance.Proofs.Token.Terminal

/-!
# A line end after a text

No lexeme goes on over a blank, and none but a carriage return over a line end. So a lexeme of a text is
the same with one of them behind the text (`munch?_before_break`), and a text that scans by itself scans
the same with a line end behind it (`scanFrom_before_line`). What the line end adds is its own token.
-/

namespace Parlance.Token

/-- Nothing, or a blank or a line end first. -/
def BeforeBreak (rest : List Char) : Prop := ∀ c cs, rest = c :: cs → c = ' ' ∨ c = '\n'

theorem beforeBreak_nil : BeforeBreak [] := fun _ _ h => nomatch h

theorem beforeBreak_blank (rest : List Char) : BeforeBreak (' ' :: rest) :=
  fun _ _ h => .inl (List.cons.inj h).1.symm

theorem beforeBreak_line (rest : List Char) : BeforeBreak ('\n' :: rest) :=
  fun _ _ h => .inr (List.cons.inj h).1.symm

/-- What no break has, the rest does not begin with. -/
theorem BeforeBreak.head {rest : List Char} (h : BeforeBreak rest) {p : Char → Bool}
    (hblank : p ' ' = false) (hline : p '\n' = false) : ∀ c cs, rest = c :: cs → p c = false := by
  intro c cs hrest
  rcases h c cs hrest with rfl | rfl
  · exact hblank
  · exact hline

/-! ## Counts of characters -/

section Counts

variable (cs : List Char) {rest : List Char} (h : BeforeBreak rest)
include h

theorem takeWhile_before_break {p : Char → Bool} (hblank : p ' ' = false) (hline : p '\n' = false) :
    (cs ++ rest).takeWhile p = cs.takeWhile p := by
  have hnone : rest.takeWhile p = [] := by
    cases rest with
    | nil => rfl
    | cons c more => exact List.takeWhile_cons_of_neg (by simp [h.head hblank hline c more rfl])
  rw [List.takeWhile_append, hnone, List.append_nil]
  split
  · rename_i hlength
    exact ((List.takeWhile_prefix p).eq_of_length hlength).symm
  · rfl

theorem numberCount_before_break : numberCount (cs ++ rest) = numberCount cs := by
  cases rest with
  | nil => rw [List.append_nil]
  | cons c more => exact numberCount_append_stop (h.head (by decide) (by decide) c more rfl) cs more

theorem withEquals_before_break (long short : Kind) :
    withEquals long short (cs ++ rest) = withEquals long short cs ∧
      (withEquals long short cs).2 ≤ cs.length := by
  have hshort {c : Char} (hc : c ≠ '=') (ds : List Char) :
      withEquals long short (c :: ds) = (short, 0) := by
    unfold withEquals
    split
    · rename_i heq
      exact absurd (List.cons.inj heq).1 hc
    · rfl
  cases cs with
  | nil =>
    cases rest with
    | nil => exact ⟨rfl, Nat.le_refl 0⟩
    | cons c more =>
      have hc : (c == '=') = false := h.head (p := (· == '=')) (by decide) (by decide) c more rfl
      exact ⟨hshort (by simpa using hc) more, Nat.le_refl 0⟩
  | cons c cs =>
    by_cases hc : c = '='
    · subst hc
      exact ⟨rfl, Nat.succ_le_succ (Nat.zero_le _)⟩
    · rw [List.cons_append, hshort hc, hshort hc]
      exact ⟨rfl, Nat.zero_le _⟩

end Counts

theorem stringCount?_append {cs : List Char} {n : Nat} (hn : stringCount? cs = some n)
    (rest : List Char) : stringCount? (cs ++ rest) = some n ∧ n ≤ cs.length := by
  unfold stringCount? at hn ⊢
  split at hn
  · rename_i hquote
    have hmem : '"' ∈ cs := by simpa using hquote
    cases hn
    rw [takeWhile_append_of_mem hmem (by decide), if_pos (by simp [hmem])]
    exact ⟨rfl, length_takeWhile_lt_of_mem hmem (by decide)⟩
  · cases hn

/-! ## Lexemes -/

/-- **A lexeme does not change with a blank or a line end after the text.** -/
theorem munch?_before_break {c : Char} {cs rest : List Char} {kind : Kind} {count : Nat}
    (hm : munch? c cs = some (kind, count)) (hrest : BeforeBreak rest) :
    munch? c (cs ++ rest) = some (kind, count) ∧ count ≤ cs.length := by
  unfold munch? at hm ⊢
  split at hm
  · cases hm
    rw [takeWhile_before_break cs hrest (by decide) (by decide)]
    exact ⟨if_pos ‹_›, (List.takeWhile_prefix _).length_le⟩
  rw [if_neg ‹_›]
  split at hm
  · cases hm
    rw [numberCount_before_break cs hrest]
    exact ⟨if_pos ‹_›, (isLongest_number cs).le⟩
  rw [if_neg ‹_›]
  split at hm
  · rw [if_pos ‹_›]
    obtain ⟨n, hn, heq⟩ := Option.map_eq_some_iff.1 hm
    cases heq
    obtain ⟨hcount, hle⟩ := stringCount?_append hn rest
    rw [hcount]
    exact ⟨rfl, hle⟩
  rw [if_neg ‹_›]
  split at hm
  · cases hm
    exact ⟨if_pos ‹_›, Nat.zero_le _⟩
  rw [if_neg ‹_›]
  split at hm
  -- A carriage return is a token only with a line end after it, so it is not last.
  · rw [if_pos ‹_›]
    split at hm
    · rename_i hhead
      cases hm
      obtain ⟨ds, rfl⟩ := List.head?_eq_some_iff.1 hhead
      exact ⟨rfl, by simp⟩
    · cases hm
  rw [if_neg ‹_›]
  split at hm
  · cases hm
    exact ⟨rfl, Nat.zero_le _⟩
  · rename_i long short _ _
    obtain ⟨happend, hle⟩ := withEquals_before_break cs hrest long short
    rw [Option.some.inj hm] at happend hle
    exact ⟨congrArg some happend, hle⟩
  · cases hm

/-- One token of a text with a break behind it. -/
theorem scanFrom_token_before_break {c : Char} {cs rest : List Char} {kind : Kind} {count : Nat}
    {literal : Value} (hm : munch? c cs = some (kind, count))
    (hl : literalOf? kind (c :: cs.take count) = some literal) (line : Int) (hrest : BeforeBreak rest) :
    scanFrom line (c :: cs ++ rest) =
      (scanFrom (line + Text.lineEnds (c :: cs.take count)) (cs.drop count ++ rest)).map
        (⟨kind, String.ofList (c :: cs.take count), literal, line⟩ :: ·) := by
  obtain ⟨hm', hle⟩ := munch?_before_break hm hrest
  have htake : (cs ++ rest).take count = cs.take count := List.take_append_of_le_length hle
  rw [List.cons_append, scanFrom_token hm' (by rw [htake]; exact hl), htake,
    List.drop_append_of_le_length hle]

/-! ## Texts -/

/-- A comment stops before a line end. -/
theorem dropWhile_before_line (cs more : List Char) :
    (cs ++ '\n' :: more).dropWhile (· != '\n') = cs.dropWhile (· != '\n') ++ '\n' :: more := by
  rw [List.dropWhile_append]
  split
  · rename_i hempty
    rw [List.isEmpty_iff.1 hempty]
    rfl
  · rfl

/-- The token of a line end. -/
def lineEnd (line : Int) : Token := ⟨.newline, "\n", .nothing, line⟩

theorem scanFrom_lineEnd (line : Int) (rest : List Char) :
    scanFrom line ('\n' :: rest) = (scanFrom (line + 1) rest).map (lineEnd line :: ·) :=
  @scanFrom_token '\n' rest .newline 0 .nothing rfl rfl line

/-- **A text that scans by itself scans the same before a line end.** -/
theorem scanFrom_before_line {line : Int} {cs : List Char} {us : List Token}
    (h : scanFrom line cs = .ok us) : ∃ ts next, us = ts ++ [endOfInput next] ∧
      Scans line cs ts next fun rest => ∃ more, rest = '\n' :: more := by
  fun_induction scanFrom line cs generalizing us with
  | case1 line =>
    cases h
    refine ⟨[], line, rfl, fun rest _ => ?_⟩
    rw [List.nil_append]
    cases scanFrom line rest <;> rfl
  | case2 line c rest hblank ih =>
    obtain ⟨ts, next, rfl, hscans⟩ := ih h
    refine ⟨ts, next, rfl, fun more hmore => ?_⟩
    rw [List.cons_append, scanFrom_blank hblank]
    exact hscans more hmore
  | case3 line c rest hblank hcomment ih =>
    obtain rfl : c = '#' := beq_iff_eq.1 hcomment
    obtain ⟨ts, next, rfl, hscans⟩ := ih h
    refine ⟨ts, next, rfl, ?_⟩
    rintro _ ⟨more, rfl⟩
    rw [List.cons_append, scanFrom_comment, dropWhile_before_line]
    exact hscans _ ⟨more, rfl⟩
  | case4 line c rest hblank hcomment hm => cases h
  | case5 line c rest hblank hcomment kind count hm lexeme => cases h
  | case6 line c rest hblank hcomment kind count hm lexeme literal hl tokens hscan =>
    rename_i ih
    cases h
    obtain ⟨ts, next, rfl, hscans⟩ := ih hscan
    refine ⟨_ :: ts, next, rfl, ?_⟩
    rintro _ ⟨more, rfl⟩
    rw [scanFrom_token_before_break hm hl line (beforeBreak_line more), hscans _ ⟨more, rfl⟩]
    cases scanFrom next ('\n' :: more) <;> rfl
  | case7 line c rest hblank hcomment kind count hm lexeme literal hl e hscan => cases h

end Parlance.Token

namespace Parlance

open Token

/-- The tokens of a text with a line end behind it. -/
theorem scan_line {text : String} {us : List Token} (h : scan text = .ok us) :
    ∃ ts last, us = ts ++ [endOfInput last] ∧ (∀ t ∈ ts, t.kind ≠ .endOfInput) ∧
      scan (text ++ "\n") = .ok (ts ++ [lineEnd last, endOfInput (last + 1)]) := by
  obtain ⟨ts, last, rfl, hscans⟩ := scanFrom_before_line h
  refine ⟨ts, last, rfl, kind_ne_endOfInput h, ?_⟩
  have hline : (text ++ "\n").toList = text.toList ++ ['\n'] := by rw [String.toList_append]; rfl
  unfold scan
  rw [hline, hscans ['\n'] ⟨[], rfl⟩, scanFrom_lineEnd, scanFrom_nil]
  rfl

end Parlance
