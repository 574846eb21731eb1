import Parlance.Proofs.Token.Proper

/-!
# Scanning whole lines

No token other than a line end reaches over the last line end of a text, so what is put after whole
lines leaves their tokens as they are. A text of whole lines is a piece (`Scans`) before any rest.

* `munch?_append`: the lexeme at a place of whole lines is the same with any text after the lines.
* `scanFrom_lines`: the scan of whole lines, and what it says of the scan of a longer text.
-/

namespace Parlance.Token

/-- A line end is last. -/
def EndsLine (cs : List Char) : Prop := ∃ ds, cs = ds ++ ['\n']

namespace EndsLine

theorem mem {cs : List Char} (h : EndsLine cs) : '\n' ∈ cs := by
  obtain ⟨ds, rfl⟩ := h
  simp

theorem drop {cs : List Char} (h : EndsLine cs) {n : Nat} (hn : n < cs.length) :
    EndsLine (cs.drop n) := by
  obtain ⟨ds, rfl⟩ := h
  rw [List.length_append, List.length_singleton] at hn
  exact ⟨ds.drop n, List.drop_append_of_le_length (by omega)⟩

theorem tail {c : Char} {cs : List Char} (h : EndsLine (c :: cs)) (hc : c ≠ '\n') : EndsLine cs := by
  cases cs with
  | nil =>
    obtain ⟨ds, hds⟩ := h
    have hlast := congrArg List.getLast? hds
    rw [List.getLast?_concat] at hlast
    exact absurd (Option.some.inj hlast) hc
  | cons d cs => exact h.drop (n := 1) (by simp)

end EndsLine

/-! ## Counts of characters -/

theorem length_takeWhile_lt_of_mem {p : Char → Bool} {c : Char} {cs : List Char} (hc : c ∈ cs)
    (hp : p c = false) : (cs.takeWhile p).length < cs.length := by
  refine Nat.lt_of_le_of_ne (List.takeWhile_prefix p).length_le fun hlen => ?_
  rw [← (List.takeWhile_prefix p).eq_of_length hlen] at hc
  exact absurd (List.all_eq_true.1 List.all_takeWhile _ hc) (by simp [hp])

theorem takeWhile_append_of_mem {p : Char → Bool} {c : Char} {cs : List Char} (hc : c ∈ cs)
    (hp : p c = false) (more : List Char) : (cs ++ more).takeWhile p = cs.takeWhile p := by
  rw [List.takeWhile_append, if_neg (Nat.ne_of_lt (length_takeWhile_lt_of_mem hc hp))]

section Counts

variable {cs : List Char} (h : EndsLine cs) (more : List Char)
include h

theorem digitCount_line :
    digitCount (cs ++ more) = digitCount cs ∧ digitCount cs < cs.length := by
  unfold digitCount
  have hp : Text.isDigit '\n' = false := by decide
  exact ⟨by rw [takeWhile_append_of_mem h.mem hp], length_takeWhile_lt_of_mem h.mem hp⟩

theorem fractionCount_line :
    fractionCount (cs ++ more) = fractionCount cs ∧ fractionCount cs < cs.length := by
  cases cs with
  | nil => exact absurd h.mem (List.not_mem_nil)
  | cons c cs =>
    by_cases hc : c = '.'
    · subst hc
      obtain ⟨happend, hlt⟩ := digitCount_line (h.tail (by decide)) more
      simp only [List.cons_append, fractionCount, happend, List.length_cons, true_and]
      split <;> omega
    · have hnone (ds : List Char) : fractionCount (c :: ds) = 0 := by
        unfold fractionCount
        split
        · rename_i heq
          exact absurd (List.cons.inj heq).1 hc
        · rfl
      rw [List.cons_append, hnone, hnone]
      exact ⟨rfl, Nat.succ_pos _⟩

theorem exponentCount_line :
    exponentCount (cs ++ more) = exponentCount cs ∧ exponentCount cs < cs.length := by
  cases cs with
  | nil => exact absurd h.mem (List.not_mem_nil)
  | cons c cs =>
    by_cases hc : (c == 'e' || c == 'E') = true
    · have htail : EndsLine cs := h.tail (by rintro rfl; exact absurd hc (by decide))
      cases cs with
      | nil => exact absurd htail.mem (List.not_mem_nil)
      | cons d cs =>
        obtain ⟨happend, hlt⟩ := digitCount_line htail more
        rw [List.cons_append] at happend
        simp only [List.cons_append, exponentCount, hc, if_true, happend, List.length_cons] at *
        by_cases hd : (d == '+' || d == '-') = true
        · obtain ⟨happend', hlt'⟩ := digitCount_line
            (htail.tail (by rintro rfl; exact absurd hd (by decide))) more
          simp only [hd, if_true, happend', true_and]
          split <;> omega
        · simp only [if_neg hd, true_and]
          split <;> omega
    · simp [exponentCount, hc]

theorem numberCount_line :
    numberCount (cs ++ more) = numberCount cs ∧ numberCount cs < cs.length := by
  obtain ⟨hwhole, hwholeLt⟩ := digitCount_line h more
  obtain ⟨hfraction, hfractionLt⟩ := fractionCount_line (h.drop hwholeLt) more
  rw [List.length_drop] at hfractionLt
  have hbothLt : digitCount cs + fractionCount (cs.drop (digitCount cs)) < cs.length := by omega
  obtain ⟨hexponent, hexponentLt⟩ := exponentCount_line (h.drop hbothLt) more
  rw [List.length_drop] at hexponentLt
  unfold numberCount
  dsimp only
  rw [hwhole, List.drop_append_of_le_length (Nat.le_of_lt hwholeLt), hfraction,
    List.drop_append_of_le_length (Nat.le_of_lt hbothLt), hexponent]
  exact ⟨rfl, by omega⟩

theorem withEquals_line (long short : Kind) :
    withEquals long short (cs ++ more) = withEquals long short cs ∧
      (withEquals long short cs).2 < cs.length := by
  cases cs with
  | nil => exact absurd h.mem (List.not_mem_nil)
  | cons c cs =>
    by_cases hc : c = '='
    · subst hc
      have hpos : 0 < cs.length := List.length_pos_of_mem (h.tail (by decide)).mem
      exact ⟨rfl, Nat.succ_lt_succ hpos⟩
    · have hshort (ds : List Char) : withEquals long short (c :: ds) = (short, 0) := by
        unfold withEquals
        split
        · rename_i heq
          exact absurd (List.cons.inj heq).1 hc
        · rfl
      rw [List.cons_append, hshort, hshort]
      exact ⟨rfl, Nat.succ_pos _⟩

/-- A quote among whole lines stands before the last line end. -/
theorem stringCount?_line {n : Nat} (hn : stringCount? cs = some n) :
    stringCount? (cs ++ more) = some n ∧ n < cs.length := by
  unfold stringCount? at hn ⊢
  split at hn
  · rename_i hquote
    have hmem : '"' ∈ cs := by simpa using hquote
    cases hn
    rw [takeWhile_append_of_mem hmem (by decide), if_pos (by simp [hmem])]
    refine ⟨rfl, ?_⟩
    obtain ⟨ds, rfl⟩ := h
    have hds : '"' ∈ ds := by simpa using hmem
    have hlt := length_takeWhile_lt_of_mem (p := (· != '"')) hds (by decide)
    rw [takeWhile_append_of_mem hds (by decide), List.length_append]
    exact Nat.succ_lt_succ hlt
  · cases hn

end Counts

/-! ## Lexemes -/

/-- **A lexeme among whole lines does not change with what follows the lines.** Only a line end can
take their last character. -/
theorem munch?_append {c : Char} {rest : List Char} {kind : Kind} {count : Nat}
    (h : EndsLine (c :: rest)) (hm : munch? c rest = some (kind, count)) (more : List Char) :
    munch? c (rest ++ more) = some (kind, count) ∧
      (count < rest.length ∨ kind = .newline ∧ count ≤ rest.length) := by
  by_cases hline : c = '\n'
  · subst hline
    obtain ⟨rfl, rfl⟩ : kind = .newline ∧ count = 0 := by cases hm; exact ⟨rfl, rfl⟩
    exact ⟨rfl, .inr ⟨rfl, Nat.zero_le _⟩⟩
  have hrest : EndsLine rest := h.tail hline
  have hpos : 0 < rest.length := List.length_pos_of_mem hrest.mem
  unfold munch? at hm ⊢
  split at hm
  -- A word stops before the line end.
  · have hname : isNameChar '\n' = false := by decide
    cases hm
    rw [takeWhile_append_of_mem hrest.mem hname]
    exact ⟨if_pos ‹_›, .inl (length_takeWhile_lt_of_mem hrest.mem hname)⟩
  rw [if_neg ‹_›]
  split at hm
  · obtain ⟨happend, hlt⟩ := numberCount_line hrest more
    cases hm
    rw [happend]
    exact ⟨if_pos ‹_›, .inl hlt⟩
  rw [if_neg ‹_›]
  split at hm
  · rw [if_pos ‹_›]
    obtain ⟨n, hn, heq⟩ := Option.map_eq_some_iff.1 hm
    cases heq
    obtain ⟨happend, hlt⟩ := stringCount?_line hrest more hn
    rw [happend]
    exact ⟨rfl, .inl hlt⟩
  rw [if_neg ‹_›]
  split at hm
  · exact absurd (beq_iff_eq.1 ‹_›) hline
  rw [if_neg ‹_›]
  split at hm
  · rw [if_pos ‹_›]
    split at hm
    · rename_i hhead
      cases hm
      obtain ⟨ds, rfl⟩ := List.head?_eq_some_iff.1 hhead
      exact ⟨rfl, .inr ⟨rfl, by simp⟩⟩
    · cases hm
  rw [if_neg ‹_›]
  split at hm
  · cases hm
    exact ⟨rfl, .inl hpos⟩
  · rename_i long short _ _
    obtain ⟨happend, hlt⟩ := withEquals_line hrest more long short
    rw [Option.some.inj hm] at happend hlt
    exact ⟨congrArg some happend, .inl hlt⟩
  · cases hm

/-! ## Whole lines -/

theorem scanFrom_blank {c : Char} (h : (c == ' ' || c == '\t') = true) (line : Int)
    (rest : List Char) : scanFrom line (c :: rest) = scanFrom line rest := by
  rw [scanFrom.eq_def]
  exact if_pos h

theorem scanFrom_comment (line : Int) (rest : List Char) :
    scanFrom line ('#' :: rest) = scanFrom line (rest.dropWhile (· != '\n')) := by
  rw [scanFrom.eq_def]
  rfl

/-- A comment among whole lines stops before a line end. -/
theorem dropWhile_line {cs : List Char} (h : EndsLine cs) :
    EndsLine (cs.dropWhile (· != '\n')) ∧
      ∀ more, (cs ++ more).dropWhile (· != '\n') = cs.dropWhile (· != '\n') ++ more := by
  have hends : EndsLine (cs.dropWhile (· != '\n')) := by
    obtain ⟨ds, rfl⟩ := h
    rw [List.dropWhile_append]
    split
    · exact ⟨[], rfl⟩
    · exact ⟨_, rfl⟩
  refine ⟨hends, fun more => ?_⟩
  rw [List.dropWhile_append, if_neg]
  rw [List.isEmpty_iff]
  exact List.ne_nil_of_mem hends.mem

/-- What a lexeme leaves of whole lines: whole lines again, or nothing if it is their last line end. -/
theorem drop_lexeme {c : Char} {rest : List Char} {kind : Kind} {count : Nat}
    (h : EndsLine (c :: rest)) (hm : munch? c rest = some (kind, count)) :
    count ≤ rest.length ∧ (rest.drop count = [] ∧ kind = .newline ∨ EndsLine (rest.drop count)) := by
  rcases (munch?_append h hm []).2 with hlt | ⟨hkind, hle⟩
  · exact ⟨Nat.le_of_lt hlt, .inr (h.drop (n := count + 1) (Nat.succ_lt_succ hlt))⟩
  · rcases Nat.lt_or_eq_of_le hle with hlt | rfl
    · exact ⟨hle, .inr (h.drop (n := count + 1) (Nat.succ_lt_succ hlt))⟩
    · exact ⟨hle, .inl ⟨List.drop_length, hkind⟩⟩

/-- **Whole lines scan the same before any rest**, and their last token is a line end. -/
theorem scanFrom_lines {line : Int} {cs : List Char} {us : List Token} (hcs : cs = [] ∨ EndsLine cs)
    (h : scanFrom line cs = .ok us) : ∃ ts next, us = ts ++ [endOfInput next] ∧
      (cs ≠ [] → ∃ before t, ts = before ++ [t] ∧ t.kind = .newline) ∧
      Scans line cs ts next fun _ => True := by
  fun_induction scanFrom line cs generalizing us with
  | case1 line =>
    cases h
    refine ⟨[], line, rfl, fun hne => absurd rfl hne, fun rest _ => ?_⟩
    rw [List.nil_append]
    cases scanFrom line rest <;> rfl
  | case2 line c rest hblank ih =>
    have hrest : EndsLine rest := (hcs.resolve_left (by simp)).tail (by
      rintro rfl
      exact absurd hblank (by decide))
    obtain ⟨ts, next, rfl, hlast, hscans⟩ := ih (.inr hrest) h
    refine ⟨ts, next, rfl, fun _ => hlast (List.ne_nil_of_mem hrest.mem), fun more hmore => ?_⟩
    rw [List.cons_append, scanFrom_blank hblank]
    exact hscans more hmore
  | case3 line c rest hblank hcomment ih =>
    obtain rfl : c = '#' := beq_iff_eq.1 hcomment
    have hrest : EndsLine rest := (hcs.resolve_left (by simp)).tail (by decide)
    obtain ⟨hdrop, happend⟩ := dropWhile_line hrest
    obtain ⟨ts, next, rfl, hlast, hscans⟩ := ih (.inr hdrop) h
    refine ⟨ts, next, rfl, fun _ => hlast (List.ne_nil_of_mem hdrop.mem), fun more hmore => ?_⟩
    rw [List.cons_append, scanFrom_comment, happend]
    exact hscans more hmore
  | case4 line c rest hblank hcomment hm => cases h
  | case5 line c rest hblank hcomment kind count hm lexeme => cases h
  | case6 line c rest hblank hcomment kind count hm lexeme literal hl tokens hscan =>
    rename_i ih
    cases h
    have hends : EndsLine (c :: rest) := hcs.resolve_left (by simp)
    obtain ⟨hle, hafter⟩ := drop_lexeme hends hm
    obtain ⟨ts, next, rfl, hlast, hscans⟩ := ih (hafter.imp_left And.left) hscan
    refine ⟨_ :: ts, next, rfl, fun _ => ?_, fun more hmore => ?_⟩
    · rcases hafter with ⟨hnil, hnewline⟩ | hafter
      · rw [hnil, scanFrom_nil] at hscan
        have heq : [] ++ [_] = ts ++ [endOfInput next] := Except.ok.inj hscan
        obtain ⟨rfl, -⟩ := List.append_inj' heq rfl
        exact ⟨[], _, rfl, hnewline⟩
      · obtain ⟨before, t, rfl, ht⟩ := hlast (List.ne_nil_of_mem hafter.mem)
        exact ⟨_ :: before, t, rfl, ht⟩
    · have htake : (rest ++ more).take count = rest.take count :=
        List.take_append_of_le_length hle
      rw [List.cons_append, scanFrom_token (munch?_append hends hm more).1 (by rw [htake]; exact hl),
        htake, List.drop_append_of_le_length hle, hscans more hmore]
      cases scanFrom next more <;> rfl
  | case7 line c rest hblank hcomment kind count hm lexeme literal hl e hscan => cases h

end Parlance.Token
