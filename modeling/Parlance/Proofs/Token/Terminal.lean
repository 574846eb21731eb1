import Mathlib.Computability.Language
import Parlance.Proofs.Token.Proper

/-!
# The lexemes of each kind

The lexemes of a kind are a regular language (`Terminal`). The scanner counts characters: digits, then a
fraction, then an exponent, each as long as it can be. `IsLongest` says that such a count is the longest
prefix in a language, and goes from parts to wholes: so the scanner takes at every place the longest prefix
that is a lexeme of any kind (`munch?_longest`), and finds none only if there is none
(`not_matches_of_munch?`).
-/

open scoped Computability

namespace Parlance.Token

namespace Terminal

/-- The words of one character of a class. -/
def letter (p : Char → Bool) : Language Char := {w | ∃ c, p c = true ∧ w = [c]}

def digits : Language Char := letter Text.isDigit * (letter Text.isDigit)∗

/-- A point and digits, or nothing. -/
def fraction : Language Char := 1 + letter (· == '.') * digits

def isMark (c : Char) : Bool := c == 'e' || c == 'E'

def isSign (c : Char) : Bool := c == '+' || c == '-'

/-- A mark, a sign or none and digits, or nothing. -/
def exponent : Language Char := 1 + letter isMark * ((1 + letter isSign) * digits)

def number : Language Char := digits * fraction * exponent

def string : Language Char := letter (· == '"') * ((letter (· != '"'))∗ * letter (· == '"'))

def name : Language Char := letter isNameStart * (letter isNameChar)∗

def newline : Language Char := (1 + letter (· == '\r')) * letter (· == '\n')

/-- The kinds with one lexeme. -/
def signs : List (List Char × Kind) :=
  [(['('], .leftParen), ([')'], .rightParen), (['\x7b'], .leftBrace), (['\x7d'], .rightBrace),
   (['['], .leftBracket), ([']'], .rightBracket), ([','], .comma), (['.'], .dot),
   (['+', '='], .plusAssign), (['-', '='], .minusAssign), (['+'], .plus), (['-'], .minus),
   (['*'], .star), (['/'], .slash), (['%'], .percent), (['=', '='], .equal),
   (['!', '='], .bangEqual), (['!'], .bang), (['<', '='], .lessEqual), (['>', '='], .greaterEqual),
   (['<'], .less), (['>'], .greater), (['='], .assign)]

end Terminal

open Terminal

/-- A text is a lexeme of a kind. A name that is a keyword is of the keyword's kind. -/
inductive Matches : Kind → List Char → Prop where
  | number {w : List Char} (h : w ∈ number) : Matches .number w
  | string {w : List Char} (h : w ∈ string) : Matches .string w
  | name {w : List Char} (h : w ∈ name) : Matches (Kind.ofWord (String.ofList w)) w
  | newline {w : List Char} (h : w ∈ newline) : Matches .newline w
  | sign {kind : Kind} {w : List Char} (h : (w, kind) ∈ signs) : Matches kind w

/-! ## Membership -/

namespace Terminal

variable {p : Char → Bool} {c : Char} {w : List Char} {l : Language Char}

theorem eq_of_isMark (h : isMark c = true) : c = 'e' ∨ c = 'E' := by
  unfold isMark at h
  rwa [Bool.or_eq_true, beq_iff_eq, beq_iff_eq] at h

theorem eq_of_isSign (h : isSign c = true) : c = '+' ∨ c = '-' := by
  unfold isSign at h
  rwa [Bool.or_eq_true, beq_iff_eq, beq_iff_eq] at h

theorem mem_letter : w ∈ letter p ↔ ∃ c, p c = true ∧ w = [c] := Iff.rfl

theorem mem_letter_mul : w ∈ letter p * l ↔ ∃ c v, w = c :: v ∧ p c = true ∧ v ∈ l := by
  rw [Language.mem_mul]
  constructor
  · rintro ⟨_, ⟨c, hc, rfl⟩, v, hv, rfl⟩
    exact ⟨c, v, rfl, hc, hv⟩
  · rintro ⟨c, v, rfl, hc, hv⟩
    exact ⟨[c], ⟨c, hc, rfl⟩, v, hv, rfl⟩

theorem nil_notMem_letter_mul : [] ∉ letter p * l := by
  simp [mem_letter_mul]

theorem cons_mem_letter_mul : c :: w ∈ letter p * l ↔ p c = true ∧ w ∈ l := by
  rw [mem_letter_mul]
  constructor
  · rintro ⟨_, _, heq, hc, hv⟩
    obtain ⟨rfl, rfl⟩ := List.cons.inj heq
    exact ⟨hc, hv⟩
  · rintro ⟨hc, hv⟩
    exact ⟨c, w, rfl, hc, hv⟩

theorem mem_kstar_letter : w ∈ (letter p)∗ ↔ ∀ c ∈ w, p c = true := by
  rw [Language.mem_kstar]
  constructor
  · rintro ⟨parts, rfl, hparts⟩ c hc
    obtain ⟨part, hpart, hmem⟩ := List.mem_flatten.1 hc
    obtain ⟨d, hd, rfl⟩ := hparts part hpart
    rwa [List.mem_singleton.1 hmem]
  · intro hw
    refine ⟨w.map fun c => [c], by rw [← List.flatMap_def, List.flatMap_singleton'], fun part hpart => ?_⟩
    obtain ⟨c, hc, rfl⟩ := List.mem_map.1 hpart
    exact ⟨c, hw c hc, rfl⟩

theorem mem_digits : w ∈ digits ↔ w ≠ [] ∧ ∀ c ∈ w, Text.isDigit c = true := by
  cases w with
  | nil => simp [digits, nil_notMem_letter_mul]
  | cons c w => simp [digits, cons_mem_letter_mul, mem_kstar_letter]

theorem mem_fraction : w ∈ fraction ↔ w = [] ∨ ∃ ds ∈ digits, w = '.' :: ds := by
  rw [fraction, Language.mem_add, Language.mem_one, mem_letter_mul]
  simp only [beq_iff_eq]
  refine or_congr_right ⟨?_, ?_⟩
  · rintro ⟨_, ds, rfl, rfl, hds⟩
    exact ⟨ds, hds, rfl⟩
  · rintro ⟨ds, hds, rfl⟩
    exact ⟨'.', ds, rfl, rfl, hds⟩

theorem mem_exponent : w ∈ exponent ↔ w = [] ∨ ∃ c sign ds, isMark c = true ∧
    (sign = [] ∨ sign = ['+'] ∨ sign = ['-']) ∧ ds ∈ digits ∧ w = c :: (sign ++ ds) := by
  rw [exponent, Language.mem_add, Language.mem_one, mem_letter_mul]
  refine or_congr_right ⟨?_, ?_⟩
  · rintro ⟨c, v, rfl, hc, hv⟩
    obtain ⟨sign, hsign, ds, hds, rfl⟩ := Language.mem_mul.1 hv
    refine ⟨c, sign, ds, hc, ?_, hds, rfl⟩
    rcases hsign with rfl | ⟨d, hd, rfl⟩
    · exact .inl rfl
    · rcases eq_of_isSign hd with rfl | rfl
      · exact .inr (.inl rfl)
      · exact .inr (.inr rfl)
  · rintro ⟨c, sign, ds, hc, hsign, hds, rfl⟩
    refine ⟨c, sign ++ ds, rfl, hc, Language.append_mem_mul ?_ hds⟩
    rcases hsign with rfl | rfl | rfl
    · exact .inl rfl
    · exact .inr ⟨'+', rfl, rfl⟩
    · exact .inr ⟨'-', rfl, rfl⟩

/-- Digits, with a sign before them or without. -/
theorem signed_digits :
    (1 + letter isSign) * digits = digits + letter isSign * digits := by
  rw [add_mul, one_mul]

theorem cons_mem_number : c :: w ∈ number ↔
    Text.isDigit c = true ∧ w ∈ (letter Text.isDigit)∗ * (fraction * exponent) := by
  rw [number, digits, mul_assoc, mul_assoc, cons_mem_letter_mul]

theorem cons_mem_string : c :: w ∈ string ↔ c = '"' ∧ ∃ body, '"' ∉ body ∧ w = body ++ ['"'] := by
  rw [string, cons_mem_letter_mul, Language.mem_mul, beq_iff_eq]
  simp only [mem_kstar_letter, mem_letter, bne_iff_ne, beq_iff_eq]
  refine and_congr_right fun _ => ⟨?_, ?_⟩
  · rintro ⟨body, hbody, _, ⟨_, rfl, rfl⟩, rfl⟩
    exact ⟨body, fun hquote => hbody _ hquote rfl, rfl⟩
  · rintro ⟨body, hbody, rfl⟩
    refine ⟨body, fun c hc => ?_, ['"'], ⟨_, rfl, rfl⟩, rfl⟩
    rintro rfl
    exact hbody hc

theorem mem_newline : w ∈ newline ↔ w = ['\n'] ∨ w = ['\r', '\n'] := by
  rw [newline, add_mul, one_mul, Language.mem_add]
  simp [mem_letter_mul, mem_letter]

end Terminal

/-! ## The longest prefix in a language -/

/-- The first `n` characters of `cs` are its longest prefix in `l`. -/
structure IsLongest (l : Language Char) (cs : List Char) (n : Nat) : Prop where
  le : n ≤ cs.length
  mem : cs.take n ∈ l
  longest {w : List Char} : w ∈ l → w <+: cs → w.length ≤ n

/-- The longest prefixes of two parts are that of the whole, if a word of the first part that goes on with
the second is the longest. -/
theorem IsLongest.append {l m : Language Char} {cs : List Char} {n k : Nat} (h : IsLongest l cs n)
    (h' : IsLongest m (cs.drop n) k)
    (hgo : ∀ u ∈ l, ∀ c v rest, c :: v ∈ m → cs = u ++ c :: rest → u.length = n) :
    IsLongest (l * m) cs (n + k) where
  le := by
    have hle := h.le
    have hle' := h'.le
    rw [List.length_drop] at hle'
    omega
  mem := by
    rw [List.take_add]
    exact Language.append_mem_mul h.mem h'.mem
  longest := by
    intro w hw hpre
    obtain ⟨u, hu, v, hv, rfl⟩ := Language.mem_mul.1 hw
    obtain ⟨rest, hcs⟩ := hpre
    rw [List.append_assoc] at hcs
    cases v with
    | nil =>
      have hle := h.longest hu ⟨rest, hcs⟩
      simp only [List.append_nil]
      omega
    | cons c v =>
      have hlength := hgo u hu c v (v ++ rest) hv hcs.symm
      have hdrop : cs.drop n = (c :: v) ++ rest := by
        rw [← hcs, ← hlength, List.drop_left]
      have hle := h'.longest hv ⟨rest, hdrop.symm⟩
      rw [List.length_append]
      omega

theorem isLongest_takeWhile (p : Char → Bool) (cs : List Char) :
    IsLongest (letter p)∗ cs (cs.takeWhile p).length where
  le := (List.takeWhile_prefix p).length_le
  mem := by
    rw [take_length_takeWhile, mem_kstar_letter]
    exact List.all_eq_true.1 List.all_takeWhile
  longest := by
    rintro w hw ⟨rest, rfl⟩
    rw [List.takeWhile_append_of_pos (mem_kstar_letter.1 hw), List.length_append]
    omega

theorem IsLongest.unique {l : Language Char} {cs : List Char} {n k : Nat} (h : IsLongest l cs n)
    (h' : IsLongest l cs k) : n = k := by
  have hle := h.le
  have hle' := h'.le
  have hk := h.longest h'.mem (List.take_prefix k cs)
  have hn := h'.longest h.mem (List.take_prefix n cs)
  rw [List.length_take] at hk hn
  omega

/-- The longest word is the longest in itself. -/
theorem IsLongest.take {l : Language Char} {cs : List Char} {n : Nat} (h : IsLongest l cs n) :
    IsLongest l (cs.take n) n where
  le := by
    have hle := h.le
    rw [List.length_take]
    omega
  mem := by
    rw [List.take_take, Nat.min_self]
    exact h.mem
  longest hw hpre := h.longest hw (hpre.trans (List.take_prefix n cs))

/-- The longest word stays the longest before a character that no word holds, whatever follows it. -/
theorem IsLongest.append_stop {l : Language Char} {cs : List Char} {n : Nat} {stop : Char}
    (h : IsLongest l cs n) (hstop : ∀ w ∈ l, stop ∉ w) (more : List Char) :
    IsLongest l (cs ++ stop :: more) n where
  le := by
    have hle := h.le
    rw [List.length_append]
    omega
  mem := by
    rw [List.take_append_of_le_length h.le]
    exact h.mem
  longest := by
    intro w hw hpre
    -- a word that ends behind `cs` reaches over the character
    have hshort : w.length ≤ cs.length := by
      by_contra hlong
      have hstops : cs ++ [stop] <+: cs ++ stop :: more := ⟨more, by simp⟩
      have hover : cs ++ [stop] <+: w := by
        refine List.prefix_of_prefix_length_le hstops hpre ?_
        rw [List.length_append, List.length_singleton]
        omega
      exact hstop w hw (hover.subset (by simp))
    exact h.longest hw (List.prefix_of_prefix_length_le hpre (List.prefix_append cs _) hshort)

/-! ## Numbers -/

/-- A count of the longest prefix in a language without the empty word: zero where no word stands first. -/
structure Counts (l : Language Char) (count : List Char → Nat) : Prop where
  le (cs : List Char) : count cs ≤ cs.length
  mem {cs : List Char} : count cs ≠ 0 → cs.take (count cs) ∈ l
  longest {cs w : List Char} : w ∈ l → w <+: cs → 0 < w.length ∧ w.length ≤ count cs

/-- A character of a class and at least one more. -/
def countAfter (p : Char → Bool) (count : List Char → Nat) : List Char → Nat
  | c :: cs => if p c then if count cs = 0 then 0 else count cs + 1 else 0
  | [] => 0

namespace Counts

variable {l m : Language Char} {count count' : List Char → Nat}

theorem optional (h : Counts l count) (cs : List Char) : IsLongest (1 + l) cs (count cs) where
  le := h.le cs
  mem := by
    by_cases hzero : count cs = 0
    · rw [hzero]
      exact .inl rfl
    · exact .inr (h.mem hzero)
  longest := by
    rintro w (rfl | hw) hpre
    · exact Nat.zero_le _
    · exact (h.longest hw hpre).2

theorem after (h : Counts l count) (p : Char → Bool) :
    Counts (letter p * l) (countAfter p count) where
  le cs := by
    unfold countAfter
    split
    · rename_i c cs
      have hle := h.le cs
      rw [List.length_cons]
      split
      · split <;> omega
      · exact Nat.zero_le _
    · exact Nat.zero_le _
  mem {cs} hcount := by
    unfold countAfter at hcount ⊢
    split at hcount
    · split at hcount
      · split at hcount
        · exact absurd rfl hcount
        · rename_i hc hpos
          simp only [if_pos hc, if_neg hpos, List.take_succ_cons]
          exact cons_mem_letter_mul.2 ⟨hc, h.mem hpos⟩
      · exact absurd rfl hcount
    · exact absurd rfl hcount
  longest {cs w} hw hpre := by
    obtain ⟨c, v, rfl, hc, hv⟩ := mem_letter_mul.1 hw
    obtain ⟨rest, rfl⟩ := hpre
    obtain ⟨hpos, hle⟩ := h.longest hv ⟨rest, rfl⟩
    simp only [List.cons_append, countAfter, if_pos hc, List.length_cons]
    rw [if_neg (by omega)]
    omega

theorem add (h : Counts l count) (h' : Counts m count') :
    Counts (l + m) fun cs => max (count cs) (count' cs) where
  le cs := Nat.max_le.2 ⟨h.le cs, h'.le cs⟩
  mem {cs} hcount := by
    rcases Nat.le_total (count cs) (count' cs) with hle | hle
    · rw [Nat.max_eq_right hle] at hcount ⊢
      exact .inr (h'.mem hcount)
    · rw [Nat.max_eq_left hle] at hcount ⊢
      exact .inl (h.mem hcount)
  longest {cs w} hw hpre := by
    rcases hw with hw | hw
    · have := h.longest hw hpre
      omega
    · have := h'.longest hw hpre
      omega

end Counts

theorem counts_digits : Counts digits digitCount where
  le cs := (isLongest_takeWhile Text.isDigit cs).le
  mem {cs} hcount := by
    refine mem_digits.2 ⟨?_, mem_kstar_letter.1 (isLongest_takeWhile Text.isDigit cs).mem⟩
    rw [digitCount, take_length_takeWhile]
    exact List.length_pos_iff.1 (Nat.pos_of_ne_zero hcount)
  longest {cs w} hw hpre := by
    obtain ⟨hne, hdigits⟩ := mem_digits.1 hw
    exact ⟨List.length_pos_iff.2 hne,
      (isLongest_takeWhile Text.isDigit cs).longest (mem_kstar_letter.2 hdigits) hpre⟩

theorem isLongest_fraction (cs : List Char) : IsLongest fraction cs (fractionCount cs) := by
  have hcount : fractionCount cs = countAfter (· == '.') digitCount cs := by
    unfold fractionCount countAfter
    split
    · rfl
    · split <;> simp_all
  rw [hcount]
  exact (counts_digits.after _).optional cs

theorem digitCount_of_isSign {c : Char} (h : isSign c = true) (cs : List Char) :
    digitCount (c :: cs) = 0 := by
  rcases eq_of_isSign h with rfl | rfl <;> rfl

theorem isLongest_exponent (cs : List Char) : IsLongest exponent cs (exponentCount cs) := by
  have hcount : exponentCount cs = countAfter isMark
      (fun cs => max (digitCount cs) (countAfter isSign digitCount cs)) cs := by
    match cs with
    | [] => rfl
    | [c] => simp [exponentCount, countAfter, digitCount]
    | c :: d :: more =>
      by_cases hd : isSign d = true
      · have hsign : (d == '+' || d == '-') = true := hd
        simp only [exponentCount, countAfter, isMark, hsign, hd, digitCount_of_isSign hd, if_true,
          Nat.zero_max]
        split_ifs <;> omega
      · have hsign : (d == '+' || d == '-') = false := Bool.eq_false_iff.2 hd
        simp only [exponentCount, countAfter, isMark, hsign, hd, Bool.false_eq_true, if_false,
          Nat.max_zero]
  rw [hcount, exponent, signed_digits]
  exact ((counts_digits.add (counts_digits.after _)).after _).optional cs

theorem isMark_of_cons_mem {c : Char} {w : List Char} (h : c :: w ∈ exponent) : isMark c = true := by
  rcases h with h | h
  · cases h
  · exact (cons_mem_letter_mul.1 h).1

theorem digitCount_append_cons {ds : List Char} {c : Char} (hds : ∀ d ∈ ds, Text.isDigit d = true)
    (hc : Text.isDigit c = false) (rest : List Char) : digitCount (ds ++ c :: rest) = ds.length := by
  unfold digitCount
  rw [takeWhile_append_of_ends hds]
  rintro d _ heq
  rwa [← (List.cons.inj heq).1]

theorem fractionCount_append_mark {u rest : List Char} {c : Char} (hu : u ∈ fraction)
    (hc : isMark c = true) : fractionCount (u ++ c :: rest) = u.length := by
  have hc := eq_of_isMark hc
  rcases mem_fraction.1 hu with rfl | ⟨ds, hds, rfl⟩
  · rcases hc with rfl | rfl <;> rfl
  · obtain ⟨hne, hdigits⟩ := mem_digits.1 hds
    have hdigit : Text.isDigit c = false := by rcases hc with rfl | rfl <;> decide
    have hcount := digitCount_append_cons hdigits hdigit rest
    have hpos := List.length_pos_iff.2 hne
    rw [List.cons_append, fractionCount, hcount, if_neg (by omega), List.length_cons]

/-- What comes after the digits of a number does not start with a digit. -/
theorem not_isDigit_of_cons_mem {c : Char} {w : List Char} (h : c :: w ∈ fraction * exponent) :
    Text.isDigit c = false := by
  obtain ⟨u, hu, v, hv, happend⟩ := Language.mem_mul.1 h
  rcases mem_fraction.1 hu with rfl | ⟨ds, -, rfl⟩
  · subst happend
    rcases eq_of_isMark (isMark_of_cons_mem hv) with rfl | rfl <;> decide
  · rw [← (List.cons.inj happend).1]
    decide

/-- **The rest of a number after its first digit.** -/
theorem isLongest_number (cs : List Char) :
    IsLongest ((letter Text.isDigit)∗ * (fraction * exponent)) cs (numberCount cs) := by
  have htail := (isLongest_fraction (cs.drop (digitCount cs))).append (isLongest_exponent _)
    fun u hu c v rest hv hrest => by rw [hrest, fractionCount_append_mark hu (isMark_of_cons_mem hv)]
  have hwhole := (isLongest_takeWhile Text.isDigit cs).append htail fun u hu c v rest hv hrest => by
    subst hrest
    exact (digitCount_append_cons (mem_kstar_letter.1 hu) (not_isDigit_of_cons_mem hv) rest).symm
  rwa [List.drop_drop, ← Nat.add_assoc] at hwhole

/-- The characters that numbers are written with. -/
def isNumeric (c : Char) : Bool := Text.isDigit c || c == '.' || isMark c || isSign c

theorem isNumeric_of_mem {w : List Char} (h : w ∈ (letter Text.isDigit)∗ * (fraction * exponent)) :
    ∀ c ∈ w, isNumeric c = true := by
  have hdigits {ds : List Char} (hds : ∀ d ∈ ds, Text.isDigit d = true) : ∀ d ∈ ds, isNumeric d = true := by
    intro d hd
    simp [isNumeric, hds d hd]
  obtain ⟨whole, hwhole, _, hrest, rfl⟩ := Language.mem_mul.1 h
  obtain ⟨u, hu, v, hv, rfl⟩ := Language.mem_mul.1 hrest
  have hfraction : ∀ c ∈ u, isNumeric c = true := by
    rcases mem_fraction.1 hu with rfl | ⟨ds, hds, rfl⟩
    · simp
    · exact List.forall_mem_cons.2 ⟨rfl, hdigits (mem_digits.1 hds).2⟩
  have hexponent : ∀ c ∈ v, isNumeric c = true := by
    rcases mem_exponent.1 hv with rfl | ⟨c, sign, ds, hc, hsign, hds, rfl⟩
    · simp
    · have hsigned : ∀ c ∈ sign, isNumeric c = true := by
        rcases hsign with rfl | rfl | rfl <;> simp [isNumeric, isSign]
      refine List.forall_mem_cons.2 ⟨by simp [isNumeric, hc], ?_⟩
      exact List.forall_mem_append.2 ⟨hsigned, hdigits (mem_digits.1 hds).2⟩
  refine List.forall_mem_append.2 ⟨hdigits (mem_kstar_letter.1 hwhole), ?_⟩
  exact List.forall_mem_append.2 ⟨hfraction, hexponent⟩

theorem numberCount_take (cs : List Char) : numberCount (cs.take (numberCount cs)) = numberCount cs :=
  (isLongest_number _).unique (isLongest_number cs).take

theorem numberCount_append_stop {stop : Char} (hstop : isNumeric stop = false) (cs more : List Char) :
    numberCount (cs ++ stop :: more) = numberCount cs := by
  refine (isLongest_number _).unique ((isLongest_number cs).append_stop (fun w hw hmem => ?_) more)
  exact Bool.false_ne_true (hstop.symm.trans (isNumeric_of_mem hw stop hmem))

/-! ## Lexemes of any kind -/

/-- The signs, one or two characters. -/
theorem mem_signs_iff {c : Char} {w : List Char} {kind : Kind} :
    (c :: w, kind) ∈ signs ↔ (sign? c = some kind ∧ w = []) ∨
      (doubleSign? c).map Prod.fst = some kind ∧ w = ['='] ∨
      (doubleSign? c).map Prod.snd = some kind ∧ w = [] := by
  constructor
  · have hall : ∀ p ∈ signs, (sign? (p.1.headD ' ') = some p.2 ∧ p.1.tail = []) ∨
        (doubleSign? (p.1.headD ' ')).map Prod.fst = some p.2 ∧ p.1.tail = ['='] ∨
        (doubleSign? (p.1.headD ' ')).map Prod.snd = some p.2 ∧ p.1.tail = [] := by decide
    exact fun h => hall _ h
  · rintro (⟨h, rfl⟩ | ⟨h, rfl⟩ | ⟨h, rfl⟩)
    · unfold sign? at h
      split at h <;> cases h <;> decide
    · unfold doubleSign? at h
      split at h <;> cases h <;> decide
    · unfold doubleSign? at h
      split at h <;> cases h <;> decide

theorem Matches.exists_cons {kind : Kind} {w : List Char} (h : Matches kind w) :
    ∃ c v, w = c :: v := by
  cases w with
  | cons c v => exact ⟨c, v, rfl⟩
  | nil =>
    exfalso
    cases h with
    | number h =>
      rw [Terminal.number, digits, mul_assoc, mul_assoc] at h
      exact nil_notMem_letter_mul h
    | string h => exact nil_notMem_letter_mul h
    | name h => exact nil_notMem_letter_mul h
    | newline h => simp [mem_newline] at h
    | sign h => simp [signs] at h

/-- A lexeme that stands first is no longer than what the scanner takes. -/
theorem Matches.exists_munch? {kind : Kind} {c : Char} {w rest : List Char}
    (h : Matches kind (c :: w)) (hpre : w <+: rest) :
    ∃ kind' count, munch? c rest = some (kind', count) ∧ w.length ≤ count := by
  cases h with
  | number h =>
    obtain ⟨hc, hw⟩ := cons_mem_number.1 h
    refine ⟨.number, numberCount rest, ?_, (isLongest_number rest).longest hw hpre⟩
    have hname : ¬ isNameStart c = true := by
      intro hname
      rw [isDigit_of_isNameStart hname] at hc
      cases hc
    unfold munch?
    rw [if_neg hname, if_pos hc]
  | string h =>
    obtain ⟨rfl, body, hbody, rfl⟩ := cons_mem_string.1 h
    obtain ⟨more, rfl⟩ := hpre
    exact ⟨_, _, munch?_string hbody, Nat.le_refl _⟩
  | name h =>
    obtain ⟨hc, hw⟩ := cons_mem_letter_mul.1 h
    refine ⟨_, _, if_pos hc, (isLongest_takeWhile isNameChar rest).longest hw hpre⟩
  | newline h =>
    rcases mem_newline.1 h with heq | heq
    · obtain ⟨rfl, rfl⟩ := List.cons.inj heq
      exact ⟨_, _, rfl, Nat.le_refl 0⟩
    · obtain ⟨rfl, rfl⟩ := List.cons.inj heq
      obtain ⟨more, rfl⟩ := hpre
      exact ⟨_, _, rfl, Nat.le_refl 1⟩
  | sign h =>
    rcases mem_signs_iff.1 h with ⟨hsign, rfl⟩ | ⟨hsign, rfl⟩ | ⟨hsign, rfl⟩
    · exact ⟨_, _, munch?_sign hsign rest, Nat.le_refl 0⟩
    · obtain ⟨⟨long, short⟩, hdouble, -⟩ := Option.map_eq_some_iff.1 hsign
      obtain ⟨more, rfl⟩ := hpre
      exact ⟨_, _, munch?_doubleSign hdouble _, Nat.le_refl 1⟩
    · obtain ⟨⟨long, short⟩, hdouble, -⟩ := Option.map_eq_some_iff.1 hsign
      exact ⟨_, _, munch?_doubleSign hdouble _, Nat.zero_le _⟩

theorem exists_body {rest : List Char} {n : Nat} (h : stringCount? rest = some n) :
    ∃ body more, '"' ∉ body ∧ rest = body ++ ['"'] ++ more ∧ n = (body ++ ['"']).length := by
  have hquote : '"' ∈ rest := by
    unfold stringCount? at h
    split at h
    · rename_i hquote
      simpa using hquote
    · cases h
  obtain ⟨body, more, rfl, hbody⟩ := List.eq_append_cons_of_mem hquote
  have hsplit : body ++ '"' :: more = body ++ ['"'] ++ more := by simp
  rw [hsplit] at h ⊢
  have hm : (stringCount? (body ++ ['"'] ++ more)).map (fun n => (Kind.string, n)) =
      some (.string, (body ++ ['"']).length) := munch?_string hbody
  rw [h] at hm
  cases hm
  exact ⟨body, more, hbody, rfl, rfl⟩

/-- What the scanner takes is a lexeme of the kind that it says. -/
theorem Matches.of_munch? {c : Char} {rest : List Char} {kind : Kind} {count : Nat}
    (h : munch? c rest = some (kind, count)) :
    count ≤ rest.length ∧ Matches kind (c :: rest.take count) := by
  unfold munch? at h
  split at h
  · rename_i hc
    have htail := isLongest_takeWhile isNameChar rest
    cases h
    rw [← take_length_takeWhile isNameChar rest, List.length_take, Nat.min_eq_left htail.le]
    exact ⟨htail.le, .name (cons_mem_letter_mul.2 ⟨hc, htail.mem⟩)⟩
  split at h
  · rename_i hc
    have htail := isLongest_number rest
    cases h
    exact ⟨htail.le, .number (cons_mem_number.2 ⟨hc, htail.mem⟩)⟩
  split at h
  · rename_i hc
    obtain rfl := beq_iff_eq.1 hc
    obtain ⟨n, hn, heq⟩ := Option.map_eq_some_iff.1 h
    obtain ⟨body, more, hbody, rfl, rfl⟩ := exists_body hn
    cases heq
    rw [List.take_left]
    exact ⟨by simp, .string (cons_mem_string.2 ⟨rfl, body, hbody, rfl⟩)⟩
  split at h
  · rename_i hc
    obtain rfl := beq_iff_eq.1 hc
    cases h
    exact ⟨Nat.zero_le _, .newline (mem_newline.2 (.inl rfl))⟩
  split at h
  · rename_i hc
    obtain rfl := beq_iff_eq.1 hc
    split at h
    · rename_i hhead
      cases h
      obtain ⟨more, rfl⟩ := List.head?_eq_some_iff.1 hhead
      exact ⟨by simp, .newline (mem_newline.2 (.inr rfl))⟩
    · cases h
  split at h
  · rename_i hsign
    cases h
    exact ⟨Nat.zero_le _, .sign (mem_signs_iff.2 (.inl ⟨hsign, rfl⟩))⟩
  · rename_i hdouble
    unfold withEquals at h
    split at h
    · cases h
      exact ⟨by simp, .sign (mem_signs_iff.2 (.inr (.inl ⟨by rw [hdouble]; rfl, rfl⟩)))⟩
    · cases h
      exact ⟨Nat.zero_le _, .sign (mem_signs_iff.2 (.inr (.inr ⟨by rw [hdouble]; rfl, rfl⟩)))⟩
  · cases h

/-- A lexeme of a kind, and no lexeme of any kind that stands there is longer. -/
structure Longest (kind : Kind) (lexeme rest : List Char) : Prop where
  matched : Matches kind lexeme
  longest {kind' : Kind} {w : List Char} : Matches kind' w → w <+: lexeme ++ rest →
    w.length ≤ lexeme.length

/-- **The scanner takes the longest lexeme.** -/
theorem munch?_longest {c : Char} {rest : List Char} {kind : Kind} {count : Nat}
    (h : munch? c rest = some (kind, count)) :
    Longest kind (c :: rest.take count) (rest.drop count) := by
  obtain ⟨hle, hmatches⟩ := Matches.of_munch? h
  refine ⟨hmatches, fun {kind' w} hw hpre => ?_⟩
  rw [List.cons_append, List.take_append_drop] at hpre
  obtain ⟨d, v, rfl⟩ := hw.exists_cons
  obtain ⟨rfl, htail⟩ := List.cons_prefix_cons.1 hpre
  obtain ⟨_, _, hm, hlength⟩ := hw.exists_munch? htail
  cases h.symm.trans hm
  simp only [List.length_cons, List.length_take]
  omega

/-- **The scanner finds no lexeme only where none stands.** -/
theorem not_matches_of_munch? {c : Char} {rest w : List Char} {kind : Kind}
    (h : munch? c rest = none) (hpre : w <+: c :: rest) : ¬ Matches kind w := by
  intro hw
  obtain ⟨d, v, rfl⟩ := hw.exists_cons
  obtain ⟨rfl, htail⟩ := List.cons_prefix_cons.1 hpre
  obtain ⟨_, _, hm, -⟩ := hw.exists_munch? htail
  cases h.symm.trans hm

end Parlance.Token
