import Parlance.Number.Text
import Parlance.Proofs.Number.Shortest

/-!
# Spellings of numbers

A number is written as digits, a point with digits behind it or none, and an exponent or none. Such
a text is read as the decimal that its digits and its exponent say, and the text of a number is one
whose decimal rounds to the number: so a number is read back from its text.
-/

namespace Parlance.Number

open Numeral

/-! ## Digits -/

section Digits

theorem isAsciiDigit_iff {c : Char} : isAsciiDigit c = true ↔ 48 ≤ c.toNat ∧ c.toNat ≤ 57 := by
  unfold isAsciiDigit
  rw [Bool.and_eq_true, decide_eq_true_eq, decide_eq_true_eq, Char.le_def, Char.le_def,
    UInt32.le_iff_toNat_le, UInt32.le_iff_toNat_le]
  rfl

theorem isAsciiDigit_of_mem_toDigits {n : Nat} {c : Char} (h : c ∈ Nat.toDigits 10 n) :
    isAsciiDigit c = true := by
  have hdigit := Nat.isDigit_of_mem_toDigits (by decide) (by decide) h
  rw [isAsciiDigit_iff]
  simp only [Char.isDigit, Bool.and_eq_true, decide_eq_true_eq, ge_iff_le,
    UInt32.le_iff_toNat_le] at hdigit
  exact hdigit

theorem splitSign_of_isAsciiDigit {c : Char} (h : isAsciiDigit c = true) (cs : List Char) :
    splitSign (c :: cs) = (false, c :: cs) := by
  unfold splitSign
  split
  · rename_i heq
    cases heq
    nomatch h
  · rename_i heq
    cases heq
    nomatch h
  · rfl

theorem digitsValue_append (cs ds : List Char) :
    digitsValue (cs ++ ds) = digitsValue cs * 10 ^ ds.length + digitsValue ds := by
  show Nat.ofDigitChars 10 (cs ++ ds) 0 = _
  rw [Nat.ofDigitChars_append, Nat.ofDigitChars_eq_ofDigitChars_zero, Nat.mul_comm]
  rfl

theorem digitsValue_replicate (n : Nat) : digitsValue (List.replicate n '0') = 0 := by
  show Nat.ofDigitChars 10 _ 0 = 0
  rw [Nat.ofDigitChars_replicate_zero, Nat.mul_zero]

theorem digitsValue_toDigits (n : Nat) : digitsValue (Nat.toDigits 10 n) = n :=
  Nat.ofDigitChars_ten_toDigits

end Digits

/-- How a number is written. -/
structure Spelling where
  whole : List Char
  fraction : List Char
  exponent : Option Int
  whole_ne_nil : whole ≠ []
  isAsciiDigit_whole : ∀ c ∈ whole, isAsciiDigit c = true
  isAsciiDigit_fraction : ∀ c ∈ fraction, isAsciiDigit c = true

namespace Spelling

variable (p : Spelling)

def fractionText : List Char := if p.fraction.isEmpty then [] else '.' :: p.fraction

def exponentTail : List Char :=
  match p.exponent with
  | none => []
  | some e => 'e' :: exponentText e

def text : List Char := p.whole ++ (p.fractionText ++ p.exponentTail)

/-- The decimal that is written is `digits * 10 ^ power`. -/
def digits : Nat := digitsValue (p.whole ++ p.fraction)

def power : Int := p.exponent.getD 0 - p.fraction.length

/-! ## Reading a spelling -/

/-- The characters of a spelling. -/
def IsMark (c : Char) : Prop :=
  isAsciiDigit c = true ∨ c = '.' ∨ c = 'e' ∨ c = '+' ∨ c = '-'

theorem IsMark.toNat {c : Char} (h : IsMark c) : 43 ≤ c.toNat ∧ c.toNat < 128 ∧ c ≠ '_' := by
  rcases h with h | rfl | rfl | rfl | rfl
  · rw [isAsciiDigit_iff] at h
    refine ⟨by omega, by omega, ?_⟩
    rintro rfl
    exact absurd h (by decide)
  all_goals decide

theorem IsMark.isPadding {c : Char} (h : IsMark c) : Numeral.isPadding c = false := by
  have hlow := h.toNat.1
  unfold Numeral.isPadding
  rw [Bool.or_eq_false_iff]
  constructor
  · rw [beq_eq_false_iff_ne]
    rintro rfl
    exact absurd hlow (by decide)
  · simp
    omega

/-- An exponent is a sign and digits. -/
theorem exponentText_eq (e : Int) : ∃ ds, exponentText e = (if e < 0 then '-' else '+') :: ds ∧
    ds ≠ [] ∧ (∀ c ∈ ds, isAsciiDigit c = true) ∧ digitsValue ds = e.natAbs := by
  refine ⟨List.replicate (2 - (Nat.toDigits 10 e.natAbs).length) '0' ++ Nat.toDigits 10 e.natAbs,
    rfl, by simp, fun c h => ?_, ?_⟩
  · rcases List.mem_append.1 h with h | h
    · rw [List.eq_of_mem_replicate h]
      rfl
    · exact isAsciiDigit_of_mem_toDigits h
  · rw [digitsValue_append, digitsValue_replicate, Nat.zero_mul, Nat.zero_add, digitsValue_toDigits]

theorem isMark_of_mem_text {c : Char} (h : c ∈ p.text) : IsMark c := by
  unfold text fractionText exponentTail at h
  simp only [List.mem_append] at h
  rcases h with h | h | h
  · exact .inl (p.isAsciiDigit_whole c h)
  · split at h
    · nomatch h
    · rcases List.mem_cons.1 h with rfl | h
      · exact .inr (.inl rfl)
      · exact .inl (p.isAsciiDigit_fraction c h)
  · split at h
    · nomatch h
    · rename_i e he
      obtain ⟨ds, htext, -, hds, -⟩ := exponentText_eq e
      rw [htext] at h
      rcases List.mem_cons.1 h with rfl | h
      · exact .inr (.inr (.inl rfl))
      · rcases List.mem_cons.1 h with rfl | h
        · split
          · exact .inr (.inr (.inr (.inr rfl)))
          · exact .inr (.inr (.inr (.inl rfl)))
        · exact .inl (hds c h)

/-- Nothing is left out of a list without the characters to be left out. -/
theorem strip_eq_self {q : Char → Bool} {cs : List Char} (h : ∀ c ∈ cs, q c = false) :
    Text.strip q cs = cs := by
  have hdrop : ∀ ds : List Char, (∀ c ∈ ds, q c = false) → ds.dropWhile q = ds := by
    intro ds hds
    match ds with
    | [] => rfl
    | d :: ds => rw [List.dropWhile_cons_of_neg (by rw [hds d (by simp)]; decide)]
  unfold Text.strip Text.dropEnd
  rw [hdrop cs h, hdrop cs.reverse (by simpa using h), List.reverse_reverse]

theorem joinDigits_eq_self {cs : List Char} (h : '_' ∉ cs) : joinDigits cs = some cs := by
  fun_induction joinDigits cs with
  | case1 => rfl
  | case2 c d rest hd ih => exact absurd (by simp) h
  | case3 c d rest hd => exact absurd (by simp) h
  | case4 c rest hno hc => exact absurd (by simp_all) h
  | case5 c rest hno hc ih =>
    rw [ih (fun hmem => h (List.mem_cons_of_mem _ hmem))]
    rfl

/-- Before the sign is split off, nothing in a text of marks is changed. -/
theorem joinDigits_strip_toAscii {cs : List Char} (h : ∀ c ∈ cs, IsMark c) :
    joinDigits (Text.strip isPadding (toAscii cs)) = some cs := by
  have hascii : toAscii cs = cs := by
    refine if_pos (List.all_eq_true.2 fun c hc => ?_)
    exact decide_eq_true (h c hc).toNat.2.1
  rw [hascii, strip_eq_self fun c hc => (h c hc).isPadding, joinDigits_eq_self]
  exact fun hmem => (h _ hmem).toNat.2.2 rfl

theorem span_digits {ds rest : List Char} (hds : ∀ c ∈ ds, isAsciiDigit c = true)
    (hrest : ∀ c cs, rest = c :: cs → isAsciiDigit c = false) :
    (ds ++ rest).span isAsciiDigit = (ds, rest) := by
  rw [List.span_eq_takeWhile_dropWhile, List.takeWhile_append_of_pos hds,
    List.dropWhile_append_of_pos hds]
  match rest, hrest with
  | [], _ => simp
  | c :: cs, hrest =>
    have hc := hrest c cs rfl
    rw [List.takeWhile_cons_of_neg (by simp [hc]), List.dropWhile_cons_of_neg (by simp [hc]),
      List.append_nil]

theorem readExponent_exponentTail : readExponent p.exponentTail = some (p.exponent.getD 0) := by
  unfold exponentTail
  cases p.exponent with
  | none => rfl
  | some e =>
    obtain ⟨ds, htext, hne, hds, hvalue⟩ := exponentText_eq e
    have hall : ds.all isAsciiDigit = true := List.all_eq_true.2 hds
    have hempty : ds.isEmpty = false := by simpa using hne
    have hsign : splitSign (exponentText e) = (decide (e < 0), ds) := by
      rw [htext]
      by_cases he : e < 0 <;> simp [he, splitSign]
    show readExponent ('e' :: exponentText e) = some e
    unfold readExponent
    simp only [BEq.rfl, Bool.true_or, if_true]
    rw [hsign]
    simp only [hempty, hall, Bool.not_true, Bool.or_false, Bool.false_eq_true, if_false, hvalue,
      decide_eq_true_eq]
    congr 1
    omega

theorem exponentTail_head {c : Char} {cs : List Char} (h : p.exponentTail = c :: cs) : c = 'e' := by
  unfold exponentTail at h
  split at h
  · nomatch h
  · exact (List.cons.inj h).1.symm

theorem fractionTail_head {c : Char} {cs : List Char} (h : p.fractionText ++ p.exponentTail = c :: cs) :
    c = '.' ∨ c = 'e' := by
  unfold fractionText at h
  split at h
  · exact .inr (p.exponentTail_head h)
  · exact .inl (List.cons.inj h).1.symm

theorem splitFraction_tail :
    splitFraction (p.fractionText ++ p.exponentTail) = (p.fraction, p.exponentTail) := by
  unfold fractionText
  split
  · rename_i hempty
    rw [List.isEmpty_iff.1 hempty, List.nil_append]
    match htail : p.exponentTail with
    | [] => rfl
    | c :: cs =>
      obtain rfl := p.exponentTail_head htail
      rfl
  · show (p.fraction ++ p.exponentTail).span isAsciiDigit = _
    refine span_digits p.isAsciiDigit_fraction fun c cs htail => ?_
    obtain rfl := p.exponentTail_head htail
    rfl

theorem head_text : ∃ c cs, p.text = c :: cs ∧ isAsciiDigit c = true := by
  obtain ⟨c, cs, hwhole⟩ := List.exists_cons_of_ne_nil p.whole_ne_nil
  refine ⟨c, cs ++ (p.fractionText ++ p.exponentTail), by rw [text, hwhole]; rfl, ?_⟩
  exact p.isAsciiDigit_whole c (by simp [hwhole])

/-- A text that starts with a digit is no word. -/
theorem map_toLower_ne {c : Char} {cs word : List Char} (hc : isAsciiDigit c = true)
    (hword : word.head?.map isAsciiDigit = some false) : (c :: cs).map Char.toLower ≠ word := by
  rintro rfl
  have hrange := isAsciiDigit_iff.1 hc
  have hlower : c.toLower = c := by
    refine dif_neg fun hupper => ?_
    have hlow : 65 ≤ c.toNat := hupper.1
    omega
  rw [List.map_cons, List.head?_cons, Option.map_some, hlower, hc] at hword
  nomatch hword

theorem readUnsigned_text (negative : Bool) :
    readUnsigned negative p.text = some (.decimal negative p.digits p.power) := by
  have hspan : p.text.span isAsciiDigit = (p.whole, p.fractionText ++ p.exponentTail) := by
    refine span_digits p.isAsciiDigit_whole fun c cs htail => ?_
    rcases p.fractionTail_head htail with rfl | rfl <;> rfl
  obtain ⟨c, cs, htext, hc⟩ := p.head_text
  unfold readUnsigned
  dsimp only
  rw [hspan, htext, if_neg (map_toLower_ne hc rfl), if_neg]
  · dsimp only
    rw [splitFraction_tail]
    dsimp only
    rw [readExponent_exponentTail, if_neg]
    · rfl
    · simp [p.whole_ne_nil]
  · rw [Bool.or_eq_true, decide_eq_true_eq, decide_eq_true_eq]
    exact fun h => h.elim (map_toLower_ne hc rfl) (map_toLower_ne hc rfl)

/-- **A spelling is read as its decimal.** -/
theorem read?_signed (negative : Bool) :
    Numeral.read? (signed negative p.text) = some (.decimal negative p.digits p.power) := by
  obtain ⟨c, cs, htext, hc⟩ := p.head_text
  have hmarks : ∀ d ∈ (if negative then '-' :: p.text else p.text), IsMark d := by
    intro d hd
    split at hd
    · rcases List.mem_cons.1 hd with rfl | hd
      · exact .inr (.inr (.inr (.inr rfl)))
      · exact p.isMark_of_mem_text hd
    · exact p.isMark_of_mem_text hd
  have hsign : splitSign (if negative then '-' :: p.text else p.text) = (negative, p.text) := by
    cases negative
    · rw [if_neg (by decide), htext, splitSign_of_isAsciiDigit hc]
    · rfl
  unfold Numeral.read? signed
  rw [String.toList_ofList, joinDigits_strip_toAscii hmarks]
  show readUnsigned (splitSign _).1 (splitSign _).2 = _
  rw [hsign, readUnsigned_text]

end Spelling

/-! ## Texts that are spellings -/

/-- A spelling of `text` for the digits `ds` with the point after the first `point` of them. -/
def Spells (ds : List Char) (point : Int) (text : List Char) : Prop :=
  ∃ p : Spelling, text = p.text ∧
    ∀ m s, NearDecimal m s (digitsValue ds) (point - ds.length) → NearDecimal m s p.digits p.power

theorem isAsciiDigit_of_mem_zeros {n : Nat} {c : Char} (hc : c ∈ List.replicate n '0') :
    isAsciiDigit c = true := by
  rw [List.eq_of_mem_replicate hc]
  rfl

section Digits

variable {ds : List Char} (hne : ds ≠ []) (hds : ∀ c ∈ ds, isAsciiDigit c = true)
include hne hds

theorem spells_scientific (point : Int) : Spells ds point (scientific ds point) := by
  obtain ⟨d, rest, rfl⟩ := List.exists_cons_of_ne_nil hne
  refine ⟨⟨[d], rest, some (point - 1), by simp, by simp [hds], fun c hc => hds c (by simp [hc])⟩,
    ?_, fun m s h => ?_⟩
  · simp [scientific, Spelling.text, Spelling.fractionText, Spelling.exponentTail]
  · have hpower : point - 1 - rest.length = point - (d :: rest).length := by
      simp only [List.length_cons]
      omega
    show NearDecimal m s (digitsValue ([d] ++ rest)) (point - 1 - rest.length)
    rw [hpower]
    exact h

/-- A number below one: zeros between the point and the digits. -/
theorem spells_below_one {point : Int} (hpoint : point ≤ 0) :
    Spells ds point ('0' :: '.' :: (List.replicate point.natAbs '0' ++ ds)) := by
  refine ⟨⟨['0'], List.replicate point.natAbs '0' ++ ds, none, by simp, by simp [isAsciiDigit],
    fun c hc => ?_⟩, ?_, fun m s h => ?_⟩
  · exact (List.mem_append.1 hc).elim isAsciiDigit_of_mem_zeros (hds c)
  · simp [Spelling.text, Spelling.fractionText, Spelling.exponentTail, hne]
  · have hdigits : digitsValue (['0'] ++ (List.replicate point.natAbs '0' ++ ds)) =
        digitsValue ds := by
      rw [digitsValue_append, digitsValue_append, digitsValue_replicate,
        show digitsValue ['0'] = 0 from rfl]
      omega
    have hpower : (0 : Int) - (List.replicate point.natAbs '0' ++ ds).length =
        point - ds.length := by
      rw [List.length_append, List.length_replicate]
      omega
    show NearDecimal m s (digitsValue _) (0 - (List.replicate point.natAbs '0' ++ ds).length)
    rw [hdigits, hpower]
    exact h

/-- A whole number: all digits stand before the point, with zeros up to it and one behind it. -/
theorem spells_whole {front : Nat} (hlen : ds.length ≤ front) :
    Spells ds front (ds ++ List.replicate (front - ds.length) '0' ++ ['.', '0']) := by
  refine ⟨⟨ds ++ List.replicate (front - ds.length) '0', ['0'], none, by simp [hne],
    fun c hc => ?_, by simp [isAsciiDigit]⟩, ?_, fun m s h => ?_⟩
  · exact (List.mem_append.1 hc).elim (hds c) isAsciiDigit_of_mem_zeros
  · simp [Spelling.text, Spelling.fractionText, Spelling.exponentTail]
  · have hdigits : digitsValue (ds ++ List.replicate (front - ds.length) '0' ++ ['0']) =
        digitsValue ds * 10 ^ (front - ds.length + 1) := by
      rw [digitsValue_append, digitsValue_append, digitsValue_replicate, List.length_replicate,
        show digitsValue ['0'] = 0 from rfl, Nat.add_zero, Nat.add_zero, Nat.mul_assoc,
        ← Nat.pow_add]
      rfl
    have hpower : (0 : Int) - 1 + (front - ds.length + 1 : Nat) = front - ds.length := by omega
    show NearDecimal m s (digitsValue _) (0 - 1)
    rw [hdigits, nearDecimal_mul_pow, hpower]
    exact h

/-- The point stands among the digits. -/
theorem spells_among {front : Nat} (hpos : 0 < front) (hlen : front < ds.length) :
    Spells ds front (ds.take front ++ '.' :: ds.drop front) := by
  refine ⟨⟨ds.take front, ds.drop front, none, ?_, fun c hc => hds c (List.mem_of_mem_take hc),
    fun c hc => hds c (List.mem_of_mem_drop hc)⟩, ?_, fun m s h => ?_⟩
  · rw [Ne, List.take_eq_nil_iff, not_or]
    exact ⟨by omega, hne⟩
  · simp [Spelling.text, Spelling.fractionText, Spelling.exponentTail, hlen]
  · have hpower : (0 : Int) - (ds.drop front).length = front - ds.length := by
      rw [List.length_drop]
      omega
    show NearDecimal m s (digitsValue (ds.take front ++ ds.drop front)) (0 - (ds.drop front).length)
    rw [List.take_append_drop, hpower]
    exact h

theorem spells_positional (point : Int) : Spells ds point (positional ds point) := by
  unfold positional
  split
  · exact spells_below_one hne hds ‹_›
  · rename_i hpoint
    lift point to Nat using by omega with front
    rw [Int.toNat_natCast]
    split
    · rename_i hlen
      rw [List.take_of_length_le hlen]
      exact spells_whole hne hds hlen
    · rename_i hlen
      have hzero : front - ds.length = 0 := by omega
      rw [hzero, List.replicate_zero, List.append_nil]
      exact spells_among hne hds (by omega) (by omega)

end Digits

theorem dropEnd_zeros (cs : List Char) :
    ∃ z, cs = Text.dropEnd (· == '0') cs ++ List.replicate z '0' := by
  refine ⟨(cs.reverse.takeWhile (· == '0')).length, ?_⟩
  have hzeros : cs.reverse.takeWhile (· == '0') =
      List.replicate (cs.reverse.takeWhile (· == '0')).length '0' := by
    rw [List.eq_replicate_iff]
    refine ⟨rfl, fun c hc => ?_⟩
    exact beq_iff_eq.1 (List.all_eq_true.1 List.all_takeWhile c hc)
  have hsplit := congrArg List.reverse (List.takeWhile_append_dropWhile (p := (· == '0')) (l := cs.reverse))
  rw [List.reverse_append, List.reverse_reverse, hzeros, List.reverse_replicate] at hsplit
  exact hsplit.symm

/-- The text of a decimal other than zero is a spelling of it. -/
theorem Decimal.exists_spelling {d : Decimal} (hd : d.digits ≠ 0) :
    ∃ p : Spelling, d.text = p.text ∧
      ∀ m s, NearDecimal m s d.digits d.exponent → NearDecimal m s p.digits p.power := by
  obtain ⟨z, hz⟩ := dropEnd_zeros (Nat.toDigits 10 d.digits)
  generalize hds : Text.dropEnd (· == '0') (Nat.toDigits 10 d.digits) = ds at hz
  have hvalue : d.digits = digitsValue ds * 10 ^ z := by
    rw [← digitsValue_toDigits d.digits, hz, digitsValue_append, digitsValue_replicate,
      List.length_replicate, Nat.add_zero]
  have hne : ds ≠ [] := by
    rintro rfl
    rw [show digitsValue [] = 0 from rfl, Nat.zero_mul] at hvalue
    exact hd hvalue
  have hdigits : ∀ c ∈ ds, isAsciiDigit c = true := fun c hc =>
    isAsciiDigit_of_mem_toDigits (n := d.digits) (by rw [hz]; exact List.mem_append_left _ hc)
  -- the zeros at the end count for the place of the point only
  have hpoint : ∀ m s, NearDecimal m s d.digits d.exponent → NearDecimal m s (digitsValue ds)
      ((Nat.toDigits 10 d.digits).length + d.exponent - ds.length) := by
    intro m s h
    rw [hvalue, nearDecimal_mul_pow] at h
    rw [hz, List.length_append, List.length_replicate]
    rw [show ((ds.length + z : Nat) : Int) + d.exponent - ds.length = d.exponent + z by omega]
    exact h
  have hspells : Spells ds ((Nat.toDigits 10 d.digits).length + d.exponent) d.text := by
    unfold Decimal.text
    dsimp only
    rw [hds]
    split
    · exact spells_positional hne hdigits _
    · exact spells_scientific hne hdigits _
  obtain ⟨p, htext, hnear⟩ := hspells
  exact ⟨p, htext, fun m s h => hnear m s (hpoint m s h)⟩

/-! ## The text of a number -/

/-- Only zero has zero in its window. -/
theorem NearDecimal.digits_ne_zero {m s digits : Nat} {exponent : Int} (hm : m ≠ 0)
    (h : NearDecimal m s digits exponent) : digits ≠ 0 := by
  rintro rfl
  have hlow := h.low
  rw [Nat.zero_mul, Nat.mul_zero, Nat.le_zero] at hlow
  have hpos : 0 < (4 * m - below m s) * 2 ^ s * 10 ^ (-exponent).toNat := by
    have hbelow := below_le m s
    exact Nat.mul_pos (Nat.mul_pos (by omega) (Nat.two_pow_pos s)) (Nat.pow_pos (by decide))
  omega

theorem spelling_of_nat {m s n : Nat} (h : n * unitsPerOne = m * 2 ^ s) :
    ∃ p : Spelling, Nat.toDigits 10 n = p.text ∧ NearDecimal m s p.digits p.power := by
  refine ⟨⟨Nat.toDigits 10 n, [], none, Nat.toDigits_ne_nil,
    fun c hc => isAsciiDigit_of_mem_toDigits hc, by simp⟩, ?_, ?_⟩
  · simp [Spelling.text, Spelling.fractionText, Spelling.exponentTail]
  · show NearDecimal m s (digitsValue (Nat.toDigits 10 n ++ [])) 0
    rw [List.append_nil, digitsValue_toDigits]
    have hpos := Nat.two_pow_pos s
    have hunits : 4 * unitsPerOne * n = 4 * m * 2 ^ s := by
      rw [Nat.mul_assoc, Nat.mul_comm unitsPerOne, h, Nat.mul_assoc]
    show Near m s (n * 1) 1
    rw [Nat.mul_one]
    constructor <;> simp only [hunits, Nat.mul_one, Nat.sub_mul, Nat.add_mul]
    · omega
    · omega
    · intro hodd
      have hle := Nat.mul_le_mul_right (2 ^ s) (show 1 ≤ 4 * m by omega)
      have hbelow : 1 * 2 ^ s ≤ below m s * 2 ^ s := by
        apply Nat.mul_le_mul_right
        unfold below
        split <;> decide
      omega

/-- The text of a finite number is a spelling with its sign, which zero does not show. -/
theorem exists_spelling {x : Number} {negative : Bool} {m s : Nat}
    (h : shape x = .finite negative m s) :
    ∃ p : Spelling, text x = signed (negative && m != 0) p.text ∧ NearDecimal m s p.digits p.power := by
  obtain ⟨hc, -⟩ := eq_ofMagnitude h
  unfold text
  split
  · rename_i n hn
    simp only [toInt?, h] at hn
    split at hn
    · rename_i hwhole
      obtain rfl := Option.some.inj hn
      have hunits : m * 2 ^ s / unitsPerOne * unitsPerOne = m * 2 ^ s :=
        Nat.div_mul_cancel (Nat.dvd_of_mod_eq_zero hwhole)
      obtain ⟨p, hp, hnear⟩ := spelling_of_nat hunits
      have hzero : m * 2 ^ s / unitsPerOne = 0 ↔ m = 0 := by
        refine ⟨fun hn => ?_, by rintro rfl; simp⟩
        rw [hn, Nat.zero_mul] at hunits
        exact (Nat.mul_eq_zero.1 hunits.symm).resolve_right (Nat.two_pow_pos s).ne'
      refine ⟨p, ?_, hnear⟩
      rw [← hp]
      generalize m * 2 ^ s / unitsPerOne = n at hzero
      have hsign : decide ((if negative then -(n : Int) else n) < 0) = (negative && m != 0) := by
        rw [Bool.eq_iff_iff, decide_eq_true_eq, Bool.and_eq_true, bne_iff_ne]
        cases negative
        · simp
        · simp
          omega
      have habs : (if negative then -(n : Int) else n).natAbs = n := by
        split <;> omega
      rw [hsign, habs]
    · nomatch hn
  · rename_i hn
    have hm : m ≠ 0 := by
      rintro rfl
      simp [toInt?, h] at hn
    have hnear := Window.shortest_near hc
    obtain ⟨p, htext, hp⟩ := Decimal.exists_spelling (hnear.digits_ne_zero hm)
    refine ⟨p, ?_, hp m s hnear⟩
    have hsign : (negative && m != 0) = negative := by
      rw [bne_iff_ne.2 hm, Bool.and_true]
    rw [plain, h, ← htext, hsign]
    dsimp only
    rw [if_neg hm]

/-- A finite number is read back from its text, zero without its sign. -/
theorem read?_text_of_finite {x : Number} {negative : Bool} {m s : Nat}
    (h : shape x = .finite negative m s) :
    read? (text x) = some (ofMagnitude (negative && m != 0) (s * 2 ^ 52 + m)) := by
  obtain ⟨p, htext, hnear⟩ := exists_spelling h
  obtain ⟨hc, -⟩ := eq_ofMagnitude h
  rw [read?, htext, p.read?_signed, Option.map_some, value_of_near _ hc hnear]

/-- **A number is read back from its text.** -/
theorem read?_text {x : Number} {m s : Nat} (h : shape x = .finite false m s) :
    read? (text x) = some x := by
  rw [read?_text_of_finite h, Bool.false_and, ← (eq_ofMagnitude h).2]

end Parlance.Number
