import Parlance.Proofs.Token.Scan

/-!
# What scanned tokens hold

The scan gives a number only finite and without a sign, a string only without a quote and a name
only if it is no keyword. The end of the input is a token of its own, the last one and no other.
-/

namespace Parlance

/-- A word that is no keyword. -/
structure IsName (x : String) : Prop where
  word : Token.IsWord x.toList
  kind : Kind.ofWord x = .identifier

/-- A finite number without a minus. -/
def Number.IsPositive (x : Number) : Prop := ∃ m s, shape x = .finite false m s

/-- What the value or the lexeme of a token keeps to. -/
structure Token.Proper (t : Token) : Prop where
  number : t.kind = .number → ∃ x, t.literal = .number x ∧ x.IsPositive
  string : t.kind = .string → ∃ s, t.literal = .string s ∧ '"' ∉ s.toList
  name : t.kind = .identifier → IsName t.lexeme

/-! ## A numeral that starts with a digit has no minus -/

namespace Number

open Numeral

theorem nearestMagnitude_le (a b : Nat) : nearestMagnitude a b ≤ infiniteBits := Nat.min_le_right ..

theorem isPositive_ofMagnitude {magnitude : Nat} (h : magnitude ≤ infiniteBits)
    (hfinite : isFinite (ofMagnitude false magnitude) = true) :
    (ofMagnitude false magnitude).IsPositive := by
  unfold isFinite at hfinite
  unfold IsPositive
  rw [shape_ofMagnitude h] at hfinite ⊢
  by_cases hinf : magnitude = infiniteBits
  · rw [if_pos hinf] at hfinite
    cases hfinite
  · rw [if_neg hinf]
    split <;> exact ⟨_, _, rfl⟩

theorem value_isPositive {digits : Nat} {exponent : Int}
    (hfinite : isFinite (Numeral.decimal false digits exponent).value = true) :
    (Numeral.decimal false digits exponent).value.IsPositive := by
  have hmagnitude : ∃ magnitude ≤ infiniteBits,
      (Numeral.decimal false digits exponent).value = ofMagnitude false magnitude := by
    unfold Numeral.value
    dsimp only
    split
    · exact ⟨_, nearestMagnitude_le .., rfl⟩
    · split
      · split
        · exact ⟨_, Nat.le_refl _, rfl⟩
        · exact ⟨_, nearestMagnitude_le .., rfl⟩
      · split
        · exact ⟨_, nearestMagnitude_le .., rfl⟩
        · exact ⟨_, nearestMagnitude_le .., rfl⟩
  obtain ⟨magnitude, hle, hvalue⟩ := hmagnitude
  rw [hvalue] at hfinite ⊢
  exact isPositive_ofMagnitude hle hfinite

theorem isFinite_notANumber : isFinite notANumber = false := by
  decide +kernel

theorem isFinite_infinity (negative : Bool) : isFinite (infinity negative) = false := by
  unfold isFinite infinity
  rw [shape_ofMagnitude (Nat.le_refl _), if_pos rfl]

theorem zeros_apart_from_blanks :
    ∀ start ∈ Text.zeros, ∀ range ∈ Text.blanks, start + 9 < range.1 ∨ range.2 < start := by
  decide

theorem zeros_of_ascii : ∀ start ∈ Text.zeros, start < 128 → start = 48 := by decide

theorem isAsciiDigit_asciiDigit : ∀ d < 10, isAsciiDigit (asciiDigit d) = true := by decide

theorem digit?_eq_some {c : Char} (h : Text.isDigit c = true) :
    ∃ start ∈ Text.zeros, start ≤ c.toNat ∧ c.toNat ≤ start + 9 ∧
      Text.digit? c = some (c.toNat - start) := by
  obtain ⟨d, hd⟩ := Option.isSome_iff_exists.1 h
  obtain ⟨start, hfind, rfl⟩ := Option.map_eq_some_iff.1 hd
  have hin := List.find?_some hfind
  simp only [Bool.and_eq_true, decide_eq_true_eq] at hin
  exact ⟨start, List.mem_of_find?_eq_some hfind, hin.1, hin.2, hd⟩

/-- A digit of any script becomes a digit of ASCII. -/
theorem isAsciiDigit_narrow {c : Char} (h : Text.isDigit c = true) :
    isAsciiDigit (narrow c) = true := by
  obtain ⟨start, hmem, hlow, hhigh, hdigit⟩ := digit?_eq_some h
  unfold narrow
  split
  · rename_i hascii
    have hstart := zeros_of_ascii start hmem (by omega)
    rw [isAsciiDigit_iff]
    omega
  · have hblank : Text.isBlank c = false := by
      rw [Bool.eq_false_iff]
      intro hblank
      obtain ⟨range, hrange, hin⟩ := Text.Ranges.holds_iff.1 hblank
      have := zeros_apart_from_blanks start hmem range hrange
      omega
    rw [if_neg (by rw [hblank]; decide), hdigit]
    exact isAsciiDigit_asciiDigit _ (by omega)

theorem toAscii_cons {c : Char} (h : Text.isDigit c = true) (cs : List Char) :
    ∃ d ds, toAscii (c :: cs) = d :: ds ∧ isAsciiDigit d = true := by
  unfold toAscii
  split
  · rename_i hall
    refine ⟨c, cs, rfl, ?_⟩
    obtain ⟨start, hmem, hlow, hhigh, -⟩ := digit?_eq_some h
    have hascii := List.all_eq_true.1 hall c (List.mem_cons_self ..)
    have hstart := zeros_of_ascii start hmem (by simp at hascii; omega)
    rw [isAsciiDigit_iff]
    omega
  · exact ⟨narrow c, cs.map narrow, rfl, isAsciiDigit_narrow h⟩

theorem dropEnd_cons {p : Char → Bool} {c : Char} (h : p c = false) (cs : List Char) :
    Text.dropEnd p (c :: cs) = c :: Text.dropEnd p cs := by
  unfold Text.dropEnd
  rw [List.reverse_cons, List.dropWhile_append]
  split
  · rename_i hempty
    rw [List.isEmpty_iff.1 hempty, List.dropWhile_cons_of_neg (by simp [h])]
    rfl
  · simp

theorem joinDigits_cons {c : Char} {cs ds : List Char} (h : joinDigits (c :: cs) = some ds) :
    ∃ rest, ds = c :: rest := by
  unfold joinDigits at h
  split at h
  · cases ‹c :: cs = []›
  · rename_i heq
    cases heq
    split at h
    · obtain ⟨rest, -, rfl⟩ := Option.map_eq_some_iff.1 h
      exact ⟨rest, rfl⟩
    · cases h
  · rename_i heq
    cases heq
    split at h
    · cases h
    · obtain ⟨rest, -, rfl⟩ := Option.map_eq_some_iff.1 h
      exact ⟨rest, rfl⟩

/-- A numeral whose first character is a digit has no sign. -/
theorem read?_of_digit {c : Char} {cs : List Char} {numeral : Numeral} (h : Text.isDigit c = true)
    (hread : Numeral.read? (String.ofList (c :: cs)) = some numeral) :
    ∃ ds, readUnsigned false ds = some numeral := by
  obtain ⟨d, ds, hascii, hd⟩ := toAscii_cons h cs
  have hpadding : isPadding d = false := (show Spelling.IsMark d from .inl hd).isPadding
  have hstrip : Text.strip isPadding (d :: ds) = d :: Text.dropEnd isPadding ds := by
    rw [Text.strip, List.dropWhile_cons_of_neg (by simp [hpadding]), dropEnd_cons hpadding]
  unfold Numeral.read? at hread
  rw [String.toList_ofList, hascii, hstrip] at hread
  obtain ⟨joined, hjoin, hunsigned⟩ := Option.bind_eq_some_iff.1 hread
  obtain ⟨rest, rfl⟩ := joinDigits_cons hjoin
  rw [splitSign_of_isAsciiDigit hd] at hunsigned
  exact ⟨_, hunsigned⟩

theorem readUnsigned_cases {negative : Bool} {cs : List Char} {numeral : Numeral}
    (h : readUnsigned negative cs = some numeral) :
    numeral = .nan ∨ numeral = .infinite negative ∨
      ∃ digits exponent, numeral = .decimal negative digits exponent := by
  unfold readUnsigned at h
  dsimp only at h
  split at h
  · exact .inl (Option.some.inj h).symm
  · split at h
    · exact .inr (.inl (Option.some.inj h).symm)
    · split at h
      · cases h
      · obtain ⟨e, -, rfl⟩ := Option.map_eq_some_iff.1 h
        exact .inr (.inr ⟨_, _, rfl⟩)

theorem isPositive_of_read? {c : Char} {cs : List Char} {x : Number} (h : Text.isDigit c = true)
    (hread : read? (String.ofList (c :: cs)) = some x) (hfinite : isFinite x = true) :
    x.IsPositive := by
  obtain ⟨numeral, hnumeral, rfl⟩ := Option.map_eq_some_iff.1 hread
  obtain ⟨ds, hunsigned⟩ := read?_of_digit h hnumeral
  rcases readUnsigned_cases hunsigned with rfl | rfl | ⟨digits, exponent, rfl⟩
  · exact absurd hfinite (by rw [Numeral.value, isFinite_notANumber]; decide)
  · exact absurd hfinite (by rw [Numeral.value, isFinite_infinity]; decide)
  · exact value_isPositive hfinite

end Number

/-! ## Tokens -/

/-- The kinds of tokens that hold more than their kind, and the end of the input. -/
def Kind.hasContent (kind : Kind) : Bool :=
  kind = .number || kind = .string || kind = .identifier || kind = .endOfInput

namespace Token

theorem isDigit_of_isNameStart {c : Char} (h : isNameStart c = true) : Text.isDigit c = false := by
  have hrange := toNat_of_isNameStart h
  rw [Bool.eq_false_iff]
  intro hdigit
  obtain ⟨start, hmem, hlow, hhigh, -⟩ := Number.digit?_eq_some hdigit
  have hstart := Number.zeros_of_ascii start hmem (by omega)
  omega

theorem hasContent_of_sign? {c : Char} {kind : Kind} (h : sign? c = some kind) :
    kind.hasContent = false := by
  unfold sign? at h
  split at h <;> cases h <;> rfl

theorem hasContent_of_doubleSign? {c : Char} {long short : Kind}
    (h : doubleSign? c = some (long, short)) :
    long.hasContent = false ∧ short.hasContent = false := by
  unfold doubleSign? at h
  split at h <;> cases h <;> exact ⟨rfl, rfl⟩

/-- The sorts of tokens. -/
theorem munch?_cases {c : Char} {rest : List Char} {kind : Kind} {count : Nat}
    (h : munch? c rest = some (kind, count)) :
    (isNameStart c = true ∧ kind = Kind.ofWord (String.ofList (c :: rest.takeWhile isNameChar)) ∧
      count = (rest.takeWhile isNameChar).length) ∨
    (Text.isDigit c = true ∧ kind = .number) ∨
    (kind = .string ∧ '"' ∈ rest ∧ count = (rest.takeWhile (· != '"')).length + 1) ∨
    kind.hasContent = false := by
  unfold munch? at h
  split at h
  · cases h
    exact .inl ⟨‹_›, rfl, rfl⟩
  · split at h
    · cases h
      exact .inr (.inl ⟨‹_›, rfl⟩)
    · refine .inr (.inr ?_)
      split at h
      · obtain ⟨n, hn, heq⟩ := Option.map_eq_some_iff.1 h
        cases heq
        unfold stringCount? at hn
        split at hn
        · rename_i hquote
          exact .inl ⟨rfl, by simpa using hquote, (Option.some.inj hn).symm⟩
        · cases hn
      · refine .inr ?_
        split at h
        · cases h
          rfl
        · split at h
          · split at h
            · cases h
              rfl
            · cases h
          · split at h
            · cases h
              exact hasContent_of_sign? ‹_›
            · rename_i hdouble
              obtain ⟨hlong, hshort⟩ := hasContent_of_doubleSign? hdouble
              unfold withEquals at h
              split at h
              · cases h
                exact hlong
              · cases h
                exact hshort
            · cases h

theorem take_length_takeWhile (p : Char → Bool) (cs : List Char) :
    cs.take (cs.takeWhile p).length = cs.takeWhile p :=
  (List.prefix_iff_eq_take.1 (List.takeWhile_prefix p)).symm

/-- The text between the quotes holds no quote. -/
theorem quoted_text {rest : List Char} (h : '"' ∈ rest) :
    (rest.take ((rest.takeWhile (· != '"')).length + 1)).dropLast = rest.takeWhile (· != '"') := by
  have hlt : (rest.takeWhile (· != '"')).length < rest.length := by
    refine Nat.lt_of_le_of_ne (List.takeWhile_prefix _).length_le fun hlen => ?_
    have hall := (List.takeWhile_prefix (· != '"')).eq_of_length hlen
    rw [← hall] at h
    exact absurd (List.all_eq_true.1 List.all_takeWhile _ h) (by decide)
  rw [List.dropLast_eq_take, List.take_take, List.length_take,
    show min (min ((rest.takeWhile (· != '"')).length + 1) rest.length - 1)
      ((rest.takeWhile (· != '"')).length + 1) = (rest.takeWhile (· != '"')).length by omega,
    take_length_takeWhile]

theorem proper_of_hasContent {kind : Kind} (h : kind.hasContent = false) (lexeme : String)
    (literal : Value) (line : Int) :
    Proper ⟨kind, lexeme, literal, line⟩ ∧ kind ≠ .endOfInput := by
  simp only [Kind.hasContent, Bool.or_eq_false_iff, decide_eq_false_iff_not] at h
  obtain ⟨⟨⟨hnumber, hstring⟩, hname⟩, hend⟩ := h
  exact ⟨⟨fun h => absurd h hnumber, fun h => absurd h hstring, fun h => absurd h hname⟩, hend⟩

/-- What one step of the scan puts out. -/
theorem proper_of_munch? {c : Char} {rest : List Char} {kind : Kind} {count : Nat} {literal : Value}
    (hm : munch? c rest = some (kind, count))
    (hl : literalOf? kind (c :: rest.take count) = some literal) (line : Int) :
    Proper ⟨kind, String.ofList (c :: rest.take count), literal, line⟩ ∧ kind ≠ .endOfInput := by
  rcases munch?_cases hm with ⟨hc, rfl, rfl⟩ | ⟨hc, rfl⟩ | ⟨rfl, hquote, rfl⟩ | hkind
  · have hword : IsWord (c :: rest.takeWhile isNameChar) :=
      ⟨c, _, rfl, hc, List.all_eq_true.1 List.all_takeWhile⟩
    rw [take_length_takeWhile] at *
    rcases ofWord_cases (String.ofList (c :: rest.takeWhile isNameChar)) with hname | hkeyword
    · rw [hname]
      refine ⟨⟨by rintro ⟨⟩, by rintro ⟨⟩, fun _ => ⟨?_, hname⟩⟩, by decide⟩
      rwa [String.toList_ofList]
    · have hkinds : ∀ p ∈ Kind.keywords, p.2.hasContent = false := by decide
      exact proper_of_hasContent (hkinds _ hkeyword) ..
  · refine ⟨⟨fun _ => ?_, by rintro ⟨⟩, by rintro ⟨⟩⟩, by decide⟩
    simp only [literalOf?] at hl
    split at hl
    · rename_i x hx
      split at hl
      · rename_i hfinite
        exact ⟨x, (Option.some.inj hl).symm, Number.isPositive_of_read? hc hx hfinite⟩
      · cases hl
    · cases hl
  · refine ⟨⟨by rintro ⟨⟩, fun _ => ?_, by rintro ⟨⟩⟩, by decide⟩
    refine ⟨_, (Option.some.inj hl).symm, ?_⟩
    rw [String.toList_ofList, List.drop_one, List.tail_cons, quoted_text hquote]
    intro hmem
    exact absurd (List.all_eq_true.1 List.all_takeWhile _ hmem) (by decide)
  · exact proper_of_hasContent hkind ..

/-- **Every token of a scan is proper**, and the end of the input comes last and only there. -/
theorem scanFrom_proper {line : Int} {cs : List Char} {ts : List Token}
    (h : scanFrom line cs = .ok ts) : ∃ init next, ts = init ++ [endOfInput next] ∧
      ∀ t ∈ init, t.Proper ∧ t.kind ≠ .endOfInput := by
  fun_induction scanFrom line cs generalizing ts with
  | case1 line =>
    cases h
    exact ⟨[], line, rfl, by simp⟩
  | case2 line c rest hblank ih => exact ih h
  | case3 line c rest hblank hcomment ih => exact ih h
  | case4 line c rest hblank hcomment hm => cases h
  | case5 line c rest hblank hcomment kind count hm lexeme => cases h
  | case6 line c rest hblank hcomment kind count hm lexeme literal hl tokens hscan =>
    rename_i ih
    cases h
    obtain ⟨init, next, rfl, hinit⟩ := ih hscan
    refine ⟨_ :: init, next, rfl, fun t ht => ?_⟩
    rcases List.mem_cons.1 ht with rfl | ht
    · exact proper_of_munch? hm hl line
    · exact hinit t ht
  | case7 line c rest hblank hcomment kind count hm lexeme literal hl e hscan => cases h

theorem kind_ne_endOfInput {line last : Int} {cs : List Char} {ts : List Token}
    (h : scanFrom line cs = .ok (ts ++ [endOfInput last])) : ∀ t ∈ ts, t.kind ≠ .endOfInput := by
  obtain ⟨init, next, heq, hinit⟩ := scanFrom_proper h
  obtain ⟨rfl, -⟩ := List.append_inj' heq rfl
  exact fun t ht => (hinit t ht).2

/-- There are at most as many tokens as characters, and the end of the input. -/
theorem scanFrom_length {line : Int} {cs : List Char} {ts : List Token}
    (h : scanFrom line cs = .ok ts) : ts.length ≤ cs.length + 1 := by
  fun_induction scanFrom line cs generalizing ts with
  | case1 line =>
    cases h
    exact Nat.le_refl _
  | case2 line c rest hblank ih => exact Nat.le_succ_of_le (ih h)
  | case3 line c rest hblank hcomment ih =>
    have hle := (List.dropWhile_sublist (l := rest) (· != '\n')).length_le
    exact Nat.le_trans (ih h) (by simp only [List.length_cons]; omega)
  | case4 line c rest hblank hcomment hm => cases h
  | case5 line c rest hblank hcomment kind count hm lexeme => cases h
  | case6 line c rest hblank hcomment kind count hm lexeme literal hl tokens hscan =>
    rename_i ih
    cases h
    have hle := ih hscan
    simp only [List.length_cons, List.length_drop] at hle ⊢
    omega
  | case7 line c rest hblank hcomment kind count hm lexeme literal hl e hscan => cases h

end Token

end Parlance
