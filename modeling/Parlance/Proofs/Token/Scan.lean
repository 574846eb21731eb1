import Parlance.Proofs.Number.Spelling
import Parlance.Token.Scan

/-!
# Scanning a text piece by piece

`Scans line cs ts line' after` says that the scan of `cs`, begun on a line, gives the tokens `ts` and
goes on with the rest on another line, whatever rest that may stand after `cs`. Such pieces can be
joined (`Scans.append`), and every lexeme is one before a rest that does not prolong it.
-/

namespace Parlance.Token

/-! ## One step of the scan -/

theorem scanFrom_nil (line : Int) : scanFrom line [] = .ok [endOfInput line] := by
  rw [scanFrom]

theorem scanFrom_space (line : Int) (rest : List Char) :
    scanFrom line (' ' :: rest) = scanFrom line rest := by
  rw [scanFrom.eq_def]
  rfl

/-- A character that starts a token is neither a blank nor the start of a comment. -/
theorem not_blank_of_munch? {c : Char} {rest : List Char} {found : Kind × Nat}
    (h : munch? c rest = some found) : (c == ' ' || c == '\t') = false ∧ (c == '#') = false := by
  by_cases hblank : c = ' ' ∨ c = '\t' ∨ c = '#'
  · rcases hblank with rfl | rfl | rfl <;> nomatch h
  · simp only [not_or] at hblank
    simp [hblank]

theorem scanFrom_token {c : Char} {rest : List Char} {kind : Kind} {count : Nat} {literal : Value}
    (hm : munch? c rest = some (kind, count))
    (hl : literalOf? kind (c :: rest.take count) = some literal) (line : Int) :
    scanFrom line (c :: rest) =
      (scanFrom (line + Text.lineEnds (c :: rest.take count)) (rest.drop count)).map
        (⟨kind, String.ofList (c :: rest.take count), literal, line⟩ :: ·) := by
  obtain ⟨hblank, hcomment⟩ := not_blank_of_munch? hm
  rw [scanFrom.eq_def]
  simp only [hblank, hcomment, hm, hl, Bool.false_eq_true, if_false]
  cases scanFrom (line + Text.lineEnds (c :: rest.take count)) (rest.drop count) <;> rfl

/-! ## Pieces -/

/-- The scan of `cs` gives `ts`, and goes on with the rest on the line `next`. -/
def Scans (line : Int) (cs : List Char) (ts : List Token) (next : Int)
    (after : List Char → Prop) : Prop :=
  ∀ rest, after rest → scanFrom line (cs ++ rest) = (scanFrom next rest).map (ts ++ ·)

theorem Scans.append {line mid next : Int} {cs ds : List Char} {ts us : List Token}
    {before after : List Char → Prop} (h : Scans line cs ts mid before)
    (h' : Scans mid ds us next after) (hafter : ∀ rest, after rest → before (ds ++ rest)) :
    Scans line (cs ++ ds) (ts ++ us) next after := by
  intro rest hrest
  rw [List.append_assoc, h _ (hafter rest hrest), h' rest hrest]
  cases scanFrom next rest with
  | error e => rfl
  | ok tokens => simp [Except.map]

theorem Scans.mono {line next : Int} {cs : List Char} {ts : List Token}
    {before after : List Char → Prop} (h : Scans line cs ts next before)
    (hafter : ∀ rest, after rest → before rest) : Scans line cs ts next after :=
  fun rest hrest => h rest (hafter rest hrest)

theorem scans_space (line : Int) : Scans line [' '] [] line fun _ => True := by
  intro rest _
  rw [List.singleton_append, scanFrom_space]
  cases scanFrom line rest <;> rfl

/-- A lexeme, before a rest that leaves it as it is. -/
theorem scans_lexeme {c : Char} {ds : List Char} {kind : Kind} {literal : Value}
    {after : List Char → Prop}
    (hm : ∀ rest, after rest → munch? c (ds ++ rest) = some (kind, ds.length))
    (hl : literalOf? kind (c :: ds) = some literal) (line : Int) :
    Scans line (c :: ds) [⟨kind, String.ofList (c :: ds), literal, line⟩]
      (line + Text.lineEnds (c :: ds)) after := by
  intro rest hrest
  have htake : (ds ++ rest).take ds.length = ds := List.take_left
  have hdrop : (ds ++ rest).drop ds.length = rest := List.drop_left
  rw [List.cons_append, scanFrom_token (hm rest hrest) (by rw [htake]; exact hl), htake, hdrop]
  rfl

/-! ## Lexemes -/

/-- Letters, digits and underscores, no digit first. -/
def IsWord (word : List Char) : Prop :=
  ∃ c cs, word = c :: cs ∧ isNameStart c = true ∧ ∀ d ∈ cs, isNameChar d = true

/-- What may stand after a word. -/
def EndsWord (rest : List Char) : Prop := ∀ c cs, rest = c :: cs → isNameChar c = false

theorem toNat_of_isNameStart {c : Char} (h : isNameStart c = true) :
    65 ≤ c.toNat ∧ c.toNat < 128 := by
  unfold isNameStart at h
  rw [Bool.or_eq_true, beq_iff_eq] at h
  rcases h with halpha | rfl
  · simp only [Char.isAlpha, Char.isUpper, Char.isLower, Bool.or_eq_true, Bool.and_eq_true,
      decide_eq_true_eq] at halpha
    rcases halpha with ⟨hlow, hhigh⟩ | ⟨hlow, hhigh⟩
    · exact ⟨hlow, Nat.lt_of_le_of_lt (show c.toNat ≤ 90 from hhigh) (by decide)⟩
    · exact ⟨Nat.le_trans (by decide) (show 97 ≤ c.toNat from hlow),
        Nat.lt_of_le_of_lt (show c.toNat ≤ 122 from hhigh) (by decide)⟩
  · decide

theorem takeWhile_append_of_ends {p : Char → Bool} {cs rest : List Char}
    (hcs : ∀ c ∈ cs, p c = true) (hrest : ∀ c ds, rest = c :: ds → p c = false) :
    (cs ++ rest).takeWhile p = cs := by
  rw [List.takeWhile_append_of_pos hcs]
  match rest, hrest with
  | [], _ => exact List.append_nil cs
  | c :: ds, hrest => rw [List.takeWhile_cons_of_neg (by simp [hrest c ds rfl]), List.append_nil]

theorem munch?_word {c : Char} {cs rest : List Char} (hc : isNameStart c = true)
    (hcs : ∀ d ∈ cs, isNameChar d = true) (hrest : EndsWord rest) :
    munch? c (cs ++ rest) = some (Kind.ofWord (String.ofList (c :: cs)), cs.length) := by
  unfold munch?
  rw [if_pos hc, takeWhile_append_of_ends hcs hrest]

/-- A word is a name or a keyword. -/
theorem ofWord_cases (word : String) :
    Kind.ofWord word = .identifier ∨ (word, Kind.ofWord word) ∈ Kind.keywords := by
  unfold Kind.ofWord
  cases h : Kind.keywords.lookup word with
  | none => exact .inl rfl
  | some kind =>
    obtain ⟨before, after, hsplit, -⟩ := List.lookup_eq_some_iff.1 h
    exact .inr (by rw [hsplit]; simp)

theorem literalOf?_of_keyword :
    ∀ p ∈ Kind.keywords, ∀ lexeme, literalOf? p.2 lexeme = some .nothing := by
  intro p hp lexeme
  simp only [Kind.keywords, List.mem_cons, List.not_mem_nil, or_false] at hp
  rcases hp with rfl | rfl | rfl | rfl | rfl | rfl | rfl | rfl | rfl | rfl <;> rfl

theorem literalOf?_word (word : String) (lexeme : List Char) :
    literalOf? (Kind.ofWord word) lexeme = some .nothing := by
  rcases ofWord_cases word with h | h
  · rw [h]
    rfl
  · exact literalOf?_of_keyword _ h lexeme

theorem scans_word {word : List Char} (h : IsWord word) (line : Int) :
    ∃ next, Scans line word [⟨Kind.ofWord (String.ofList word), String.ofList word, .nothing, line⟩]
      next EndsWord := by
  obtain ⟨c, cs, rfl, hc, hcs⟩ := h
  exact ⟨_, scans_lexeme (fun rest hrest => munch?_word hc hcs hrest) (literalOf?_word _ _) line⟩

theorem munch?_sign {c : Char} {kind : Kind} (h : sign? c = some kind) (rest : List Char) :
    munch? c rest = some (kind, 0) := by
  unfold sign? at h
  split at h <;> cases h <;> rfl

theorem literalOf?_sign {c : Char} {kind : Kind} (h : sign? c = some kind) (lexeme : List Char) :
    literalOf? kind lexeme = some .nothing := by
  unfold sign? at h
  split at h <;> cases h <;> rfl

theorem scans_sign {c : Char} {kind : Kind} (h : sign? c = some kind) (line : Int) :
    ∃ t next, t.kind = kind ∧ Scans line [c] [t] next fun _ => True :=
  ⟨_, _, rfl, scans_lexeme (fun rest _ => munch?_sign h rest) (literalOf?_sign h _) line⟩

theorem munch?_doubleSign {c : Char} {long short : Kind} (h : doubleSign? c = some (long, short))
    (rest : List Char) : munch? c rest = some (withEquals long short rest) := by
  unfold doubleSign? at h
  split at h <;> cases h <;> rfl

theorem munch?_string {cs rest : List Char} (h : '"' ∉ cs) :
    munch? '"' (cs ++ ['"'] ++ rest) = some (.string, (cs ++ ['"']).length) := by
  have hcontains : (cs ++ ['"'] ++ rest).contains '"' = true := by simp
  have htake : (cs ++ ['"'] ++ rest).takeWhile (· != '"') = cs := by
    rw [List.append_assoc]
    refine takeWhile_append_of_ends (fun c hc => ?_) fun c ds hds => ?_
    · rw [bne_iff_ne]
      rintro rfl
      exact h hc
    · obtain ⟨rfl, -⟩ := List.cons.inj hds
      rfl
  show (stringCount? (cs ++ ['"'] ++ rest)).map _ = _
  unfold stringCount?
  rw [if_pos hcontains, htake]
  simp

/-- A string between its quotes, with whatever else it holds. -/
theorem scans_string {cs : List Char} (h : '"' ∉ cs) (line : Int) :
    ∃ t next, t.kind = .string ∧ t.literal = .string (String.ofList cs) ∧
      Scans line ('"' :: (cs ++ ['"'])) [t] next fun _ => True := by
  have hl : literalOf? .string ('"' :: (cs ++ ['"'])) = some (.string (String.ofList cs)) := by
    simp [literalOf?]
  exact ⟨_, _, rfl, rfl, scans_lexeme (fun rest _ => munch?_string h) hl line⟩

/-! ## Numbers -/

open Number (Spelling)

theorem isDigit_of_isAsciiDigit {c : Char} (h : Number.Numeral.isAsciiDigit c = true) :
    Text.isDigit c = true := by
  have hrange := Number.isAsciiDigit_iff.1 h
  have hfind : (Text.zeros.find? fun start => start ≤ c.toNat && c.toNat ≤ start + 9) = some 0x30 := by
    unfold Text.zeros
    rw [List.find?_cons_of_pos (by simp; omega)]
  simp [Text.isDigit, Text.digit?, hfind]

theorem isNameStart_of_isAsciiDigit {c : Char} (h : Number.Numeral.isAsciiDigit c = true) :
    isNameStart c = false := by
  have hrange := Number.isAsciiDigit_iff.1 h
  rw [Bool.eq_false_iff]
  intro hstart
  have hlow := (toNat_of_isNameStart hstart).1
  omega

theorem digitCount_append {ds rest : List Char}
    (hds : ∀ c ∈ ds, Number.Numeral.isAsciiDigit c = true) :
    digitCount (ds ++ rest) = ds.length + digitCount rest := by
  unfold digitCount
  rw [List.takeWhile_append_of_pos (fun c hc => isDigit_of_isAsciiDigit (hds c hc)),
    List.length_append]

/-- What may stand after a number: no digit, no fraction and no exponent. -/
structure EndsNumber (rest : List Char) : Prop where
  digits : digitCount rest = 0
  fraction : fractionCount rest = 0
  exponent : exponentCount rest = 0

section Spelled

variable (p : Spelling) {rest : List Char} (hrest : EndsNumber rest)
include hrest

theorem exponentCount_spelled : exponentCount (p.exponentTail ++ rest) = p.exponentTail.length := by
  unfold Spelling.exponentTail
  cases p.exponent with
  | none => exact hrest.exponent
  | some e =>
    obtain ⟨ds, htext, hne, hds, -⟩ := Spelling.exponentText_eq e
    have hcount : digitCount (ds ++ rest) = ds.length := by
      rw [digitCount_append hds, hrest.digits, Nat.add_zero]
    have hpos := List.length_pos_iff.2 hne
    dsimp only
    rw [htext]
    by_cases he : e < 0 <;> simp [he, exponentCount, hcount, hne]

theorem digitCount_exponentTail : digitCount (p.exponentTail ++ rest) = 0 := by
  unfold Spelling.exponentTail
  cases p.exponent with
  | none => exact hrest.digits
  | some e => rfl

theorem fractionCount_spelled :
    fractionCount (p.fractionText ++ (p.exponentTail ++ rest)) = p.fractionText.length := by
  unfold Spelling.fractionText
  split
  · show fractionCount (p.exponentTail ++ rest) = 0
    unfold Spelling.exponentTail
    cases p.exponent with
    | none => exact hrest.fraction
    | some e => rfl
  · rename_i hempty
    have hcount : digitCount (p.fraction ++ (p.exponentTail ++ rest)) = p.fraction.length := by
      rw [digitCount_append p.isAsciiDigit_fraction, digitCount_exponentTail p hrest, Nat.add_zero]
    have hne : p.fraction.length ≠ 0 := by simpa using hempty
    rw [List.cons_append, fractionCount, hcount, if_neg hne, List.length_cons]

theorem digitCount_fractionTail :
    digitCount (p.fractionText ++ (p.exponentTail ++ rest)) = 0 := by
  unfold Spelling.fractionText
  split
  · exact digitCount_exponentTail p hrest
  · rfl

theorem munch?_spelled {c : Char} {cs : List Char} (htext : p.text = c :: cs) :
    munch? c (cs ++ rest) = some (.number, cs.length) := by
  obtain ⟨d, ds, hwhole⟩ := List.exists_cons_of_ne_nil p.whole_ne_nil
  rw [Spelling.text, hwhole, List.cons_append] at htext
  obtain ⟨rfl, rfl⟩ := List.cons.inj htext
  have hd := p.isAsciiDigit_whole d (by simp [hwhole])
  have hds : ∀ c ∈ ds, Number.Numeral.isAsciiDigit c = true := fun c hc =>
    p.isAsciiDigit_whole c (by simp [hwhole, hc])
  unfold munch?
  rw [isNameStart_of_isAsciiDigit hd, if_neg (by decide), if_pos (isDigit_of_isAsciiDigit hd)]
  simp only [List.append_assoc]
  unfold numberCount
  dsimp only
  rw [digitCount_append hds, digitCount_fractionTail p hrest, Nat.add_zero, List.drop_left,
    fractionCount_spelled p hrest, ← List.drop_drop, List.drop_left, List.drop_left,
    exponentCount_spelled p hrest]
  simp only [List.length_append, Nat.add_assoc]

end Spelled

/-- The text of a positive number is one lexeme with that number for its value. -/
theorem scans_number {x : Number} {m s : Nat} (hx : Number.shape x = .finite false m s)
    (line : Int) : Scans line (Number.text x).toList
      [⟨.number, Number.text x, .number x, line⟩] line EndsNumber := by
  obtain ⟨p, htext, -⟩ := Number.exists_spelling hx
  obtain ⟨c, cs, hcs, -⟩ := p.head_text
  have hlist : (Number.text x).toList = c :: cs := by
    rw [htext, Number.signed, String.toList_ofList]
    exact hcs
  have hl : literalOf? .number (c :: cs) = some (.number x) := by
    have hfinite : Number.isFinite x = true := by simp [Number.isFinite, hx]
    simp only [literalOf?]
    rw [← hlist, String.ofList_toList, Number.read?_text hx]
    simp only [hfinite, if_true]
  have hline : Text.lineEnds (c :: cs) = 0 := by
    rw [← hcs]
    exact List.count_eq_zero.2 fun hmem => absurd (p.isMark_of_mem_text hmem).toNat.1 (by decide)
  have hscans := scans_lexeme (fun rest hrest => munch?_spelled p hrest hcs) hl line
  rw [hline, ← hlist, String.ofList_toList, Int.natCast_zero, Int.add_zero] at hscans
  exact hscans

end Parlance.Token
