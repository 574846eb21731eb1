import Parlance.Proofs.Token.Numeral

/-!
# A text is its lexemes and gaps

The scan takes a text apart into lexemes, each the longest that stands at its place, and gaps of blanks and
comments before them. Put together again they are the text, and the line ends among them number the tokens.
The scan stops only where neither a lexeme nor a gap stands, or a number that is not finite (`Offends`), and
at the first such place (`scan_lexemes`).
-/

namespace Parlance.Token

open Terminal

/-! ## Gaps and pieces -/

/-- Blanks and comments, before a rest. A comment goes on up to the next line end. -/
inductive Gap (rest : List Char) : List Char → Prop where
  | nil : Gap rest []
  | blank {c : Char} {g : List Char} (hc : c = ' ' ∨ c = '\t') (h : Gap rest g) : Gap rest (c :: g)
  | comment {body g : List Char} (hbody : '\n' ∉ body) (hend : ∀ c ∈ (g ++ rest).head?, c = '\n')
      (h : Gap rest g) : Gap rest ('#' :: (body ++ g))

theorem Gap.append {rest g g' : List Char} (h : Gap (g' ++ rest) g) (h' : Gap rest g') :
    Gap rest (g ++ g') := by
  induction h with
  | nil => exact h'
  | blank hc _ ih => exact .blank hc ih
  | comment hbody hend _ ih =>
    rw [List.cons_append, List.append_assoc]
    refine .comment hbody ?_ ih
    rwa [List.append_assoc]

/-- The value of a token is that of its lexeme. -/
structure Stands (t : Token) : Prop where
  number : t.kind = .number →
    ∃ x, Number.read? t.lexeme = some x ∧ Number.isFinite x = true ∧ t.literal = .number x
  string : t.kind = .string →
    ∃ body, t.lexeme.toList = '"' :: (body ++ ['"']) ∧ t.literal = .string (String.ofList body)
  other : t.kind ≠ .number → t.kind ≠ .string → t.literal = .nothing

/-- A token and the gap before it. -/
structure Piece where
  gap : List Char
  token : Token

def Piece.text (p : Piece) : List Char := p.gap ++ p.token.lexeme.toList

def textOf (pieces : List Piece) : List Char := pieces.flatMap Piece.text

/-- A piece is right between the text before and the text behind it. -/
structure Piece.Fits (past : List Char) (p : Piece) (rest : List Char) : Prop where
  gap : Gap (p.token.lexeme.toList ++ rest) p.gap
  longest : Longest p.token.kind p.token.lexeme.toList rest
  stands : p.token.Stands
  line : p.token.line = 1 + Text.lineEnds (past ++ p.gap)

/-- Every one of the pieces is right, where `past` stands before them and `rest` behind. -/
def AllFit (past : List Char) : List Piece → List Char → Prop
  | [], _ => True
  | p :: ps, rest => p.Fits past (textOf ps ++ rest) ∧ AllFit (past ++ p.text) ps rest

/-- A place where the scan cannot go on, and why. -/
inductive Offends : List Char → Cause → Prop where
  | stray {c : Char} {rest : List Char} (hgap : c ≠ ' ' ∧ c ≠ '\t' ∧ c ≠ '#')
      (hnone : ∀ kind w, w <+: c :: rest → ¬ Matches kind w) : Offends (c :: rest) (strayCharacter c)
  | infinite {lexeme rest : List Char} {x : Number} (h : Longest .number lexeme rest)
      (hx : Number.read? (String.ofList lexeme) = some x) (hinfinite : Number.isFinite x = false) :
      Offends (lexeme ++ rest) (.numberOutOfRange (String.ofList lexeme))

/-! ## Taking a text apart -/

/-- What the scan gives when it has come with these tokens to `rest`. -/
def Told (past : List Char) (tokens : List Token) (rest : List Char) :
    Except Error (List Token) → Prop
  | .ok ts => rest = [] ∧ ts = tokens ++ [endOfInput (1 + Text.lineEnds past)]
  | .error e => e.line = some (1 + (Text.lineEnds past : Int)) ∧ Offends rest e.cause

/-- The scan of `cs`, before which `past` stands. -/
def TakenApart (past cs : List Char) (result : Except Error (List Token)) : Prop :=
  ∃ pieces gap rest, cs = textOf pieces ++ (gap ++ rest) ∧ AllFit past pieces (gap ++ rest) ∧
    Gap rest gap ∧ Told (past ++ (textOf pieces ++ gap)) (pieces.map (·.token)) rest result

namespace TakenApart

variable {past cs : List Char} {result : Except Error (List Token)}

theorem nil (past : List Char) :
    TakenApart past [] (.ok [endOfInput (1 + Text.lineEnds past)]) :=
  ⟨[], [], [], rfl, trivial, .nil, rfl, by simp [textOf]⟩

theorem offends {cause : Cause} (h : Offends cs cause) :
    TakenApart past cs (.error ⟨cause, some (1 + (Text.lineEnds past : Int))⟩) :=
  ⟨[], [], cs, rfl, trivial, .nil, by simp [textOf], h⟩

theorem skip {g : List Char} (hg : Gap cs g) (h : TakenApart (past ++ g) cs result) :
    TakenApart past (g ++ cs) result := by
  obtain ⟨pieces, gap, rest, rfl, hfit, hgap, htold⟩ := h
  cases pieces with
  | nil =>
    refine ⟨[], g ++ gap, rest, by simp [textOf], trivial, Gap.append hg hgap, ?_⟩
    rwa [List.append_assoc] at htold
  | cons p ps =>
    -- the gap is put before that of the first piece
    obtain ⟨hp, hps⟩ := hfit
    have hg' : Gap (p.gap ++ (p.token.lexeme.toList ++ (textOf ps ++ (gap ++ rest)))) g := by
      simpa [textOf, Piece.text] using hg
    refine ⟨⟨g ++ p.gap, p.token⟩ :: ps, gap, rest, by simp [textOf, Piece.text], ⟨?_, ?_⟩, hgap, ?_⟩
    · refine ⟨hg'.append hp.gap, hp.longest, hp.stands, ?_⟩
      rw [hp.line, List.append_assoc]
    · simpa [Piece.text] using hps
    · simpa [textOf, Piece.text] using htold

theorem token {t : Token} {lexeme : List Char} (hstands : t.Stands)
    (hlexeme : t.lexeme.toList = lexeme) (hlongest : Longest t.kind lexeme cs)
    (hline : t.line = 1 + Text.lineEnds past) (h : TakenApart (past ++ lexeme) cs result) :
    TakenApart past (lexeme ++ cs) (result.map (t :: ·)) := by
  subst hlexeme
  obtain ⟨pieces, gap, rest, rfl, hfit, hgap, htold⟩ := h
  refine ⟨⟨[], t⟩ :: pieces, gap, rest, by simp [textOf, Piece.text], ⟨?_, hfit⟩, hgap, ?_⟩
  · exact ⟨.nil, hlongest, hstands, by rw [List.append_nil, hline]⟩
  · cases result with
    | ok ts =>
      obtain ⟨rfl, rfl⟩ := htold
      exact ⟨rfl, by simp [textOf, Piece.text]⟩
    | error e =>
      refine ⟨?_, htold.2⟩
      simpa [textOf, Piece.text] using htold.1

end TakenApart

/-! ## The value of a lexeme -/

theorem ofWord_ne_of_value {kind : Kind} (h : kind = .number ∨ kind = .string) (word : String) :
    Kind.ofWord word ≠ kind := by
  rintro rfl
  have hcases := ofWord_cases word
  rcases h with h | h
  all_goals
    rw [h] at hcases
    simp [Kind.keywords] at hcases

theorem Matches.mem_number {w : List Char} (h : Matches .number w) : w ∈ Terminal.number := by
  generalize hkind : Kind.number = kind at h
  cases h with
  | number h => exact h
  | string => cases hkind
  | name => exact absurd hkind.symm (ofWord_ne_of_value (.inl rfl) _)
  | newline => cases hkind
  | sign h =>
    subst hkind
    simp [signs] at h

theorem Matches.mem_string {w : List Char} (h : Matches .string w) : w ∈ Terminal.string := by
  generalize hkind : Kind.string = kind at h
  cases h with
  | string h => exact h
  | number => cases hkind
  | name => exact absurd hkind.symm (ofWord_ne_of_value (.inr rfl) _)
  | newline => cases hkind
  | sign h =>
    subst hkind
    simp [signs] at h

/-- The value that the scan finds for a lexeme. -/
theorem stands_of_literalOf? {kind : Kind} {lexeme : List Char} {literal : Value}
    (hmatch : Matches kind lexeme) (h : literalOf? kind lexeme = some literal) (line : Int) :
    Stands ⟨kind, String.ofList lexeme, literal, line⟩ where
  number hkind := by
    obtain rfl : kind = .number := hkind
    simp only [literalOf?] at h
    split at h
    · rename_i x hx
      split at h
      · rename_i hfinite
        exact ⟨x, hx, hfinite, (Option.some.inj h).symm⟩
      · cases h
    · cases h
  string hkind := by
    obtain rfl : kind = .string := hkind
    obtain ⟨c, w, rfl⟩ := hmatch.exists_cons
    obtain ⟨rfl, body, -, rfl⟩ := cons_mem_string.1 hmatch.mem_string
    have hliteral : literal = .string (String.ofList body) := by
      simpa [literalOf?] using h.symm
    exact ⟨body, String.toList_ofList, hliteral⟩
  other hnumber hstring := by
    unfold literalOf? at h
    split at h
    · exact absurd rfl hnumber
    · exact absurd rfl hstring
    · exact (Option.some.inj h).symm

/-- The scan finds no value only for a number that is not finite. -/
theorem infinite_of_literalOf? {kind : Kind} {lexeme : List Char} (hmatch : Matches kind lexeme)
    (h : literalOf? kind lexeme = none) : kind = .number ∧
      ∃ x, Number.read? (String.ofList lexeme) = some x ∧ Number.isFinite x = false := by
  unfold literalOf? at h
  split at h
  · obtain ⟨x, hx⟩ := exists_read?_of_mem_number hmatch.mem_number
    rw [hx] at h
    dsimp only at h
    split at h
    · cases h
    · rename_i hfinite
      exact ⟨rfl, x, hx, Bool.eq_false_iff.2 hfinite⟩
  · cases h
  · cases h

/-! ## The scan -/

theorem lineEnds_append (cs ds : List Char) :
    Text.lineEnds (cs ++ ds) = Text.lineEnds cs + Text.lineEnds ds := List.count_append

theorem lineEnds_of_notMem {cs : List Char} (h : '\n' ∉ cs) : Text.lineEnds cs = 0 :=
  List.count_eq_zero.2 h

theorem newline_notMem_takeWhile (cs : List Char) : '\n' ∉ cs.takeWhile (· != '\n') := by
  intro h
  exact absurd (List.all_eq_true.1 List.all_takeWhile _ h) (by decide)

theorem gap_comment (cs : List Char) :
    Gap (cs.dropWhile (· != '\n')) ('#' :: cs.takeWhile (· != '\n')) := by
  rw [← List.append_nil (cs.takeWhile _)]
  refine .comment (newline_notMem_takeWhile cs) (fun c hc => ?_) .nil
  have hstop := List.head?_dropWhile_not (· != '\n') cs
  rw [List.nil_append] at hc
  rw [Option.mem_def.1 hc] at hstop
  simpa using hstop

/-- One step of the scan. -/
theorem TakenApart.munch {line : Int} {past rest : List Char} {c : Char} {kind : Kind} {count : Nat}
    {literal : Value} {result : Except Error (List Token)} (hline : line = 1 + Text.lineEnds past)
    (hm : munch? c rest = some (kind, count))
    (hl : literalOf? kind (c :: rest.take count) = some literal)
    (h : TakenApart (past ++ c :: rest.take count) (rest.drop count) result) :
    TakenApart past (c :: rest)
      (result.map (⟨kind, String.ofList (c :: rest.take count), literal, line⟩ :: ·)) := by
  have hlongest := munch?_longest hm
  have hstands := stands_of_literalOf? hlongest.matched hl line
  have htoken := TakenApart.token hstands String.toList_ofList hlongest hline h
  rwa [List.cons_append, List.take_append_drop] at htoken

/-- **The scan takes a text apart.** -/
theorem scanFrom_takenApart {line : Int} {cs past : List Char}
    (hline : line = 1 + Text.lineEnds past) : TakenApart past cs (scanFrom line cs) := by
  fun_induction scanFrom line cs generalizing past with
  | case1 line =>
    subst hline
    exact .nil past
  | case2 line c rest hblank ih =>
    have hc : c = ' ' ∨ c = '\t' := by simpa using hblank
    have hend : '\n' ∉ [c] := by rcases hc with rfl | rfl <;> decide
    have hgap : Gap rest [c] := .blank hc .nil
    exact .skip hgap (ih (by rw [hline, lineEnds_append, lineEnds_of_notMem hend, Nat.add_zero]))
  | case3 line c rest hblank hcomment ih =>
    obtain rfl : c = '#' := beq_iff_eq.1 hcomment
    have hend : '\n' ∉ '#' :: rest.takeWhile (· != '\n') := by
      simpa using newline_notMem_takeWhile rest
    have hskip : TakenApart past _ _ := .skip (gap_comment rest)
      (ih (by rw [hline, lineEnds_append, lineEnds_of_notMem hend, Nat.add_zero]))
    rwa [List.cons_append, List.takeWhile_append_dropWhile] at hskip
  | case4 line c rest hblank hcomment hm =>
    subst hline
    refine .offends (.stray ?_ fun kind w hw => not_matches_of_munch? hm hw)
    simpa [not_or, and_assoc] using And.intro hblank hcomment
  | case5 line c rest hblank hcomment kind count hm lexeme =>
    rename_i hl
    subst hline
    have hlongest := munch?_longest hm
    obtain ⟨rfl, x, hx, hinfinite⟩ := infinite_of_literalOf? hlongest.matched hl
    have hoffends : TakenApart past _ _ := .offends (.infinite hlongest hx hinfinite)
    rwa [List.cons_append, List.take_append_drop] at hoffends
  | case6 line c rest hblank hcomment kind count hm lexeme literal hl tokens hscan =>
    rename_i ih
    have hnext : TakenApart (past ++ lexeme) (rest.drop count) _ :=
      ih (by rw [hline, lineEnds_append]; omega)
    rw [hscan] at hnext
    exact hnext.munch hline hm hl
  | case7 line c rest hblank hcomment kind count hm lexeme literal hl e hscan =>
    rename_i ih
    have hnext : TakenApart (past ++ lexeme) (rest.drop count) _ :=
      ih (by rw [hline, lineEnds_append]; omega)
    rw [hscan] at hnext
    exact hnext.munch hline hm hl

/-- The input ends on the line after as many lines as have an end. -/
theorem last_of_scanFrom {cs : List Char} {ts : List Token} {last : Int}
    (h : scanFrom 1 cs = .ok (ts ++ [endOfInput last])) : last = 1 + Text.lineEnds cs := by
  obtain ⟨pieces, gap, rest, hcs, -, -, htold⟩ : TakenApart [] cs (scanFrom 1 cs) := scanFrom_takenApart rfl
  rw [h] at htold
  obtain ⟨rfl, heq⟩ := htold
  obtain ⟨-, hend⟩ := List.append_inj' heq rfl
  rw [List.append_nil] at hcs
  rw [List.nil_append, ← hcs] at hend
  exact congrArg Token.line (List.singleton_inj.1 hend)

end Parlance.Token

namespace Parlance

open Token

/-- **The scanner is lossless, takes the longest lexemes and numbers the lines.** Every text is gaps and
lexemes in turn, and then a last gap. If the scan succeeds that is all, and the tokens are those of the
lexemes with the end of the input after them. If it fails, the error is about what stands behind the last
gap, and its line is the line there. -/
theorem scan_lexemes (source : String) : ∃ pieces gap rest,
    source.toList = textOf pieces ++ (gap ++ rest) ∧ AllFit [] pieces (gap ++ rest) ∧ Gap rest gap ∧
    (∀ ts, scan source = .ok ts → rest = [] ∧
      ts = pieces.map (·.token) ++ [endOfInput (1 + Text.lineEnds source.toList)]) ∧
    ∀ e, scan source = .error e →
      e.line = some (1 + (Text.lineEnds (textOf pieces ++ gap) : Int)) ∧ Offends rest e.cause := by
  obtain ⟨pieces, gap, rest, hsource, hfit, hgap, htold⟩ : TakenApart [] source.toList (scan source) :=
    scanFrom_takenApart rfl
  rw [List.nil_append] at htold
  refine ⟨pieces, gap, rest, hsource, hfit, hgap, fun ts hts => ?_, fun e he => ?_⟩
  · rw [hts] at htold
    obtain ⟨rfl, rfl⟩ := htold
    rw [hsource, List.append_nil]
    exact ⟨rfl, rfl⟩
  · rwa [he] at htold

end Parlance
