import Parlance.Proofs.Token.Terminal

/-!
# Lexemes with blanks between them

A lexeme that is taken out of its text and put before a blank is taken again as it was
(`munch?_before_blank`): no lexeme holds a blank but a string, and a string ends at its own quote. So the
lexemes of a text, with one blank between each two, have the tokens of the text (`scan_respaced`). Line ends
are lexemes, so the tokens stay on their lines.
-/

namespace Parlance.Token

open Terminal

/-- Nothing, or a blank first. -/
def BeforeBlank (rest : List Char) : Prop := ∀ c cs, rest = c :: cs → c = ' '

theorem BeforeBlank.endsWord {rest : List Char} (h : BeforeBlank rest) : EndsWord rest := by
  intro c cs hrest
  rw [h c cs hrest]
  decide

/-! ## Lexemes -/

theorem numberCount_before_blank {cs rest : List Char} (hrest : BeforeBlank rest) :
    numberCount (cs.take (numberCount cs) ++ rest) = numberCount cs := by
  cases rest with
  | nil => rw [List.append_nil, numberCount_take]
  | cons c more =>
    obtain rfl : c = ' ' := hrest c more rfl
    rw [numberCount_append_stop (by decide), numberCount_take]

theorem withEquals_before_blank {long short kind : Kind} {cs rest : List Char} {count : Nat}
    (h : withEquals long short cs = (kind, count)) (hrest : BeforeBlank rest) :
    withEquals long short (cs.take count ++ rest) = (kind, count) := by
  unfold withEquals at h
  split at h
  · cases h
    rfl
  · cases h
    cases rest with
    | nil => rfl
    | cons c more =>
      obtain rfl : c = ' ' := hrest c more rfl
      rfl

/-- **A lexeme is taken as it was, if it is put before a blank.** -/
theorem munch?_before_blank {c : Char} {cs rest : List Char} {kind : Kind} {count : Nat}
    (hm : munch? c cs = some (kind, count)) (hrest : BeforeBlank rest) :
    munch? c (cs.take count ++ rest) = some (kind, count) := by
  unfold munch? at hm
  split at hm
  · rename_i hc
    cases hm
    rw [take_length_takeWhile]
    exact munch?_word hc (List.all_eq_true.1 List.all_takeWhile) hrest.endsWord
  split at hm
  · cases hm
    unfold munch?
    rw [if_neg ‹_›, if_pos ‹_›, numberCount_before_blank hrest]
  split at hm
  · rename_i hquote
    obtain rfl := beq_iff_eq.1 hquote
    obtain ⟨n, hn, heq⟩ := Option.map_eq_some_iff.1 hm
    obtain ⟨body, more, hbody, rfl, rfl⟩ := exists_body hn
    cases heq
    rw [List.take_left]
    exact munch?_string hbody
  split at hm
  · rename_i hline
    obtain rfl := beq_iff_eq.1 hline
    cases hm
    rfl
  split at hm
  · rename_i hreturn
    obtain rfl := beq_iff_eq.1 hreturn
    split at hm
    · rename_i hhead
      cases hm
      obtain ⟨more, rfl⟩ := List.head?_eq_some_iff.1 hhead
      rfl
    · cases hm
  split at hm
  · rename_i hsign
    cases hm
    exact munch?_sign hsign _
  · rename_i hdouble
    rw [munch?_doubleSign hdouble, withEquals_before_blank (Option.some.inj hm) hrest]
  · cases hm

theorem scans_before_blank {c : Char} {cs : List Char} {kind : Kind} {count : Nat} {literal : Value}
    (hm : munch? c cs = some (kind, count)) (hl : literalOf? kind (c :: cs.take count) = some literal)
    (line : Int) :
    Scans line (c :: cs.take count) [⟨kind, String.ofList (c :: cs.take count), literal, line⟩]
      (line + Text.lineEnds (c :: cs.take count)) BeforeBlank := by
  refine scans_lexeme (fun rest hrest => ?_) hl line
  have hle := (Matches.of_munch? hm).1
  rw [munch?_before_blank hm hrest, List.length_take, Nat.min_eq_left hle]

/-! ## Texts -/

/-- A lexeme, and the text of the others behind it. -/
theorem Scans.spaced {line mid next : Int} {t : Token} {ts : List Token} {lexemes : List String}
    (h : Scans line t.lexeme.toList [t] mid BeforeBlank)
    (h' : Scans mid (" ".intercalate lexemes).toList ts next BeforeBlank) :
    Scans line (" ".intercalate (t.lexeme :: lexemes)).toList (t :: ts) next BeforeBlank := by
  cases lexemes with
  | nil =>
    rw [String.intercalate_singleton, ← List.append_nil t.lexeme.toList]
    exact h.append h' fun rest hrest => hrest
  | cons lexeme lexemes =>
    have htext : (" ".intercalate (t.lexeme :: lexeme :: lexemes)).toList =
        t.lexeme.toList ++ ([' '] ++ (" ".intercalate (lexeme :: lexemes)).toList) := by
      simp only [String.intercalate_cons_cons, String.toList_append]
      simp
    rw [htext]
    refine h.append ((scans_space mid).append h' fun rest _ => trivial) fun rest hrest => ?_
    rintro c cs hcs
    exact (List.cons.inj hcs).1.symm

/-- **The lexemes of a text that scans, with blanks between them, scan to the same tokens.** Lexemes that are
empty text by themselves may stand behind them. -/
theorem scanFrom_spaced {line : Int} {cs : List Char} {us : List Token} {behind : List String}
    (hbehind : " ".intercalate behind = "") (h : scanFrom line cs = .ok us) :
    ∃ ts next, us = ts ++ [endOfInput next] ∧
      Scans line (" ".intercalate (ts.map (·.lexeme) ++ behind)).toList ts next BeforeBlank := by
  fun_induction scanFrom line cs generalizing us with
  | case1 line =>
    cases h
    refine ⟨[], line, rfl, fun rest _ => ?_⟩
    rw [List.map_nil, List.nil_append, hbehind]
    show scanFrom line rest = _
    cases scanFrom line rest <;> rfl
  | case2 line c rest hblank ih => exact ih h
  | case3 line c rest hblank hcomment ih => exact ih h
  | case4 line c rest hblank hcomment hm => cases h
  | case5 line c rest hblank hcomment kind count hm lexeme => cases h
  | case6 line c rest hblank hcomment kind count hm lexeme literal hl tokens hscan =>
    rename_i ih
    cases h
    obtain ⟨ts, next, rfl, hscans⟩ := ih hscan
    refine ⟨_ :: ts, next, rfl, ?_⟩
    have hlexeme := scans_before_blank hm hl line
    rw [List.map_cons, List.cons_append]
    exact .spaced (by rwa [String.toList_ofList]) hscans
  | case7 line c rest hblank hcomment kind count hm lexeme literal hl e hscan => cases h

end Parlance.Token

namespace Parlance

open Token

/-- **Spacing does not matter.** The lexemes of a text that scans, joined by single blanks, scan to just the
same tokens, with their kinds, lexemes, values and lines and the end of the input; whether the empty lexeme of
the end of the input is joined with them or not. -/
theorem scan_respaced {source : String} {tokens : List Token} (h : scan source = .ok tokens) :
    scan (" ".intercalate (tokens.map (·.lexeme))) = .ok tokens ∧
      scan (" ".intercalate (tokens.dropLast.map (·.lexeme))) = .ok tokens := by
  have hscan {text : String} {ts : List Token} {next : Int}
      (hscans : Scans 1 text.toList ts next BeforeBlank) : scan text = .ok (ts ++ [endOfInput next]) := by
    have hend := hscans [] (by simp [BeforeBlank])
    rw [List.append_nil, scanFrom_nil] at hend
    exact hend
  constructor
  · obtain ⟨ts, next, rfl, hscans⟩ := scanFrom_spaced (show " ".intercalate [""] = "" from rfl) h
    rw [List.map_append]
    exact hscan hscans
  · obtain ⟨ts, next, rfl, hscans⟩ := scanFrom_spaced (show " ".intercalate [] = "" from rfl) h
    rw [List.append_nil] at hscans
    rw [List.dropLast_concat]
    exact hscan hscans

/-- A number that leaves its exponent's mark to a name, signs that stand together, a string with a blank and a
line end in it, and a comment. -/
theorem scan_respaced_crowded : ∃ tokens, scan "1e+x==-\"a \n#\"\r\n#c" = .ok tokens ∧
    scan "1 e + x == - \"a \n#\" \r\n " = .ok tokens := by
  obtain ⟨one, hone⟩ := Option.isSome_iff_exists.1
    (show (literalOf? .number ['1']).isSome = true by decide +kernel)
  obtain ⟨ts, hrest, hlexemes⟩ : ∃ ts, scanFrom 1 "e+x==-\"a \n#\"\r\n#c".toList = .ok ts ∧
      ts.map (·.lexeme) = ["e", "+", "x", "==", "-", "\"a \n#\"", "\r\n", ""] :=
    ⟨[⟨.identifier, "e", .nothing, 1⟩, ⟨.plus, "+", .nothing, 1⟩, ⟨.identifier, "x", .nothing, 1⟩,
      ⟨.equal, "==", .nothing, 1⟩, ⟨.minus, "-", .nothing, 1⟩, ⟨.string, "\"a \n#\"", .string "a \n#", 1⟩,
      ⟨.newline, "\r\n", .nothing, 2⟩, .endOfInput 3], by cbv, rfl⟩
  have hmunch : munch? '1' "e+x==-\"a \n#\"\r\n#c".toList = some (.number, 0) := by decide +kernel
  have hscan : scan "1e+x==-\"a \n#\"\r\n#c" = .ok (⟨.number, "1", one, 1⟩ :: ts) := by
    have htoken := scanFrom_token hmunch hone 1
    rw [List.drop_zero] at htoken
    refine htoken.trans ?_
    show (scanFrom 1 _).map _ = _
    rw [hrest]
    rfl
  have htext : " ".intercalate ["1", "e", "+", "x", "==", "-", "\"a \n#\"", "\r\n", ""] =
      "1 e + x == - \"a \n#\" \r\n " := by decide +kernel
  have hrespaced := (scan_respaced hscan).1
  rw [List.map_cons, hlexemes, htext] at hrespaced
  exact ⟨_, hscan, hrespaced⟩

end Parlance
