import Parlance.Proofs.Token.LineEnd

/-!
# A comment behind a line

The scan drops a comment up to the end of its line, so a comment put behind a line leaves the tokens
of the text as they are (`scanFrom_commented`). Two things can come in between. A string that is open at
the end of the line goes on behind the comment, where a quote may close it. And a carriage return that
ends a line together with the line end stands alone before a comment, where no token starts with it.
-/

namespace Parlance.Token

/-- Nothing, or a line end first. -/
def AtLineEnd (rest : List Char) : Prop := rest = [] ∨ ∃ more, rest = '\n' :: more

namespace AtLineEnd

variable {rest : List Char} (h : AtLineEnd rest)
include h

theorem beforeBreak : BeforeBreak rest := by
  rcases h with rfl | ⟨more, rfl⟩
  · exact beforeBreak_nil
  · exact beforeBreak_line more

theorem dropWhile_append {cs : List Char} (hcs : '\n' ∉ cs) :
    (cs ++ rest).dropWhile (· != '\n') = rest := by
  have hall : ∀ c ∈ cs, (c != '\n') = true := by
    intro c hc
    rw [bne_iff_ne]
    rintro rfl
    exact hcs hc
  rw [List.dropWhile_append_of_pos hall]
  rcases h with rfl | ⟨more, rfl⟩ <;> rfl

theorem scanFrom_comment {comment : List Char} (hline : '\n' ∉ comment) (line : Int) :
    scanFrom line (' ' :: '#' :: (comment ++ rest)) = scanFrom line rest := by
  rw [scanFrom_space, Token.scanFrom_comment, h.dropWhile_append hline]

end AtLineEnd

theorem dropWhile_append_of_mem {cs : List Char} (h : '\n' ∈ cs) (rest : List Char) :
    (cs ++ rest).dropWhile (· != '\n') = cs.dropWhile (· != '\n') ++ rest := by
  rw [List.dropWhile_append, if_neg]
  rw [List.isEmpty_iff, List.dropWhile_eq_nil_iff]
  exact fun hall => absurd (hall _ h) (by decide)

/-! ## Where no token starts -/

theorem stringCount?_eq_none {cs : List Char} : stringCount? cs = none ↔ '"' ∉ cs := by
  unfold stringCount?
  simp

/-- Where no token starts, none starts with more text behind, unless the text closes a string or its
line end takes a carriage return. -/
theorem munch?_append_eq_none {c : Char} {cs rest : List Char} (hm : munch? c cs = none)
    (hquote : c = '"' → '"' ∉ rest) (hreturn : c = '\r' → cs = [] → rest.head? ≠ some '\n') :
    munch? c (cs ++ rest) = none := by
  unfold munch? at hm ⊢
  split at hm
  · cases hm
  rw [if_neg ‹_›]
  split at hm
  · cases hm
  rw [if_neg ‹_›]
  split at hm
  · rename_i hc
    have hcs : '"' ∉ cs := stringCount?_eq_none.1 (Option.map_eq_none_iff.1 hm)
    have hnone : stringCount? (cs ++ rest) = none := by
      rw [stringCount?_eq_none, List.mem_append, not_or]
      exact ⟨hcs, hquote (beq_iff_eq.1 hc)⟩
    rw [if_pos hc, hnone]
    rfl
  rw [if_neg ‹_›]
  split at hm
  · cases hm
  rw [if_neg ‹_›]
  split at hm
  · rename_i hc
    rw [if_pos hc, if_neg]
    cases cs with
    | nil => exact hreturn (beq_iff_eq.1 hc) rfl
    | cons d cs =>
      intro hhead
      rw [if_pos (show (d :: cs).head? = some '\n' from hhead)] at hm
      cases hm
  rw [if_neg ‹_›]
  split at hm
  · cases hm
  · cases hm
  · rfl

theorem scanFrom_stray {c : Char} {rest : List Char} (hblank : ¬(c == ' ' || c == '\t') = true)
    (hcomment : ¬(c == '#') = true) (hm : munch? c rest = none) (line : Int) :
    scanFrom line (c :: rest) = .error ⟨strayCharacter c, some line⟩ := by
  rw [scanFrom.eq_def]
  simp only [hblank, hcomment, hm, if_false, Bool.false_eq_true]

theorem scanFrom_outOfRange {c : Char} {rest : List Char} {kind : Kind} {count : Nat}
    (hm : munch? c rest = some (kind, count))
    (hl : literalOf? kind (c :: rest.take count) = none) (line : Int) :
    scanFrom line (c :: rest) =
      .error ⟨.numberOutOfRange (String.ofList (c :: rest.take count)), some line⟩ := by
  obtain ⟨hblank, hcomment⟩ := not_blank_of_munch? hm
  rw [scanFrom.eq_def]
  simp only [hblank, hcomment, hm, hl, Bool.false_eq_true, if_false]

/-! ## Texts -/

/-- A text, whose scan with a line end behind it is given, may have a comment on its last line before the
rest: the rest closes no string that is open, and the line end is not taken by a carriage return. -/
structure Commentable (scanned : Except Error (List Token)) (rest : List Char) : Prop where
  closed : '"' ∈ rest → ∃ us, scanned = .ok us
  lone : rest ≠ [] → ∀ ts t last, scanned = .ok (ts ++ [t, last]) → t.lexeme ≠ "\r\n"

theorem Commentable.behind {scanned : Except Error (List Token)} {rest : List Char} {t : Token}
    (h : Commentable (scanned.map (t :: ·)) rest) : Commentable scanned rest where
  closed hmem := by
    obtain ⟨us, hus⟩ := h.closed hmem
    cases scanned with
    | error e => cases hus
    | ok vs => exact ⟨vs, rfl⟩
  lone hne ts u last hscanned := h.lone hne (t :: ts) u last (by rw [hscanned]; rfl)

section Comment

variable {line : Int} {c : Char} {cs comment rest : List Char} (hquote : '"' ∉ comment)
  (hline : '\n' ∉ comment) (hrest : AtLineEnd rest)
include hquote hrest

/-- Where no token starts, a comment further behind changes nothing. -/
theorem scanFrom_stray_commented (hblank : ¬(c == ' ' || c == '\t') = true) (hcomment : ¬(c == '#') = true)
    (hm : munch? c cs = none) (h : Commentable (scanFrom line (c :: cs ++ ['\n'])) rest) :
    scanFrom line (c :: cs ++ ' ' :: '#' :: (comment ++ rest)) = scanFrom line (c :: cs ++ rest) := by
  have hclosed : c = '"' → '"' ∉ rest := by
    rintro rfl hmem
    obtain ⟨us, hus⟩ := h.closed hmem
    have hm' : munch? '"' (cs ++ ['\n']) = none :=
      munch?_append_eq_none hm (fun _ => by decide) (fun hc => absurd hc (by decide))
    rw [List.cons_append, scanFrom_stray hblank hcomment hm'] at hus
    cases hus
  have hlone : c = '\r' → cs = [] → rest.head? ≠ some '\n' := by
    rintro rfl rfl hhead
    obtain ⟨more, rfl⟩ := List.head?_eq_some_iff.1 hhead
    have hscan : scanFrom line ['\r', '\n'] =
        .ok ([] ++ [⟨.newline, "\r\n", .nothing, line⟩, endOfInput (line + 1)]) := by
      rw [@scanFrom_token '\r' ['\n'] .newline 1 .nothing rfl rfl, List.drop_succ_cons, List.drop_zero,
        scanFrom_nil]
      rfl
    exact h.lone (List.cons_ne_nil _ _) [] _ _ hscan rfl
  have hbehind : munch? c (cs ++ ' ' :: '#' :: (comment ++ rest)) = none := by
    refine munch?_append_eq_none hm (fun hc => ?_) (fun _ _ => by simp)
    simp [hquote, hclosed hc]
  rw [List.cons_append, List.cons_append, scanFrom_stray hblank hcomment hbehind,
    scanFrom_stray hblank hcomment (munch?_append_eq_none hm hclosed hlone)]

include hline

/-- **A comment at the end of a line is no part of the text.** -/
theorem scanFrom_commented (h : Commentable (scanFrom line (cs ++ ['\n'])) rest) :
    scanFrom line (cs ++ ' ' :: '#' :: (comment ++ rest)) = scanFrom line (cs ++ rest) := by
  fun_induction scanFrom line cs with
  | case1 line => exact hrest.scanFrom_comment hline line
  | case2 line c cs hblank ih =>
    simp only [List.cons_append, scanFrom_blank hblank] at h ⊢
    exact ih h
  | case3 line c cs hblank hcomment ih =>
    obtain rfl : c = '#' := beq_iff_eq.1 hcomment
    simp only [List.cons_append, scanFrom_comment, dropWhile_before_line] at h ⊢
    by_cases hmem : '\n' ∈ cs
    · rw [dropWhile_append_of_mem hmem, dropWhile_append_of_mem hmem]
      exact ih h
    · -- the comment goes on with the new one
      have hboth : '\n' ∉ cs ++ ' ' :: '#' :: comment := by simp [hmem, hline]
      have happend : cs ++ ' ' :: '#' :: (comment ++ rest) = cs ++ ' ' :: '#' :: comment ++ rest := by simp
      rw [happend, hrest.dropWhile_append hboth, hrest.dropWhile_append hmem]
  | case4 line c cs hblank hcomment hm =>
    exact scanFrom_stray_commented hquote hrest hblank hcomment hm h
  | case5 line c cs hblank hcomment kind count hm lexeme hl =>
    have hsame {more : List Char} (hmore : BeforeBreak more) : scanFrom line (c :: cs ++ more) =
        .error ⟨.numberOutOfRange (String.ofList (c :: cs.take count)), some line⟩ := by
      obtain ⟨hm', hle⟩ := munch?_before_break hm hmore
      have htake : (cs ++ more).take count = cs.take count := List.take_append_of_le_length hle
      rw [List.cons_append, scanFrom_outOfRange hm' (by rw [htake]; exact hl), htake]
    rw [hsame (beforeBreak_blank _), hsame hrest.beforeBreak]
  | case6 line c cs hblank hcomment kind count hm lexeme literal hl tokens hscan ih
  | case7 line c cs hblank hcomment kind count hm lexeme literal hl e hscan ih =>
    rw [scanFrom_token_before_break hm hl line (beforeBreak_line [])] at h
    rw [scanFrom_token_before_break hm hl line (beforeBreak_blank _),
      scanFrom_token_before_break hm hl line hrest.beforeBreak, ih h.behind]

end Comment

end Parlance.Token

namespace Parlance

open Token

/-- The line with a comment behind it. -/
def commented (line comment : String) : String := line ++ " #" ++ comment

/-- The scan of the text comes to its end, and the last line end is that of a carriage return. -/
def EndsInReturn (text : String) : Prop :=
  ∃ ts t last, scan text = .ok (ts ++ [t, last]) ∧ t.lexeme = "\r\n"

/-- A text that scans by itself has no carriage return before a line end behind it. -/
theorem not_endsInReturn {text : String} {us : List Token} (h : scan text = .ok us) :
    ¬EndsInReturn (text ++ "\n") := by
  rintro ⟨ts, t, last, hscan, hlexeme⟩
  obtain ⟨vs, next, -, -, hline⟩ := scan_line h
  have hlast := List.append_inj_right' (Except.ok.inj (hline.symm.trans hscan)) rfl
  obtain ⟨rfl, -⟩ := List.cons.inj hlast
  exact absurd hlexeme (show "\n" ≠ "\r\n" by decide)

section Comment

variable {text line comment : String} (hquote : '"' ∉ comment.toList) (hline : '\n' ∉ comment.toList)
include hquote hline

theorem scan_commented : scan (commented line comment) = scan line := by
  have hnone : Commentable (scanFrom 1 (line.toList ++ ['\n'])) [] := ⟨nofun, fun hne => absurd rfl hne⟩
  have hscan := scanFrom_commented hquote hline (.inl rfl) hnone
  simp only [List.append_nil] at hscan
  unfold scan commented
  simpa using hscan

/-- A line with a comment behind it, between a text before and one after it. -/
theorem scan_commented_line (hreturn : ¬EndsInReturn (text ++ line ++ "\n")) {more : String}
    (hmore : '"' ∈ more.toList → ∃ us, scan (text ++ line ++ "\n") = .ok us) :
    scan (text ++ commented line comment ++ "\n" ++ more) = scan (text ++ line ++ "\n" ++ more) := by
  have htext : (text ++ line ++ "\n").toList = (text ++ line).toList ++ ['\n'] := by simp
  have hable : Commentable (scanFrom 1 ((text ++ line).toList ++ ['\n'])) ('\n' :: more.toList) := by
    rw [← htext]
    refine ⟨fun hmem => hmore (by simpa using hmem), fun _ ts t last hscan hlexeme => ?_⟩
    exact hreturn ⟨ts, t, last, hscan, hlexeme⟩
  have hscan := scanFrom_commented hquote hline (.inr ⟨_, rfl⟩) hable
  unfold scan commented
  simpa using hscan

end Comment

end Parlance
