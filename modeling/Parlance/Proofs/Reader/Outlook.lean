import Mathlib.Logic.ExistsUnique
import Parlance.Proofs.Reader.Completion

/-!
# What more input can do

An input without a token for its end is a program, or the beginning of one, or neither and nothing
that follows will make it one. The error of a failed reading tells the last two apart: it is
incomplete exactly if the input is the beginning of a program.
-/

namespace Parlance

/-- How an input stands. -/
inductive Outlook where
  /-- It is a program. -/
  | whole
  /-- It is the beginning of a program. -/
  | unfinished
  /-- It is the beginning of no program. -/
  | wrong

/-- What an outlook says of reading, at every limit from the given one on. A block that the input
waits for takes a level of nesting that the input itself does not need, so an unfinished input is
completed at every greater limit. -/
def Outlook.Fits (limit : Nat) (ts : List Token) : Outlook → Prop
  | .whole => ∃ program, ∀ limit' ≥ limit, readProgram limit' ts = .ok program
  | .unfinished =>
    ∃ e : Error, e.cause.kind = .parse ∧ e.cause.incomplete = true ∧
      (∀ limit' ≥ limit, readProgram limit' ts = .error e) ∧
      ∃ us program, ∀ limit' > limit, readProgram limit' (ts ++ us) = .ok program
  | .wrong =>
    ∃ e : Error, e.cause.kind = .parse ∧ e.cause.incomplete = false ∧
      ∀ limit' ≥ limit, ∀ us, readProgram limit' (ts ++ us) = .error e

/-- The outlook that a reading shows. -/
def Outlook.shown : Except Error (List Stmt) → Outlook
  | .ok _ => .whole
  | .error e => if e.cause.incomplete then .unfinished else .wrong

section Readings

open Reader

variable {limit limit' : Nat} {ts us : List Token} {e : Error}

theorem program_again_of_le {last last' : Int} {program : List Stmt} (hl : limit ≤ limit')
    (h : Reader.program last limit ts = .ok program) :
    Reader.program last' limit' ts = .ok program := by
  rw [← old_onward last last' [] ts] at h
  have hagain := Plain.program_again (b := onward last last' []) hl rfl h
  rwa [new_onward, List.append_nil, show (onward last last' []).move = id from rfl,
    Stmt.map_moved_id] at hagain

/-- A reading that fails has a token before it that is no line end. -/
theorem exists_token_of_error (h : readProgram limit ts = .error e) :
    ∃ t rest, skipNewlines ts = t :: rest := by
  refine List.exists_cons_of_ne_nil fun hnil => ?_
  unfold readProgram at h
  rw [hnil, Plain.program_end rfl] at h
  cases h

/-- What a reading that fails tells of the input that goes on. -/
theorem readProgram_error (hno : ∀ t ∈ ts, t.kind ≠ .endOfInput) (hl : limit ≤ limit')
    (h : readProgram limit ts = .error e) (us : List Token) :
    (∃ wanted, ∃ t ∈ ts, e = meeting wanted t ∧ readProgram limit' (ts ++ us) = .error e) ∨
    (∃ wanted, e = refusal (lastLine ts) wanted [] ∧ (us = [] → readProgram limit' ts = .error e)) ∨
    StopsAtLimit (readProgram limit ts) := by
  obtain ⟨t, rest, hskip⟩ := exists_token_of_error h
  have hs : t :: rest <:+ ts := hskip ▸ skipNewlines_suffix ts
  unfold readProgram at h
  rw [hskip, ← old_onward (lastLine ts) (lastLine (ts ++ us)) us (t :: rest)] at h
  have herror := Plain.program_error (b := onward (lastLine ts) (lastLine (ts ++ us)) us) hl
    (fun u hu => hno u (hs.subset hu)) h
  rw [new_onward] at herror
  rcases herror with ⟨wanted, u, hu, rfl, hread⟩ | ⟨wanted, rfl, hread⟩ | ⟨line, rfl⟩
  · refine .inl ⟨wanted, u, hs.subset hu, rfl, ?_⟩
    unfold readProgram
    rw [skipNewlines_append hskip]
    exact hread
  · refine .inr (.inl ⟨wanted, rfl, ?_⟩)
    rintro rfl
    unfold readProgram
    simp only [List.append_nil] at hread
    rw [hskip]
    exact hread rfl
  · refine .inr (.inr ⟨line, ?_⟩)
    rw [old_onward] at h
    rw [readProgram, hskip]
    exact h

/-- An incomplete error met the end of the input, and the input can be completed. -/
theorem readProgram_completes (hno : ∀ t ∈ ts, t.kind ≠ .endOfInput)
    (he : e.cause.incomplete = true) (h : readProgram limit ts = .error e) :
    ∃ us program, ∀ limit' > limit, readProgram limit' (ts ++ us) = .ok program := by
  obtain ⟨t, rest, hskip⟩ := exists_token_of_error h
  have hs : t :: rest <:+ ts := hskip ▸ skipNewlines_suffix ts
  unfold readProgram at h
  rw [hskip] at h
  obtain ⟨us, program, hread⟩ := Plain.program_completes (fun u hu => hno u (hs.subset hu)) he h
  refine ⟨us, program, fun limit' hl => ?_⟩
  unfold readProgram
  rw [skipNewlines_append hskip]
  exact program_again_of_le hl hread

theorem fits_of_ok {program : List Stmt} (h : readProgram limit ts = .ok program) :
    Outlook.whole.Fits limit ts :=
  ⟨program, fun _ hl => program_again_of_le hl h⟩

theorem fits_of_incomplete (hno : ∀ t ∈ ts, t.kind ≠ .endOfInput)
    (hstop : ¬ StopsAtLimit (readProgram limit ts)) (h : readProgram limit ts = .error e)
    (he : e.cause.incomplete = true) : Outlook.unfinished.Fits limit ts := by
  have hended (limit' : Nat) (hl : limit ≤ limit') :
      e.cause.kind = .parse ∧ readProgram limit' ts = .error e := by
    rcases readProgram_error hno hl h [] with ⟨wanted, t, ht, rfl, -⟩ | ⟨wanted, rfl, hread⟩ | hdeep
    · exact absurd he (not_incomplete_of_mem hno ht)
    · exact ⟨rfl, hread rfl⟩
    · exact absurd hdeep hstop
  exact ⟨e, (hended limit (Nat.le_refl _)).1, he, fun limit' hl => (hended limit' hl).2,
    readProgram_completes hno he h⟩

theorem fits_of_refused (hno : ∀ t ∈ ts, t.kind ≠ .endOfInput)
    (hstop : ¬ StopsAtLimit (readProgram limit ts)) (h : readProgram limit ts = .error e)
    (he : e.cause.incomplete = false) : Outlook.wrong.Fits limit ts := by
  have hrefused (limit' : Nat) (hl : limit ≤ limit') (us : List Token) :
      e.cause.kind = .parse ∧ readProgram limit' (ts ++ us) = .error e := by
    rcases readProgram_error hno hl h us with ⟨wanted, t, -, rfl, hread⟩ | ⟨wanted, rfl, -⟩ | hdeep
    · exact ⟨rfl, hread⟩
    · cases he
    · exact absurd hdeep hstop
  exact ⟨e, (hrefused limit (Nat.le_refl _) []).1, he, fun limit' hl us => (hrefused limit' hl us).2⟩

/-- An outlook that fits is the one that the reading shows. -/
theorem Outlook.Fits.eq_shown {o : Outlook} (h : o.Fits limit ts) :
    o = .shown (readProgram limit ts) := by
  cases o with
  | whole =>
    obtain ⟨program, hread⟩ := h
    rw [hread limit (Nat.le_refl _)]
    rfl
  | unfinished =>
    obtain ⟨e, -, he, hread, -⟩ := h
    rw [hread limit (Nat.le_refl _), Outlook.shown, if_pos he]
  | wrong =>
    obtain ⟨e, -, he, hread⟩ := h
    have hnil := hread limit (Nat.le_refl _) []
    rw [List.append_nil] at hnil
    rw [hnil, Outlook.shown, if_neg (by rw [he]; decide)]

end Readings

/-- **The flag of a refused program is exact.** An input that holds no token for its end, and is read
without reaching the limit for nesting, is a program, or fails with an error that is incomplete and
can be completed, or fails with an error that is not and fails with that error whatever follows. It
is only one of these. -/
theorem existsUnique_outlook {limit : Nat} {ts : List Token}
    (hno : ∀ t ∈ ts, t.kind ≠ .endOfInput) (hstop : ¬ StopsAtLimit (readProgram limit ts)) :
    ∃! o : Outlook, o.Fits limit ts := by
  have hfits : ∃ o : Outlook, o.Fits limit ts := by
    cases h : readProgram limit ts with
    | ok program => exact ⟨.whole, fits_of_ok h⟩
    | error e =>
      cases he : e.cause.incomplete with
      | true => exact ⟨.unfinished, fits_of_incomplete hno hstop h he⟩
      | false => exact ⟨.wrong, fits_of_refused hno hstop h he⟩
  obtain ⟨o, ho⟩ := hfits
  exact ⟨o, ho, fun o' ho' => ho'.eq_shown.trans ho.eq_shown.symm⟩

/-- A parenthesis that is opened and not closed. -/
theorem existsUnique_outlook_open_paren :
    ∃! o : Outlook,
      o.Fits nestingLimit [⟨.printWord, "print", .nothing, 1⟩, ⟨.leftParen, "(", .nothing, 1⟩] := by
  refine existsUnique_outlook (by decide) ?_
  have hread : readProgram nestingLimit
      [⟨.printWord, "print", .nothing, 1⟩, ⟨.leftParen, "(", .nothing, 1⟩] =
        .error ⟨.unexpectedToken .expression (.endOfInput 1), some 1⟩ := by cbv
  rw [hread]
  rintro ⟨line, h⟩
  cases h

end Parlance
