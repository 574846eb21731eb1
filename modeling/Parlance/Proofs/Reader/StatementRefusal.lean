import Parlance.Proofs.Reader.Refusal
import Parlance.Proofs.Reader.Statement

/-!
# How a reading of statements fails

A reading of statements fails as one of expressions does: it refuses a token, or it gives up at the
limit for nesting with more tokens before it than there was room.
-/

namespace Parlance.Reader.Plain

variable {α β : Type} {last : Int} {room : Nat}

theorem andThen_fault {p : Plain α} {k : α → Plain β} {size : Nat} {ts : List Token} {e : Error}
    (h : p.andThen k ts = .error e) (hp : p ts = .error e → Fault room size e)
    (hk : ∀ a mid, p ts = .ok (a, mid) → k a mid = .error e → Fault room size e) :
    Fault room size e := by
  rcases andThen_eq_error h with h | ⟨a, mid, hok, h⟩
  · exact hp h
  · exact hk a mid hok h

theorem declaration_fault {name : String} {value : Expr → Expr} {fresh : Bool} {line : Int}
    {ts : List Token} {e : Error} (h : declaration last room name value fresh line ts = .error e) :
    Fault room ts.length e :=
  andThen_fault h expression_fault fun _ _ _ h => nomatch h

theorem introduction_fault {line : Int} {ts : List Token} {e : Error}
    (h : introduction last room line ts = .error e) : Fault room ts.length e := by
  refine andThen_fault h token_fault fun name mid hname hafter => ?_
  refine andThen_fault hafter token_fault fun sign mid' hsign hvalue => ?_
  obtain ⟨-, rfl⟩ := token_eq_ok hname
  obtain ⟨-, rfl⟩ := token_eq_ok hsign
  exact (declaration_fault hvalue).mono (by simp only [List.length_cons]; omega)

theorem expressionStatement_fault {line : Int} {ts : List Token} {e : Error}
    (h : expressionStatement last room line ts = .error e) : Fault room ts.length e :=
  andThen_fault h expression_fault fun _ _ _ h => nomatch h

theorem named_fault {x : Token} {ts : List Token} {e : Error} (hx : x.kind = .identifier)
    (h : statement last room (x :: ts) = .error e) : Fault room (x :: ts).length e := by
  match ts with
  | [] =>
    rw [statement_name hx (by rintro _ _ ⟨⟩)] at h
    exact expressionStatement_fault h
  | sign :: more =>
    have hle : more.length ≤ (x :: sign :: more).length := by simp only [List.length_cons]; omega
    cases naming sign.kind with
    | assign hs =>
      rw [statement_assign hx hs] at h
      exact (declaration_fault h).mono hle
    | assigning hs =>
      rw [statement_assigning hx hs] at h
      exact (declaration_fault h).mono hle
    | value hs =>
      rw [statement_name hx (by rintro _ _ ⟨⟩; exact hs)] at h
      exact expressionStatement_fault h

mutual
theorem statement_fault {room : Nat} {ts : List Token} {e : Error}
    (h : statement last room ts = .error e) : Fault room ts.length e := by
  match ts with
  | [] =>
    rw [statement_nil] at h
    exact expressionStatement_fault h
  | t :: ts =>
    have hle : ts.length ≤ (t :: ts).length := Nat.le_succ _
    cases hk : t.kind with
    | letWord =>
      rw [statement_let hk] at h
      exact (introduction_fault h).mono hle
    | printWord =>
      rw [statement_print hk] at h
      exact (andThen_fault h expression_fault fun _ _ _ h => nomatch h).mono hle
    | ifWord =>
      rw [statement_if hk] at h
      exact (branching_fault h).mono hle
    | whileWord =>
      rw [statement_while hk] at h
      refine Fault.mono (andThen_fault h expression_fault fun condition mid hcondition h => ?_) hle
      have hlt : mid.length < ts.length := Reading.shorter_of_plain hcondition
      exact andThen_fault h (fun h => (block_fault h).mono (Nat.le_of_lt hlt)) fun _ _ _ h => nomatch h
    | identifier => exact named_fault hk h
    | _ =>
      rw [statement_expression (by rw [hk]; rfl)] at h
      exact expressionStatement_fault h
termination_by (ts.length, 0)

theorem branching_fault {room : Nat} {line : Int} {ts : List Token} {e : Error}
    (h : branching last room line ts = .error e) : Fault room ts.length e := by
  rw [branching_eq] at h
  refine andThen_fault h expression_fault fun condition mid hcondition hblock => ?_
  have hlt : mid.length < ts.length := Reading.shorter_of_plain hcondition
  refine andThen_fault hblock (fun h => (block_fault h).mono (Nat.le_of_lt hlt)) ?_
  intro yes mid' hyes helse
  have hlt' : mid'.length < mid.length := Reading.shorter_of_plain hyes
  have hle : (skipNewlines mid').length ≤ mid'.length := skipNewlines_length_le mid'
  unfold alternative at helse
  split at helse
  · cases helse
  · rename_i t more hskip
    rw [hskip, List.length_cons] at hle
    split at helse
    · have hmore : more.length < ts.length := by omega
      refine andThen_fault helse (fun hno => ?_) fun _ _ _ h => nomatch h
      exact (within_fault hno fun inside h => branching_fault h).mono hmore
    · split at helse
      · have hmore : more.length < ts.length := by omega
        refine andThen_fault helse (fun hno => ?_) fun _ _ _ h => nomatch h
        exact (block_fault hno).mono (Nat.le_of_lt hmore)
      · cases helse
termination_by (ts.length, 0)

theorem block_fault {room : Nat} {ts : List Token} {e : Error}
    (h : block last room ts = .error e) : Fault room ts.length e := by
  rw [block_eq] at h
  refine andThen_fault h token_fault fun opener mid hopen hinner => ?_
  have hlt : (skipNewlines mid).length < ts.length := by
    rw [(token_eq_ok hopen).2]
    exact Nat.lt_succ_of_le (skipNewlines_length_le mid)
  refine Fault.mono ?_ hlt
  exact within_fault hinner fun inside hbody => body_fault hbody
termination_by (ts.length, 0)

theorem body_fault {room : Nat} {ts : List Token} {e : Error}
    (h : body last room ts = .error e) : Fault room ts.length e := by
  match ts with
  | [] =>
    rw [body_nil] at h
    obtain rfl := Except.error.inj h
    exact .refusal
  | t :: ts =>
    by_cases hclose : t.kind = .rightBrace
    · rw [body_close hclose] at h
      cases h
    · by_cases hend : t.kind = .endOfInput
      · rw [body_end hend] at h
        obtain rfl := Except.error.inj h
        exact .refusal
      · rw [body_statement hclose hend] at h
        refine andThen_fault h statementLine_fault fun s mid hline hrest => ?_
        have hlt : mid.length < (t :: ts).length := statementLine_shorter hline
        exact andThen_fault hrest (fun h => (body_fault h).mono (Nat.le_of_lt hlt))
          fun _ _ _ h => nomatch h
termination_by (ts.length, 2)

theorem statementLine_fault {room : Nat} {ts : List Token} {e : Error}
    (h : statementLine last room ts = .error e) : Fault room ts.length e := by
  refine andThen_fault h statement_fault fun s mid _ hend => ?_
  split at hend
  · cases hend
  · obtain rfl := Except.error.inj hend
    exact .refusal
termination_by (ts.length, 1)
end

theorem program_fault {room : Nat} {ts : List Token} {e : Error}
    (h : program last room ts = .error e) : Fault room ts.length e := by
  obtain ⟨-, hline | ⟨s, rest, hline, hrest⟩⟩ := program_eq_error h
  · exact statementLine_fault hline
  · have hlt : rest.length < ts.length := statementLine_shorter hline
    exact (program_fault hrest).mono (Nat.le_of_lt hlt)
termination_by ts.length

end Parlance.Reader.Plain
