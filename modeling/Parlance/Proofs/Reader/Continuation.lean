import Parlance.Proofs.Reader.LastToken
import Parlance.Proofs.Reader.Splice

/-!
# Programs that go on

The readers of statements, carried from an input that ends to one that goes on. A statement at the
end of the common tokens is read again unless what follows goes on with its expression, or is an
`else` or `elif` of its conditional.
-/

namespace Parlance.Reader

variable {b : Splice}

/-! ## Line ends -/

theorem skipNewlines_cons {t : Token} {ts : List Token} (h : t.kind ≠ .newline) :
    skipNewlines (t :: ts) = t :: ts :=
  List.dropWhile_cons_of_neg (by simpa using h)

theorem skipNewlines_of_end {last : Int} {ts : List Token}
    (h : (front last ts).kind = .endOfInput) : skipNewlines ts = ts := by
  match ts with
  | [] => rfl
  | t :: rest => exact skipNewlines_cons (by rw [show t.kind = _ from h]; decide)

theorem Splice.skipNewlines_old (ts : List Token) :
    skipNewlines (b.old ts) = b.old (skipNewlines ts) := by
  unfold old
  cases h : skipNewlines ts with
  | nil => rw [skipNewlines_append_of_nil h, skipNewlines_of_end b.ends, List.nil_append]
  | cons t rest => exact skipNewlines_append h b.tail

theorem Splice.skipNewlines_map (ts : List Token) :
    skipNewlines (ts.map (.moved b.move)) = (skipNewlines ts).map (.moved b.move) := by
  unfold skipNewlines
  rw [List.dropWhile_map]
  rfl

theorem Splice.skipNewlines_new {ts : List Token} (h : skipNewlines ts ≠ []) :
    skipNewlines (b.new ts) = b.new (skipNewlines ts) := by
  obtain ⟨t, rest, hskip⟩ := List.exists_cons_of_ne_nil h
  unfold new
  rw [hskip, skipNewlines_append (by rw [skipNewlines_map, hskip]; rfl)]
  rfl

theorem Splice.skipNewlines_new_of_nil {ts : List Token} (h : skipNewlines ts = []) :
    skipNewlines (b.new ts) = skipNewlines b.more :=
  skipNewlines_append_of_nil (by rw [skipNewlines_map, h]; rfl) b.more

theorem Splice.skipNewlines_new_of_ends {ts : List Token} (h : b.Ends) :
    skipNewlines (b.new ts) = b.new (skipNewlines ts) := by
  by_cases hnil : skipNewlines ts = []
  · rw [skipNewlines_new_of_nil hnil, hnil]
    exact skipNewlines_of_end h
  · exact skipNewlines_new hnil

theorem unbranched_of_end {last : Int} {ts : List Token} (h : (front last ts).kind = .endOfInput) :
    Unbranched ts := by
  intro t rest hts
  rw [skipNewlines_of_end h] at hts
  subst hts
  rw [show t.kind = _ from h]
  decide

/-- What the line ends after a statement leave of the common tokens, when they are read again. -/
def LineSeam (b : Splice) (rest : List Token) : Prop := rest ≠ [] ∨ b.Ends

/-- What a statement leaves of the common tokens, when it is read again. -/
def StmtSeam (b : Splice) (rest : List Token) : Prop :=
  ExprSeam b rest ∧ (skipNewlines rest ≠ [] ∨ Unbranched b.more)

theorem StmtSeam.of_ends {rest : List Token} (h : b.Ends) : StmtSeam b rest :=
  ⟨.inr (calm_of_end h), .inr (unbranched_of_end h)⟩

theorem StmtSeam.of_skip {rest : List Token} (h : skipNewlines rest ≠ []) : StmtSeam b rest := by
  refine ⟨.inl ?_, .inl h⟩
  rintro rfl
  exact h rfl

namespace Plain

/-! ## Statements without blocks -/

section Simple

variable {room room' : Nat} {ts : List Token}

theorem newlines_carried :
    Carried b (LineSeam b) id ts (newlines (b.old ts)) (newlines (b.new ts)) := by
  unfold newlines
  rw [Splice.skipNewlines_old]
  refine .ok (skipNewlines_suffix ts) fun h => ?_
  rcases h with h | h
  · rw [Splice.skipNewlines_new h]
  · rw [Splice.skipNewlines_new_of_ends h]

theorem declaration_carried {name : String} {value : Expr → Expr} {fresh : Bool} {line : Int}
    (hroom : room ≤ room') :
    Carried b (ExprSeam b) (.moved b.move) ts
      (declaration b.last room name value fresh line (b.old ts))
      (declaration b.last' room' name value fresh (b.move line) (b.new ts)) :=
  .thenGive (expression_carried hroom) fun _ => by rw [Stmt.moved]; rfl

theorem introduction_carried {line : Int} (hroom : room ≤ room') :
    Carried b (ExprSeam b) (.moved b.move) ts (introduction b.last room line (b.old ts))
      (introduction b.last' room' (b.move line) (b.new ts)) :=
  .tokenThen (by decide) fun _ _ _ => .tokenThen (by decide) fun _ _ _ => declaration_carried hroom

theorem expressionStatement_carried {line : Int} (hroom : room ≤ room') :
    Carried b (ExprSeam b) (.moved b.move) ts (expressionStatement b.last room line (b.old ts))
      (expressionStatement b.last' room' (b.move line) (b.new ts)) :=
  .thenGive (expression_carried hroom) fun _ => by rw [Stmt.moved]; rfl

theorem statement_end {last : Int} (h : (front last ts).kind = .endOfInput) :
    statement last room ts = .error (refusal last .expression ts) := by
  match ts with
  | [] =>
    rw [statement_nil]
    exact andThen_of_error (expression_end h 0)
  | t :: ts =>
    rw [statement_expression (by rw [show t.kind = _ from h]; rfl)]
    exact andThen_of_error (expression_end h 0)

/-- A name alone is an expression. -/
theorem expression_name {last : Int} {least : Nat} {t : Token} (h : t.kind = .identifier)
    (hts : Calm ts) : expression last room least (t :: ts) = .ok (.name t.lexeme, ts) := by
  rw [expression_eq, andThen_of_ok (operand_name h hts.leftParen)]
  exact joined_calm hts.joining

theorem statement_of_name {last : Int} {t : Token} (h : t.kind = .identifier) (hts : Calm ts) :
    statement last room (t :: ts) = .ok (.expr (.name t.lexeme) t.line, ts) := by
  rw [statement_name h hts.assigns]
  exact andThen_of_ok (expression_name h hts)

/-- A statement that starts with a name. -/
theorem named_carried {t : Token} (hroom : room ≤ room') (hk : t.kind = .identifier) :
    Carried b (ExprSeam b) (.moved b.move) (t :: ts) (statement b.last room (t :: b.old ts))
      (statement b.last' room' (t.moved b.move :: b.new ts)) := by
  have hk' : (t.moved b.move).kind = .identifier := hk
  cases ts with
  | nil =>
    have hold : statement b.last room (t :: b.old []) = .ok (.expr (.name t.lexeme) t.line, b.old []) :=
      statement_of_name hk (calm_of_end b.ends)
    rw [hold]
    refine .ok (List.suffix_cons t []) fun hseam => ?_
    rw [Stmt.moved]
    exact statement_of_name hk' (hseam.resolve_left fun h => h rfl)
  | cons sign ts =>
    show Carried b _ _ _ (statement b.last room (t :: sign :: b.old ts))
      (statement b.last' room' (t.moved b.move :: sign.moved b.move :: b.new ts))
    cases naming sign.kind with
    | assign hs =>
      rw [statement_assign hk hs, statement_assign hk' (show (sign.moved _).kind = _ from hs)]
      exact .cons (.cons (declaration_carried hroom))
    | assigning hs =>
      rw [statement_assigning hk hs,
        statement_assigning hk' (show Op.assigning? (sign.moved _).kind = _ from hs)]
      exact .cons (.cons (declaration_carried hroom))
    | value hs =>
      rw [statement_name hk (by rintro _ _ ⟨⟩; exact hs),
        statement_name hk' (by rintro _ _ ⟨⟩; exact hs)]
      exact expressionStatement_carried hroom

end Simple

/-! ## Blocks -/

theorem body_ended {last : Int} {room : Nat} {ts : List Token}
    (h : (front last ts).kind = .endOfInput) :
    body last room ts = .error (refusal last .closedBlock ts) := by
  match ts with
  | [] => exact body_nil last room
  | t :: ts => exact body_end h

theorem ne_nil_of_body {room : Nat} {rest left : List Token} {ss : List Stmt}
    (h : body b.last room (b.old rest) = .ok (ss, left)) : rest ≠ [] := by
  rintro rfl
  cases h.symm.trans (body_ended b.ends)

theorem skipNewlines_ne_nil_of_not_ends {rest : List Token}
    (h : ¬ endsStatement (front b.last (b.old rest)).kind = true) : skipNewlines rest ≠ [] := by
  match rest with
  | [] =>
    rw [show (front b.last (b.old [])).kind = _ from b.ends] at h
    exact absurd rfl h
  | t :: rest =>
    have ht : t.kind ≠ .newline := by
      intro ht
      rw [show (front b.last (b.old (t :: rest))).kind = _ from ht] at h
      exact h rfl
    rw [skipNewlines_cons ht]
    exact List.cons_ne_nil t rest

/-- The line ends after a statement. -/
theorem ended_carried {s : Stmt} {ts : List Token} :
    Carried b (LineSeam b) (.moved b.move) ts
      (if endsStatement (front b.last (b.old ts)).kind then .ok (s, skipNewlines (b.old ts))
        else .error (refusal b.last .endOfStatement (b.old ts)))
      (if endsStatement (front b.last' (b.new ts)).kind then
          .ok (s.moved b.move, skipNewlines (b.new ts))
        else .error (refusal b.last' .endOfStatement (b.new ts))) := by
  by_cases hends : endsStatement (front b.last (b.old ts)).kind = true
  · rw [if_pos hends, Splice.skipNewlines_old]
    refine .ok (skipNewlines_suffix ts) fun hseam => ?_
    have hends' : endsStatement (front b.last' (b.new ts)).kind = true := by
      match ts, hseam with
      | t :: ts, _ => exact hends
      | [], .inr hmore =>
        rw [show (front b.last' (b.new [])).kind = _ from hmore]
        rfl
    rw [if_pos hends']
    rcases hseam with hne | hmore
    · rw [Splice.skipNewlines_new hne]
    · rw [Splice.skipNewlines_new_of_ends hmore]
  · have hne := skipNewlines_ne_nil_of_not_ends hends
    match ts, hne with
    | t :: ts, _ =>
      have hends' : ¬ endsStatement (front b.last' (b.new (t :: ts))).kind = true := hends
      rw [if_neg hends, if_neg hends']
      exact .refused (List.mem_cons_self ..)

mutual
theorem statement_carried {room room' : Nat} {ts : List Token} (hroom : room ≤ room') :
    Carried b (StmtSeam b) (.moved b.move) ts (statement b.last room (b.old ts))
      (statement b.last' room' (b.new ts)) := by
  match ts with
  | [] =>
    have hold : statement b.last room (b.old []) = .error (refusal b.last .expression b.tail) :=
      statement_end b.ends
    rw [hold]
    exact .ended statement_end
  | t :: ts =>
    show Carried b _ _ _ (statement b.last room (t :: b.old ts))
      (statement b.last' room' (t.moved b.move :: b.new ts))
    cases hk : t.kind with
    | letWord =>
      rw [statement_let hk, statement_let (show (t.moved b.move).kind = _ from hk)]
      exact (introduction_carried hroom).cons.mono fun _ h => h.1
    | printWord =>
      rw [statement_print hk, statement_print (show (t.moved b.move).kind = _ from hk)]
      exact .cons (.mono (.thenGive (expression_carried hroom) fun _ => by rw [Stmt.moved]; rfl)
        fun _ h => h.1)
    | ifWord =>
      rw [statement_if hk, statement_if (show (t.moved b.move).kind = _ from hk)]
      exact .cons (branching_carried hroom)
    | whileWord =>
      rw [statement_while hk, statement_while (show (t.moved b.move).kind = _ from hk)]
      refine .cons (.thenExpr (expression_carried hroom) (fun _ h => h.1)
        fun condition rest hs hcondition => ?_)
      have hlt : rest.length < ts.length := Splice.shorter (Reading.shorter_of_plain hcondition)
      exact .mono (.thenGive (block_carried hroom) fun _ => by rw [Stmt.moved]; rfl)
        fun _ _ => trivial
    | identifier => exact (named_carried hroom hk).mono fun _ h => h.1
    | _ =>
      rw [statement_expression (by rw [hk]; rfl),
        statement_expression (by rw [show (t.moved b.move).kind = _ from hk]; rfl)]
      exact (expressionStatement_carried hroom).mono fun _ h => h.1
termination_by (ts.length, 0)

theorem branching_carried {room room' : Nat} {line : Int} {ts : List Token}
    (hroom : room ≤ room') :
    Carried b (StmtSeam b) (.moved b.move) ts (branching b.last room line (b.old ts))
      (branching b.last' room' (b.move line) (b.new ts)) := by
  rw [branching_eq, branching_eq]
  refine .thenExpr (expression_carried hroom) (fun _ h => h.1) fun condition rest hs hcondition => ?_
  have hlt : rest.length < ts.length := Splice.shorter (Reading.shorter_of_plain hcondition)
  refine (block_carried hroom).andThen (fun yes rest' _ hyes => ?_)
    (fun _ _ _ _ _ _ _ _ => trivial) (fun _ _ _ _ _ _ _ => trivial) fun _ _ _ _ _ => trivial
  have hlt' : rest'.length < rest.length := Splice.shorter (Reading.shorter_of_plain hyes)
  exact alternative_carried hroom
termination_by (ts.length, 0)

theorem alternative_carried {room room' : Nat} {condition : Expr} {yes : List Stmt} {line : Int}
    {ts : List Token} (hroom : room ≤ room') :
    Carried b (StmtSeam b) (.moved b.move) ts
      (alternative b.last room condition yes line (b.old ts))
      (alternative b.last' room' condition (yes.map (.moved b.move)) (b.move line) (b.new ts)) := by
  have hmoved : Stmt.moved b.move (.branch condition yes [] line) =
      .branch condition (yes.map (.moved b.move)) [] (b.move line) := by
    rw [Stmt.moved]
    rfl
  cases hskip : skipNewlines ts with
  | nil =>
    -- the common tokens end here, and only an `else` or `elif` would be looked for behind them
    have hold : skipNewlines (b.old ts) = b.tail := by
      rw [Splice.skipNewlines_old, hskip]
      rfl
    rw [alternative_none]
    · refine .ok (List.suffix_refl ts) fun hseam => ?_
      rw [hmoved]
      refine alternative_none ?_
      rw [Splice.skipNewlines_new_of_nil hskip]
      exact hseam.2.resolve_left fun h => h hskip
    · rw [hold]
      intro t rest htail
      have hends := b.ends
      rw [htail] at hends
      rw [show t.kind = _ from hends]
      decide
  | cons t rest =>
    have hne : skipNewlines ts ≠ [] := by rw [hskip]; exact List.cons_ne_nil t rest
    have hold : skipNewlines (b.old ts) = t :: b.old rest := by
      rw [Splice.skipNewlines_old, hskip]
      rfl
    have hnew : skipNewlines (b.new ts) = t.moved b.move :: b.new rest := by
      rw [Splice.skipNewlines_new hne, hskip]
      rfl
    have hs : t :: rest <:+ ts := hskip ▸ skipNewlines_suffix ts
    have hlt : rest.length < ts.length := hs.length_le
    have hrest : rest <:+ ts := (List.suffix_cons t rest).trans hs
    by_cases helif : t.kind = .elifWord
    · rw [alternative_elif hold helif, alternative_elif hnew (show (t.moved _).kind = _ from helif)]
      exact .suffix (.thenGive (.within hroom fun _ _ _ hin => branching_carried hin)
        fun _ => by rw [Stmt.moved]; rfl) hrest
    · by_cases helse : t.kind = .elseWord
      · rw [alternative_else hold helse, alternative_else hnew (show (t.moved _).kind = _ from helse)]
        exact .suffix (.mono (.thenGive (block_carried hroom) fun _ => by rw [Stmt.moved])
          fun _ _ => trivial) hrest
      · rw [alternative_none, alternative_none]
        · exact .ok (List.suffix_refl ts) fun _ => by rw [hmoved]
        · rw [hnew]
          rintro _ _ ⟨⟩
          exact ⟨helif, helse⟩
        · rw [hold]
          rintro _ _ ⟨⟩
          exact ⟨helif, helse⟩
termination_by (ts.length, 0)

theorem block_carried {room room' : Nat} {ts : List Token} (hroom : room ≤ room') :
    Carried b (fun _ => True) (List.map (.moved b.move)) ts (block b.last room (b.old ts))
      (block b.last' room' (b.new ts)) := by
  rw [block_eq, block_eq]
  refine .tokenThen (by decide) fun opener rest hts => ?_
  subst hts
  refine .within hroom fun inside inside' _ hin => ?_
  refine newlines_carried.andThen (fun _ rest' hs _ => ?_) ?_ ?_ ?_
  · have hlt : rest'.length < (opener :: rest).length := Nat.lt_succ_of_le hs.length_le
    exact body_carried hin
  · exact fun _ _ _ _ _ hbody _ _ => .inl (ne_nil_of_body hbody)
  · exact fun _ _ _ _ _ _ ht => .inl (List.ne_nil_of_mem ht)
  · exact fun _ _ _ _ hmore => .inr hmore
termination_by (ts.length, 0)

theorem body_carried {room room' : Nat} {ts : List Token} (hroom : room ≤ room') :
    Carried b (fun _ => True) (List.map (.moved b.move)) ts (body b.last room (b.old ts))
      (body b.last' room' (b.new ts)) := by
  match ts with
  | [] =>
    have hold : body b.last room (b.old []) = .error (refusal b.last .closedBlock b.tail) :=
      body_ended b.ends
    rw [hold]
    exact .ended body_ended
  | t :: ts =>
    show Carried b _ _ _ (body b.last room (t :: b.old ts))
      (body b.last' room' (t.moved b.move :: b.new ts))
    by_cases hclose : t.kind = .rightBrace
    · rw [body_close hclose, body_close (show (t.moved _).kind = _ from hclose)]
      exact .ok (List.suffix_cons t ts) fun _ => rfl
    · by_cases hend : t.kind = .endOfInput
      · rw [body_end hend, body_end (show (t.moved _).kind = _ from hend)]
        exact .refused (List.mem_cons_self ..)
      · rw [body_statement hclose hend, body_statement (show (t.moved _).kind ≠ _ from hclose) hend]
        refine (statementLine_carried hroom).andThen (fun s rest hs hline => ?_) ?_ ?_ ?_
        · have hlt : rest.length < (t :: ts).length :=
            Splice.shorter (statementLine_shorter hline)
          exact .thenGive (body_carried hroom) fun _ => rfl
        · intro s rest c left _ hbody _ _
          obtain ⟨ss, mid, hss, -⟩ := andThen_eq_ok hbody
          exact .inl (ne_nil_of_body hss)
        · exact fun _ _ _ _ _ _ ht => .inl (List.ne_nil_of_mem ht)
        · exact fun _ _ _ _ hmore => .inr hmore
termination_by (ts.length, 2)

theorem statementLine_carried {room room' : Nat} {ts : List Token} (hroom : room ≤ room') :
    Carried b (LineSeam b) (.moved b.move) ts (statementLine b.last room (b.old ts))
      (statementLine b.last' room' (b.new ts)) := by
  refine (statement_carried hroom).andThen (fun s rest _ _ => ended_carried) ?_ ?_
    fun _ _ _ _ hmore => .of_ends hmore
  · intro s rest c left _ hleft _ hseam
    split at hleft
    · have hskip := (Prod.mk.inj (Except.ok.inj hleft)).2
      rw [Splice.skipNewlines_old] at hskip
      obtain rfl := Splice.old_inj hskip
      rcases hseam with hne | hmore
      · exact .of_skip hne
      · exact .of_ends hmore
    · cases hleft
  · intro s rest wanted t _ hrefused ht
    split at hrefused
    · cases hrefused
    · rename_i hends
      exact .of_skip (skipNewlines_ne_nil_of_not_ends hends)
termination_by (ts.length, 1)
end

/-! ## Programs -/

section Program

variable {room room' : Nat}

/-- **A program that fails, fails again**, at the same token, unless it met the end of the input or
stopped at the limit. -/
theorem program_error {ts : List Token} {e : Error} (hroom : room ≤ room')
    (hno : ∀ t ∈ ts, t.kind ≠ .endOfInput) (h : program b.last room (b.old ts) = .error e) :
    (∃ wanted, ∃ t ∈ ts, e = meeting wanted t ∧
      program b.last' room' (b.new ts) = .error (meeting wanted (t.moved b.move))) ∨
    (∃ wanted, e = refusal b.last wanted b.tail ∧
      (b.Ends → program b.last' room' (b.new ts) = .error (refusal b.last' wanted b.more))) ∨
    ∃ line, e = ⟨.sourceTooDeep, line⟩ := by
  match ts with
  | [] =>
    rw [program_end (show (front b.last (b.old [])).kind = _ from b.ends)] at h
    cases h
  | t :: ts =>
    have hcarried : Carried b _ _ (t :: ts) _ _ := statementLine_carried hroom
    have hfront' : (front b.last' (b.new (t :: ts))).kind ≠ .endOfInput :=
      hno t (List.mem_cons_self ..)
    rcases program_eq_error h with ⟨-, hline | ⟨s, rest, hline, hrest⟩⟩
    · generalize hr' : statementLine b.last' room' (b.new (t :: ts)) = r' at hcarried
      rw [hline] at hcarried
      cases hcarried with
      | refused hu => exact .inl ⟨_, _, hu, rfl, program_of_error hfront' hr'⟩
      | ended h => exact .inr (.inl ⟨_, rfl, fun hmore => program_of_error hfront' (hr'.trans (h hmore))⟩)
      | deep => exact .inr (.inr ⟨_, rfl⟩)
    · obtain ⟨left, hs, rfl, hnew⟩ := hcarried.of_ok hline
      have hlt : left.length < (t :: ts).length := Splice.shorter (statementLine_shorter hline)
      have hne : left ≠ [] := by
        rintro rfl
        rw [program_end (show (front b.last (b.old [])).kind = _ from b.ends)] at hrest
        cases hrest
      have hline' := program_of_ok hfront' (hnew (.inl hne))
      rcases program_error hroom (fun u hu => hno u (hs.subset hu)) hrest with
        ⟨wanted, u, hu, he, hprogram⟩ | ⟨wanted, he, hprogram⟩ | hdeep
      · refine .inl ⟨wanted, u, hs.subset hu, he, ?_⟩
        rw [hline', hprogram]
        rfl
      · refine .inr (.inl ⟨wanted, he, fun hmore => ?_⟩)
        rw [hline', hprogram hmore]
        rfl
      · exact .inr (.inr hdeep)
termination_by ts.length
decreasing_by exact hlt

/-- A program is read again where the second input ends as the first does. -/
theorem program_again {ts : List Token} {ss : List Stmt} (hroom : room ≤ room') (hends : b.Ends)
    (h : program b.last room (b.old ts) = .ok ss) :
    program b.last' room' (b.new ts) = .ok (ss.map (.moved b.move)) := by
  rcases program_eq_ok h with ⟨hend, rfl⟩ | ⟨s, rest, more, hline, hrest, rfl⟩
  · match ts with
    | [] => exact program_end hends
    | t :: ts => exact program_end hend
  · have hcarried : Carried b _ _ ts _ _ := statementLine_carried hroom
    obtain ⟨left, -, rfl, hnew⟩ := hcarried.of_ok hline
    have hlt : left.length < ts.length := Splice.shorter (statementLine_shorter hline)
    have hfront : (front b.last' (b.new ts)).kind ≠ .endOfInput := by
      match ts, hline with
      | [], _ => exact absurd hlt (Nat.not_lt_zero _)
      | t :: ts, hline =>
        intro hend
        rw [program_end (show (front b.last (b.old (t :: ts))).kind = _ from hend)] at h
        cases h
    rw [program_of_ok hfront (hnew (.inr hends)), program_again hroom hends hrest]
    rfl
termination_by ts.length

/-- Where a program ends, a statement ends in the second input as well. -/
def ProgramSeam (b : Splice) (ts : List Token) : Prop :=
  (∃ before line, ts = before ++ [line] ∧ line.kind = .newline) ∨
    (Calm b.more ∧ endsStatement (front b.last' b.more).kind = true)

theorem ProgramSeam.of_suffix {ts left : List Token} (h : ProgramSeam b ts) (hs : left <:+ ts)
    (hne : left ≠ []) : ProgramSeam b left := by
  rcases h with ⟨before, line, rfl, hline⟩ | h
  · obtain ⟨init, t, rfl⟩ : ∃ init t, left = init ++ [t] :=
      ⟨_, _, (List.dropLast_concat_getLast hne).symm⟩
    obtain ⟨front, hfront⟩ := hs
    rw [← List.append_assoc] at hfront
    obtain ⟨-, ht⟩ := List.append_inj' hfront rfl
    obtain rfl := List.singleton_inj.1 ht
    exact .inl ⟨init, t, rfl, hline⟩
  · exact .inr h

/-- The last statement before the seam, and the line ends after it. -/
theorem statementLine_last {ts : List Token} {s : Stmt} (hroom : room ≤ room')
    (hun : Unbranched b.more) (hseam : ProgramSeam b ts)
    (h : statementLine b.last room (b.old ts) = .ok (s, b.old [])) :
    statementLine b.last' room' (b.new ts) = .ok (s.moved b.move, skipNewlines b.more) := by
  obtain ⟨rest, hs, hends, hskip⟩ := statementLine_eq_ok h
  have hcarried : Carried b _ _ ts _ _ := statement_carried hroom
  obtain ⟨left, -, rfl, hnew⟩ := hcarried.of_ok hs
  have hnil : skipNewlines left = [] := by
    rw [Splice.skipNewlines_old] at hskip
    exact (Splice.old_inj hskip).symm
  have hleft : left ≠ [] ∨ (Calm b.more ∧ endsStatement (front b.last' b.more).kind = true) := by
    rcases hseam with ⟨before, line, hts, hline⟩ | hmore
    · obtain ⟨used, t, hused, ht⟩ := statement_leaves hs
      have hts' : ts = used ++ t :: left := by
        refine Splice.old_inj (b := b) ?_
        unfold Splice.old at hused ⊢
        rw [hused, List.append_assoc]
        rfl
      exact .inl (Leaves.ne_nil ⟨used, t, hts', ht⟩ hts hline)
    · exact .inr hmore
  have hread := hnew ⟨hleft.imp_right And.left, .inr hun⟩
  have hends' : endsStatement (front b.last' (b.new left)).kind = true := by
    match left, hleft with
    | [], .inr hmore => exact hmore.2
    | t :: left, _ => exact hends
  refine (andThen_of_ok hread).trans ?_
  rw [if_pos hends', Splice.skipNewlines_new_of_nil hnil]

/-- **A program is read again at the front of one that goes on**, and then what follows it. -/
theorem program_continues {ts : List Token} {ss : List Stmt} (hroom : room ≤ room')
    (hun : Unbranched b.more) (hno : ∀ t ∈ ts, t.kind ≠ .endOfInput) (hne : ts ≠ [])
    (hseam : ProgramSeam b ts) (h : program b.last room (b.old ts) = .ok ss) :
    program b.last' room' (b.new ts) =
      (ss.map (.moved b.move) ++ ·) <$> program b.last' room' (skipNewlines b.more) := by
  obtain ⟨t, us, rfl⟩ := List.exists_cons_of_ne_nil hne
  have ht : t.kind ≠ .endOfInput := hno t (List.mem_cons_self ..)
  have hfront' : (front b.last' (b.new (t :: us))).kind ≠ .endOfInput := ht
  rcases program_eq_ok h with ⟨hend, -⟩ | ⟨s, rest, more, hline, hrest, rfl⟩
  · exact absurd hend ht
  · have hcarried : Carried b _ _ (t :: us) _ _ := statementLine_carried hroom
    obtain ⟨left, hs, rfl, hnew⟩ := hcarried.of_ok hline
    have hlt : left.length < (t :: us).length := Splice.shorter (statementLine_shorter hline)
    by_cases hleft : left = []
    · subst hleft
      rw [program_end (show (front b.last (b.old [])).kind = _ from b.ends)] at hrest
      obtain rfl := Except.ok.inj hrest
      rw [program_of_ok hfront' (statementLine_last hroom hun hseam hline)]
      rfl
    · rw [program_of_ok hfront' (hnew (.inl hleft)), program_continues hroom hun
        (fun u hu => hno u (hs.subset hu)) hleft (hseam.of_suffix hs hleft) hrest]
      cases program b.last' room' (skipNewlines b.more) with
      | error e => rfl
      | ok ss => rfl
termination_by ts.length

end Program

end Plain

end Parlance.Reader
