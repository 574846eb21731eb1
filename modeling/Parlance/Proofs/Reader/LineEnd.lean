import Parlance.Proofs.Reader.Completion

/-!
# A line end before the end

An input that ends too early, and the same input with a line end before its end. Only the statements
of a block go on over a line end; every other reader that wanted more meets the line end and refuses
it. So the second input ends too early as well if the first was in the middle of a block and wanted
a statement or the brace that closes it, and otherwise it is refused (`Plain.program_stalls`).

What a reader read of the first input it reads of the second (`Carried`), since a line end goes on
with no expression and with no conditional. What is new here is where it stops.
-/

namespace Parlance.Reader

namespace Splice

/-- The second input goes on with a line end and then ends. -/
structure Breaks (b : Splice) : Prop where
  line : (front b.last' b.more).kind = .newline
  ends : (front b.last' (skipNewlines b.more)).kind = .endOfInput

/-- The error of the second input where the first wanted something at its end. -/
def halt (b : Splice) (wanted : Wanted) : Error :=
  if wanted = .closedBlock then refusal b.last' .closedBlock (skipNewlines b.more)
  else refusal b.last' wanted b.more

namespace Breaks

variable {b : Splice} (hb : b.Breaks)
include hb

theorem exists_cons : ∃ t rest, b.more = t :: rest ∧ t.kind = .newline := by
  have hline := hb.line
  cases hmore : b.more with
  | nil =>
    rw [hmore] at hline
    cases hline
  | cons t rest =>
    rw [hmore] at hline
    exact ⟨t, rest, rfl, hline⟩

theorem calm : Calm b.more := by
  obtain ⟨t, rest, hmore, ht⟩ := hb.exists_cons
  rw [hmore]
  rintro _ _ ⟨⟩
  rw [ht]
  rfl

theorem unbranched : Unbranched b.more := by
  intro t rest hskip
  have hend := hb.ends
  rw [hskip] at hend
  rw [show t.kind = _ from hend]
  decide

theorem exprSeam (rest : List Token) : ExprSeam b rest := .inr hb.calm

theorem stmtSeam (rest : List Token) : StmtSeam b rest := ⟨hb.exprSeam rest, .inr hb.unbranched⟩

theorem programSeam : Calm b.more ∧ endsStatement (front b.last' b.more).kind = true := by
  refine ⟨hb.calm, ?_⟩
  rw [hb.line]
  rfl

/-- A reader that wants another token than a line end refuses the line end. -/
theorem token_halt {kind : Kind} {wanted : Wanted} (hkind : kind ≠ .newline)
    (hwanted : wanted ≠ .closedBlock) :
    Plain.token b.last' kind wanted b.more = .error (b.halt wanted) := by
  obtain ⟨t, rest, hmore, ht⟩ := hb.exists_cons
  rw [halt, if_neg hwanted]
  refine Plain.token_refused b.last' fun u us hus hu => hkind ?_
  rw [hmore] at hus
  obtain ⟨rfl, -⟩ := List.cons.inj hus
  exact hu.symm.trans ht

theorem operand_halt {room : Nat} :
    Plain.operand b.last' room b.more = .error (b.halt .expression) := by
  obtain ⟨t, rest, hmore, ht⟩ := hb.exists_cons
  rw [halt, if_neg (by decide), hmore]
  exact Plain.operand_refused (by rw [ht]; rfl)

theorem expression_halt {room least : Nat} :
    Plain.expression b.last' room least b.more = .error (b.halt .expression) := by
  rw [Plain.expression_eq]
  exact Plain.andThen_of_error hb.operand_halt

theorem body_halt {room : Nat} :
    Plain.body b.last' room (skipNewlines b.more) = .error (b.halt .closedBlock) :=
  Plain.body_ended hb.ends

end Breaks

end Splice

/-! ## Stalling -/

variable {α α' β β' : Type} {b : Splice}

/-- If the first reading fails at the end of its input, then the second fails at the line end there,
or at the end after it. -/
def Stalls (b : Splice) (r : Except Error (α × List Token)) (r' : Except Error (α' × List Token)) :
    Prop :=
  ∀ wanted, r = .error (refusal b.last wanted b.tail) → r' = .error (b.halt wanted)

namespace Stalls

variable {ts : List Token} {r : Except Error (α × List Token)} {r' : Except Error (α' × List Token)}

theorem ok {a : α} {rest : List Token} : Stalls b (.ok (a, rest)) r' := fun _ h => nomatch h

theorem at_end {wanted : Wanted} (h : r = .error (refusal b.last wanted b.tail))
    (h' : r' = .error (b.halt wanted)) : Stalls b r r' := by
  intro wanted' hr
  have heq : wanted = wanted' := by
    rw [h] at hr
    exact (Cause.unexpectedToken.inj (Error.mk.inj (Except.error.inj hr)).1).1
  rw [← heq]
  exact h'

/-- A token of the common part is no end. -/
theorem refused {t : Token} {wanted : Wanted} (ht : t.kind ≠ .endOfInput) :
    Stalls b (.error (refusal b.last wanted (t :: ts)) : Except Error (α × List Token)) r' := by
  intro wanted' hr
  have hfound : t = front b.last b.tail :=
    (Cause.unexpectedToken.inj (Error.mk.inj (Except.error.inj hr)).1).2
  exact absurd (hfound ▸ b.ends) ht

theorem andThen {Q : List Token → Prop} {f : α → α'} {p : Plain α} {p' : Plain α'}
    {k : α → Plain β} {k' : α' → Plain β'} (hp : Stalls b (p (b.old ts)) (p' (b.new ts)))
    (hc : Carried b Q f ts (p (b.old ts)) (p' (b.new ts))) (hQ : ∀ rest, Q rest)
    (hk : ∀ a rest, rest <:+ ts → p (b.old ts) = .ok (a, b.old rest) →
      Stalls b (k a (b.old rest)) (k' (f a) (b.new rest))) :
    Stalls b (p.andThen k (b.old ts)) (p'.andThen k' (b.new ts)) := by
  intro wanted h
  rcases Plain.andThen_eq_error h with hfirst | ⟨a, left, hok, hsecond⟩
  · exact Plain.andThen_of_error (hp wanted hfirst)
  · obtain ⟨rest, hs, rfl, hnew⟩ := hc.of_ok hok
    exact (Plain.andThen_of_ok (hnew (hQ rest))).trans (hk a rest hs hok wanted hsecond)

theorem thenGive {p : Plain α} {p' : Plain α'} {k : α → β} {k' : α' → β'} {us us' : List Token}
    (hp : Stalls b (p us) (p' us')) :
    Stalls b (p.andThen (fun a => Plain.give (k a)) us)
      (p'.andThen (fun a => Plain.give (k' a)) us') := by
  intro wanted h
  rcases Plain.andThen_eq_error h with hfirst | ⟨a, left, -, hgive⟩
  · exact Plain.andThen_of_error (hp wanted hfirst)
  · cases hgive

theorem within {room : Nat} {p : Nat → Plain α} {p' : Nat → Plain α'} {us us' : List Token}
    (h : ∀ inside, Stalls b (p inside us) (p' inside us')) :
    Stalls b (Plain.within b.last room p us) (Plain.within b.last' room p' us') := by
  match room with
  | 0 =>
    intro wanted h
    cases h
  | inside + 1 => exact h inside

/-- A token, and what is read after it. -/
theorem tokenThen (hb : b.Breaks) {kind : Kind} {wanted : Wanted} {k : Token → Plain β}
    {k' : Token → Plain β'} (hno : ∀ t ∈ ts, t.kind ≠ .endOfInput) (hend : kind ≠ .endOfInput)
    (hline : kind ≠ .newline) (hwanted : wanted ≠ .closedBlock)
    (hk : ∀ t rest, ts = t :: rest →
      Stalls b (k t (b.old rest)) (k' (t.moved b.move) (b.new rest))) :
    Stalls b ((Plain.token b.last kind wanted).andThen k (b.old ts))
      ((Plain.token b.last' kind wanted).andThen k' (b.new ts)) := by
  have htoken : Stalls b (Plain.token b.last kind wanted (b.old ts))
      (Plain.token b.last' kind wanted (b.new ts)) := by
    match ts, hno with
    | [], _ => exact .at_end (Plain.token_end b.ends hend) (hb.token_halt hline hwanted)
    | t :: ts, hno =>
      show Stalls b (Plain.token b.last kind wanted (t :: b.old ts)) _
      by_cases ht : t.kind = kind
      · rw [Plain.token_cons b.last ht]
        exact .ok
      · rw [Plain.token_refused b.last (by rintro _ _ ⟨⟩; exact ht)]
        exact .refused (hno t List.mem_cons_self)
  refine htoken.andThen (Carried.token hend) (fun _ => trivial) fun t rest _ hok => ?_
  exact hk t rest (Splice.old_inj (Plain.token_eq_ok hok).2)

end Stalls

/-! ## Expressions -/

namespace Plain

mutual
theorem expression_stalls (hb : b.Breaks) {room least : Nat} {ts : List Token}
    (hno : ∀ t ∈ ts, t.kind ≠ .endOfInput) :
    Stalls b (expression b.last room least (b.old ts))
      (expression b.last' room least (b.new ts)) := by
  rw [expression_eq, expression_eq]
  refine (operand_stalls hb hno).andThen (operand_carried (Nat.le_refl room)) hb.exprSeam ?_
  intro left rest hs hleft
  have hlt : rest.length < ts.length := Splice.shorter (Reading.shorter_of_plain hleft)
  exact joined_stalls hb fun t ht => hno t (hs.subset ht)
termination_by (ts.length, 2)

theorem joined_stalls (hb : b.Breaks) {room least : Nat} {left : Expr} {ts : List Token}
    (hno : ∀ t ∈ ts, t.kind ≠ .endOfInput) :
    Stalls b (joined b.last room least left (b.old ts))
      (joined b.last' room least left (b.new ts)) := by
  match ts with
  | [] =>
    have hold : joined b.last room least left (b.old []) = .ok (left, b.old []) :=
      joined_calm (calm_of_end b.ends).joining
    rw [hold]
    exact .ok
  | t :: ts =>
    have hno' : ∀ t ∈ ts, t.kind ≠ .endOfInput := fun u hu => hno u (List.mem_cons_of_mem t hu)
    show Stalls b (joined b.last room least left (t :: b.old ts))
      (joined b.last' room least left (t.moved b.move :: b.new ts))
    cases joint least t.kind with
    | stop hn =>
      rw [joined_stop hn]
      exact .ok
    | index hn =>
      rw [joined_index hn, joined_index (t := t.moved b.move) hn]
      refine (Stalls.within fun inside => expression_stalls hb hno').andThen
        (.within (Nat.le_refl room) fun _ _ _ hin => expression_carried hin) hb.exprSeam ?_
      intro i rest hs hdeep
      obtain ⟨inside, -, hin⟩ := within_eq_ok hdeep
      have hlt : rest.length < ts.length := Splice.shorter (Reading.shorter_of_plain hin)
      have hrest : ∀ t ∈ rest, t.kind ≠ .endOfInput := fun u hu => hno' u (hs.subset hu)
      refine .tokenThen hb hrest (by decide) (by decide) (by decide) fun closer more hmore => ?_
      subst hmore
      have hlt' : more.length < ts.length := Nat.lt_of_succ_lt hlt
      exact joined_stalls hb fun u hu => hrest u (List.mem_cons_of_mem closer hu)
    | field hn =>
      rw [joined_field hn, joined_field (t := t.moved b.move) hn]
      refine .tokenThen hb hno' (by decide) (by decide) (by decide) fun x rest hrest => ?_
      subst hrest
      exact joined_stalls hb fun u hu => hno' u (List.mem_cons_of_mem x hu)
    | join hn hi hf =>
      rw [joined_join hn hi hf, joined_join (t := t.moved b.move) hn hi hf]
      refine (expression_stalls hb hno').andThen (expression_carried (Nat.le_refl room))
        hb.exprSeam ?_
      intro right rest hs hright
      have hlt : rest.length < ts.length := Splice.shorter (Reading.shorter_of_plain hright)
      exact joined_stalls hb fun u hu => hno' u (hs.subset hu)
termination_by (ts.length, 0)

theorem operand_stalls (hb : b.Breaks) {room : Nat} {ts : List Token}
    (hno : ∀ t ∈ ts, t.kind ≠ .endOfInput) :
    Stalls b (operand b.last room (b.old ts)) (operand b.last' room (b.new ts)) := by
  match ts with
  | [] => exact .at_end (operand_end b.ends) hb.operand_halt
  | t :: ts =>
    have hno' : ∀ t ∈ ts, t.kind ≠ .endOfInput := fun u hu => hno u (List.mem_cons_of_mem t hu)
    show Stalls b (operand b.last room (t :: b.old ts))
      (operand b.last' room (t.moved b.move :: b.new ts))
    cases opening t.kind with
    | leading hop =>
      rw [operand_leading hop, operand_leading (t := t.moved b.move) hop]
      exact .thenGive (.within fun inside => expression_stalls hb hno')
    | literal hk =>
      rw [operand_literal hk]
      exact .ok
    | trueWord hk =>
      rw [operand_true hk]
      exact .ok
    | falseWord hk =>
      rw [operand_false hk]
      exact .ok
    | identifier hk => exact name_stalls hb hno' hk
    | paren hk =>
      rw [operand_paren hk, operand_paren (t := t.moved b.move) hk]
      refine (Stalls.within fun inside => expression_stalls hb hno').andThen
        (.within (Nat.le_refl room) fun _ _ _ hin => expression_carried hin) hb.exprSeam ?_
      intro e rest hs _
      exact .tokenThen hb (fun u hu => hno' u (hs.subset hu)) (by decide) (by decide) (by decide)
        fun _ _ _ => .ok
    | array hk =>
      rw [operand_array hk, operand_array (t := t.moved b.move) hk]
      exact .thenGive (items_stalls hb hno' (by decide) (by decide) (by decide))
    | refused hk =>
      rw [operand_refused hk]
      exact .refused (hno t List.mem_cons_self)
termination_by (ts.length, 1)

/-- A name, which is a call if a parenthesis follows it. -/
theorem name_stalls (hb : b.Breaks) {room : Nat} {t : Token} {ts : List Token}
    (hno : ∀ t ∈ ts, t.kind ≠ .endOfInput) (hk : t.kind = .identifier) :
    Stalls b (operand b.last room (t :: b.old ts))
      (operand b.last' room (t.moved b.move :: b.new ts)) := by
  match ts with
  | [] =>
    have hold : operand b.last room (t :: b.old []) = .ok (.name t.lexeme, b.old []) :=
      operand_name hk (calm_of_end b.ends).leftParen
    rw [hold]
    exact .ok
  | p :: ts =>
    by_cases hp : p.kind = .leftParen
    · show Stalls b (operand b.last room (t :: p :: b.old ts))
        (operand b.last' room (t.moved b.move :: p.moved b.move :: b.new ts))
      rw [operand_call hk hp, operand_call (show (t.moved b.move).kind = _ from hk)
        (show (p.moved b.move).kind = _ from hp)]
      exact .thenGive (items_stalls hb (fun u hu => hno u (List.mem_cons_of_mem p hu)) (by decide)
        (by decide) (by decide))
    · rw [operand_name hk (by rintro _ _ ⟨⟩; exact hp)]
      exact .ok
termination_by ((t :: ts).length, 0)

theorem items_stalls (hb : b.Breaks) {room : Nat} {closer : Kind} {wanted : Wanted}
    {ts : List Token} (hno : ∀ t ∈ ts, t.kind ≠ .endOfInput) (hend : closer ≠ .endOfInput)
    (hline : closer ≠ .newline) (hwanted : wanted ≠ .closedBlock) :
    Stalls b (items b.last room closer wanted (b.old ts))
      (items b.last' room closer wanted (b.new ts)) := by
  have hmore : Stalls b
      (within b.last room (fun inside => moreItems b.last inside closer wanted) (b.old ts))
      (within b.last' room (fun inside => moreItems b.last' inside closer wanted) (b.new ts)) :=
    .within fun inside => moreItems_stalls hb hno hend hline hwanted
  rw [items_eq, items_eq]
  match ts with
  | [] =>
    have hne : (front b.last (b.old [])).kind ≠ closer := by
      rw [show (front b.last (b.old [])).kind = _ from b.ends]
      exact hend.symm
    have hne' : (front b.last' (b.new [])).kind ≠ closer := by
      rw [show (front b.last' (b.new [])).kind = _ from hb.line]
      exact hline.symm
    rw [if_neg hne, if_neg hne']
    exact hmore
  | t :: ts =>
    by_cases hc : t.kind = closer
    · rw [if_pos (show (front b.last (b.old (t :: ts))).kind = closer from hc)]
      exact .ok
    · rw [if_neg (show (front b.last (b.old (t :: ts))).kind ≠ closer from hc),
        if_neg (show (front b.last' (b.new (t :: ts))).kind ≠ closer from hc)]
      exact hmore
termination_by (ts.length, 4)

theorem moreItems_stalls (hb : b.Breaks) {room : Nat} {closer : Kind} {wanted : Wanted}
    {ts : List Token} (hno : ∀ t ∈ ts, t.kind ≠ .endOfInput) (hend : closer ≠ .endOfInput)
    (hline : closer ≠ .newline) (hwanted : wanted ≠ .closedBlock) :
    Stalls b (moreItems b.last room closer wanted (b.old ts))
      (moreItems b.last' room closer wanted (b.new ts)) := by
  rw [moreItems_eq, moreItems_eq]
  refine (expression_stalls hb hno).andThen (expression_carried (Nat.le_refl room)) hb.exprSeam ?_
  intro e rest hs hitem
  have hlt : rest.length < ts.length := Splice.shorter (Reading.shorter_of_plain hitem)
  have hrest : ∀ t ∈ rest, t.kind ≠ .endOfInput := fun u hu => hno u (hs.subset hu)
  have hlast : Stalls b (((token b.last closer wanted).andThen fun _ => give [e]) (b.old rest))
      (((token b.last' closer wanted).andThen fun _ => give [e]) (b.new rest)) :=
    .tokenThen hb hrest hend hline hwanted fun _ _ _ => .ok
  match rest with
  | [] =>
    have hne : (front b.last (b.old [])).kind ≠ .comma := by
      rw [show (front b.last (b.old [])).kind = _ from b.ends]
      decide
    have hne' : (front b.last' (b.new [])).kind ≠ .comma := by
      rw [show (front b.last' (b.new [])).kind = _ from hb.line]
      decide
    rw [id_eq, afterItem_last b.last hne, afterItem_last b.last' hne']
    exact hlast
  | t :: rest =>
    by_cases hc : t.kind = .comma
    · show Stalls b (afterItem b.last room closer wanted e (t :: b.old rest))
        (afterItem b.last' room closer wanted e (t.moved b.move :: b.new rest))
      rw [afterItem_comma b.last hc, afterItem_comma b.last' (show (t.moved _).kind = _ from hc)]
      have hlt' : rest.length < ts.length := Nat.lt_of_succ_lt hlt
      exact .thenGive (moreItems_stalls hb (fun u hu => hrest u (List.mem_cons_of_mem t hu)) hend
        hline hwanted)
    · rw [id_eq, afterItem_last b.last (show (front b.last (b.old (t :: rest))).kind ≠ _ from hc),
        afterItem_last b.last' (show (front b.last' (b.new (t :: rest))).kind ≠ _ from hc)]
      exact hlast
termination_by (ts.length, 3)
end

/-! ## Statements -/

section Simple

variable {room : Nat} {line line' : Int} {ts : List Token}

theorem declaration_stalls (hb : b.Breaks) {name name' : String} {value value' : Expr → Expr}
    {fresh fresh' : Bool} (hno : ∀ t ∈ ts, t.kind ≠ .endOfInput) :
    Stalls b (declaration b.last room name value fresh line (b.old ts))
      (declaration b.last' room name' value' fresh' line' (b.new ts)) :=
  .thenGive (expression_stalls hb hno)

theorem introduction_stalls (hb : b.Breaks) (hno : ∀ t ∈ ts, t.kind ≠ .endOfInput) :
    Stalls b (introduction b.last room line (b.old ts))
      (introduction b.last' room line' (b.new ts)) := by
  refine .tokenThen hb hno (by decide) (by decide) (by decide) fun name rest hts => ?_
  subst hts
  have hrest : ∀ t ∈ rest, t.kind ≠ .endOfInput := fun u hu => hno u (List.mem_cons_of_mem name hu)
  refine .tokenThen hb hrest (by decide) (by decide) (by decide) fun sign rest' hts => ?_
  subst hts
  exact declaration_stalls hb fun u hu => hrest u (List.mem_cons_of_mem sign hu)

theorem expressionStatement_stalls (hb : b.Breaks) (hno : ∀ t ∈ ts, t.kind ≠ .endOfInput) :
    Stalls b (expressionStatement b.last room line (b.old ts))
      (expressionStatement b.last' room line' (b.new ts)) :=
  .thenGive (expression_stalls hb hno)

/-- A statement that starts with a name. -/
theorem named_stalls (hb : b.Breaks) {t : Token} (hno : ∀ u ∈ t :: ts, u.kind ≠ .endOfInput)
    (hk : t.kind = .identifier) :
    Stalls b (statement b.last room (t :: b.old ts))
      (statement b.last' room (t.moved b.move :: b.new ts)) := by
  have hk' : (t.moved b.move).kind = .identifier := hk
  cases ts with
  | nil =>
    have hold : statement b.last room (t :: b.old []) = .ok (.expr (.name t.lexeme) t.line, b.old []) :=
      statement_of_name hk (calm_of_end b.ends)
    rw [hold]
    exact .ok
  | cons sign ts =>
    have hno' : ∀ u ∈ ts, u.kind ≠ .endOfInput := fun u hu =>
      hno u (List.mem_cons_of_mem t (List.mem_cons_of_mem sign hu))
    show Stalls b (statement b.last room (t :: sign :: b.old ts))
      (statement b.last' room (t.moved b.move :: sign.moved b.move :: b.new ts))
    cases naming sign.kind with
    | assign hs =>
      rw [statement_assign hk hs, statement_assign hk' (show (sign.moved _).kind = _ from hs)]
      exact declaration_stalls hb hno'
    | assigning hs =>
      rw [statement_assigning hk hs,
        statement_assigning hk' (show Op.assigning? (sign.moved _).kind = _ from hs)]
      exact declaration_stalls hb hno'
    | value hs =>
      rw [statement_name hk (by rintro _ _ ⟨⟩; exact hs),
        statement_name hk' (by rintro _ _ ⟨⟩; exact hs)]
      exact expressionStatement_stalls hb hno

/-- The end of a statement is never wanted at the end of the input, which is one. -/
theorem ended_stalls {s : Stmt} {r' : Except Error (Stmt × List Token)}
    (hno : ∀ t ∈ ts, t.kind ≠ .endOfInput) :
    Stalls b
      (if endsStatement (front b.last (b.old ts)).kind then .ok (s, skipNewlines (b.old ts))
        else .error (refusal b.last .endOfStatement (b.old ts))) r' := by
  by_cases hends : endsStatement (front b.last (b.old ts)).kind = true
  · rw [if_pos hends]
    exact .ok
  · rw [if_neg hends]
    match ts, hno with
    | [], _ =>
      rw [show (front b.last (b.old [])).kind = _ from b.ends] at hends
      exact absurd rfl hends
    | t :: ts, hno => exact .refused (hno t List.mem_cons_self)

theorem statement_halt (hb : b.Breaks) :
    statement b.last' room b.more = .error (b.halt .expression) := by
  have hexpression : expression b.last' room 0 b.more = .error (b.halt .expression) :=
    hb.expression_halt
  obtain ⟨t, rest, hmore, ht⟩ := hb.exists_cons
  rw [hmore] at hexpression ⊢
  rw [statement_expression (by rw [ht]; rfl)]
  exact andThen_of_error hexpression

end Simple

mutual
theorem statement_stalls (hb : b.Breaks) {room : Nat} {ts : List Token}
    (hno : ∀ t ∈ ts, t.kind ≠ .endOfInput) :
    Stalls b (statement b.last room (b.old ts)) (statement b.last' room (b.new ts)) := by
  match ts with
  | [] => exact .at_end (statement_end b.ends) (statement_halt hb)
  | t :: ts =>
    have hno' : ∀ t ∈ ts, t.kind ≠ .endOfInput := fun u hu => hno u (List.mem_cons_of_mem t hu)
    show Stalls b (statement b.last room (t :: b.old ts))
      (statement b.last' room (t.moved b.move :: b.new ts))
    cases hk : t.kind with
    | letWord =>
      rw [statement_let hk, statement_let (show (t.moved b.move).kind = _ from hk)]
      exact introduction_stalls hb hno'
    | printWord =>
      rw [statement_print hk, statement_print (show (t.moved b.move).kind = _ from hk)]
      exact .thenGive (expression_stalls hb hno')
    | ifWord =>
      rw [statement_if hk, statement_if (show (t.moved b.move).kind = _ from hk)]
      exact branching_stalls hb hno'
    | whileWord =>
      rw [statement_while hk, statement_while (show (t.moved b.move).kind = _ from hk)]
      refine (expression_stalls hb hno').andThen (expression_carried (Nat.le_refl room))
        hb.exprSeam fun condition rest hs hcondition => ?_
      have hlt : rest.length < ts.length := Splice.shorter (Reading.shorter_of_plain hcondition)
      exact .thenGive (block_stalls hb fun u hu => hno' u (hs.subset hu))
    | identifier => exact named_stalls hb hno hk
    | _ =>
      rw [statement_expression (by rw [hk]; rfl),
        statement_expression (by rw [show (t.moved b.move).kind = _ from hk]; rfl)]
      exact expressionStatement_stalls hb hno
termination_by (ts.length, 0)

theorem branching_stalls (hb : b.Breaks) {room : Nat} {line line' : Int} {ts : List Token}
    (hno : ∀ t ∈ ts, t.kind ≠ .endOfInput) :
    Stalls b (branching b.last room line (b.old ts)) (branching b.last' room line' (b.new ts)) := by
  rw [branching_eq, branching_eq]
  refine (expression_stalls hb hno).andThen (expression_carried (Nat.le_refl room)) hb.exprSeam
    fun condition rest hs hcondition => ?_
  have hlt : rest.length < ts.length := Splice.shorter (Reading.shorter_of_plain hcondition)
  have hrest : ∀ t ∈ rest, t.kind ≠ .endOfInput := fun u hu => hno u (hs.subset hu)
  refine (block_stalls hb hrest).andThen (block_carried (Nat.le_refl room)) (fun _ => trivial)
    fun yes rest' hs' hyes => ?_
  have hlt' : rest'.length < rest.length := Splice.shorter (Reading.shorter_of_plain hyes)
  exact alternative_stalls hb fun u hu => hrest u (hs'.subset hu)
termination_by (ts.length, 0)

theorem alternative_stalls (hb : b.Breaks) {room : Nat} {condition condition' : Expr}
    {yes yes' : List Stmt} {line line' : Int} {ts : List Token}
    (hno : ∀ t ∈ ts, t.kind ≠ .endOfInput) :
    Stalls b (alternative b.last room condition yes line (b.old ts))
      (alternative b.last' room condition' yes' line' (b.new ts)) := by
  cases hskip : skipNewlines ts with
  | nil =>
    -- a conditional that nothing follows is whole, so nothing is wanted here
    have hnone : Unbranched (b.old ts) := by
      intro t rest hold
      rw [Splice.skipNewlines_old, hskip] at hold
      exact unbranched_of_end b.ends t rest ((skipNewlines_of_end b.ends).trans hold)
    rw [alternative_none hnone]
    exact .ok
  | cons t rest =>
    have hne : skipNewlines ts ≠ [] := by rw [hskip]; exact List.cons_ne_nil t rest
    have hold : skipNewlines (b.old ts) = t :: b.old rest := by
      rw [Splice.skipNewlines_old, hskip]
      rfl
    have hnew : skipNewlines (b.new ts) = t.moved b.move :: b.new rest := by
      rw [Splice.skipNewlines_new hne, hskip]
      rfl
    have hs : t :: rest <:+ ts := hskip ▸ skipNewlines_suffix ts
    have hlt : rest.length < ts.length := hs.length_le
    have hrest : ∀ u ∈ rest, u.kind ≠ .endOfInput := fun u hu =>
      hno u (hs.subset (List.mem_cons_of_mem t hu))
    by_cases helif : t.kind = .elifWord
    · rw [alternative_elif hold helif, alternative_elif hnew (show (t.moved _).kind = _ from helif)]
      exact .thenGive (.within fun inside => branching_stalls hb hrest)
    · by_cases helse : t.kind = .elseWord
      · rw [alternative_else hold helse, alternative_else hnew (show (t.moved _).kind = _ from helse)]
        exact .thenGive (block_stalls hb hrest)
      · have hnone : Unbranched (b.old ts) := by
          rw [Unbranched, hold]
          rintro _ _ ⟨⟩
          exact ⟨helif, helse⟩
        rw [alternative_none hnone]
        exact .ok
termination_by (ts.length, 0)

theorem block_stalls (hb : b.Breaks) {room : Nat} {ts : List Token}
    (hno : ∀ t ∈ ts, t.kind ≠ .endOfInput) :
    Stalls b (block b.last room (b.old ts)) (block b.last' room (b.new ts)) := by
  rw [block_eq, block_eq]
  refine .tokenThen hb hno (by decide) (by decide) (by decide) fun opener rest hts => ?_
  subst hts
  refine .within fun inside => ?_
  show Stalls b (body b.last inside (skipNewlines (b.old rest)))
    (body b.last' inside (skipNewlines (b.new rest)))
  rw [Splice.skipNewlines_old]
  cases hskip : skipNewlines rest with
  | nil =>
    -- nothing but line ends after the brace, and the new one is skipped with them
    rw [Splice.skipNewlines_new_of_nil hskip]
    exact .at_end (body_ended b.ends) hb.body_halt
  | cons t left =>
    have hne : skipNewlines rest ≠ [] := by rw [hskip]; exact List.cons_ne_nil t left
    have hs : t :: left <:+ rest := hskip ▸ skipNewlines_suffix rest
    have hlt : (t :: left).length < (opener :: rest).length := Nat.lt_succ_of_le hs.length_le
    rw [Splice.skipNewlines_new hne, hskip]
    exact body_stalls hb fun u hu => hno u (List.mem_cons_of_mem opener (hs.subset hu))
termination_by (ts.length, 0)

/-- In the middle of a block the line end is skipped, and the end after it is met. -/
theorem body_stalls (hb : b.Breaks) {room : Nat} {t : Token} {ts : List Token}
    (hno : ∀ u ∈ t :: ts, u.kind ≠ .endOfInput) :
    Stalls b (body b.last room (b.old (t :: ts))) (body b.last' room (b.new (t :: ts))) := by
  have hend : t.kind ≠ .endOfInput := hno t List.mem_cons_self
  show Stalls b (body b.last room (t :: b.old ts))
    (body b.last' room (t.moved b.move :: b.new ts))
  by_cases hclose : t.kind = .rightBrace
  · rw [body_close hclose]
    exact .ok
  · rw [body_statement hclose hend, body_statement (show (t.moved _).kind ≠ _ from hclose) hend]
    intro wanted h
    rcases andThen_eq_error h with hfirst | ⟨s, left, hline, hbody⟩
    · exact andThen_of_error (statementLine_stalls hb hno wanted hfirst)
    · have hcarried : Carried b _ _ (t :: ts) _ _ := statementLine_carried (Nat.le_refl room)
      obtain ⟨rest, hs, rfl, hnew⟩ := hcarried.of_ok hline
      have hlt : rest.length < (t :: ts).length := Splice.shorter (statementLine_shorter hline)
      -- Behind the last of the statements the line end is skipped with those after the statement, so
      -- the body meets the end again. `statementLine_carried` does not tell this case.
      match rest with
      | [] =>
        have hline' : statementLine b.last' room (b.new (t :: ts)) = _ :=
          statementLine_last (Nat.le_refl room) hb.unbranched (.inr hb.programSeam) hline
        refine (andThen_of_ok hline').trans ?_
        exact Stalls.thenGive (.at_end (body_ended b.ends) hb.body_halt) wanted hbody
      | u :: rest =>
        refine (andThen_of_ok (hnew (.inl (List.cons_ne_nil u rest)))).trans ?_
        exact Stalls.thenGive (body_stalls hb fun v hv => hno v (hs.subset hv)) wanted hbody
termination_by ((t :: ts).length, 2)

theorem statementLine_stalls (hb : b.Breaks) {room : Nat} {ts : List Token}
    (hno : ∀ t ∈ ts, t.kind ≠ .endOfInput) :
    Stalls b (statementLine b.last room (b.old ts)) (statementLine b.last' room (b.new ts)) :=
  (statement_stalls hb hno).andThen (statement_carried (Nat.le_refl room)) hb.stmtSeam
    fun _ _ hs _ => ended_stalls fun u hu => hno u (hs.subset hu)
termination_by (ts.length, 1)
end

/-- **A program that ends too early, with a line end before its end**, is refused there. -/
theorem program_stalls (hb : b.Breaks) {room : Nat} {ts : List Token} {wanted : Wanted}
    (hno : ∀ t ∈ ts, t.kind ≠ .endOfInput)
    (h : program b.last room (b.old ts) = .error (refusal b.last wanted b.tail)) :
    program b.last' room (b.new ts) = .error (b.halt wanted) := by
  match ts with
  | [] =>
    rw [program_end (show (front b.last (b.old [])).kind = _ from b.ends)] at h
    cases h
  | t :: ts =>
    have hfront' : (front b.last' (b.new (t :: ts))).kind ≠ .endOfInput := hno t List.mem_cons_self
    rcases program_eq_error h with ⟨-, hline | ⟨s, left, hline, hrest⟩⟩
    · exact program_of_error hfront' (statementLine_stalls hb hno wanted hline)
    · have hcarried : Carried b _ _ (t :: ts) _ _ := statementLine_carried (Nat.le_refl room)
      obtain ⟨rest, hs, rfl, hnew⟩ := hcarried.of_ok hline
      have hlt : rest.length < (t :: ts).length := Splice.shorter (statementLine_shorter hline)
      have hne : rest ≠ [] := by
        rintro rfl
        rw [program_end (show (front b.last (b.old [])).kind = _ from b.ends)] at hrest
        cases hrest
      rw [program_of_ok hfront' (hnew (.inl hne)),
        program_stalls hb (fun u hu => hno u (hs.subset hu)) hrest]
      rfl
termination_by ts.length
decreasing_by exact hlt

end Plain

end Parlance.Reader
