import Parlance.Proofs.Reader.Continuation

/-!
# Completing an input

An input whose reading met the end can be completed: what was read of it is a stack of open
constructs, and each is closed by a few tokens of its own. A name stands for a missing expression, an
empty block for a missing block. The completed input may need one more level of nesting than the
input had, for a block that a condition waits for.
-/

namespace Parlance.Reader

/-! ## What may follow -/

/-- Nothing that goes on with what was read before. -/
def Still (ts : List Token) : Prop := Calm ts ∧ Unbranched ts

theorem still_nil : Still [] := ⟨by rintro _ _ ⟨⟩, by rintro _ _ ⟨⟩⟩

/-- Kinds that go on with nothing. -/
def quiet (kind : Kind) : Bool :=
  !(goesOn kind || kind = .elifWord || kind = .elseWord || kind = .newline)

theorem still_cons {t : Token} (h : quiet t.kind = true) (ts : List Token) : Still (t :: ts) := by
  simp only [quiet, Bool.not_eq_true', Bool.or_eq_false_iff, decide_eq_false_iff_not] at h
  obtain ⟨⟨⟨hcalm, helif⟩, helse⟩, hnewline⟩ := h
  refine ⟨?_, ?_⟩
  · rintro _ _ ⟨⟩
    exact hcalm
  · rw [Unbranched, skipNewlines_cons hnewline]
    rintro _ _ ⟨⟩
    exact ⟨helif, helse⟩

/-- The input that goes on with `more`, with the lines that they both end on. -/
def onward (last last' : Int) (more : List Token) : Splice := ⟨id, last, last', [], more, rfl⟩

@[simp]
theorem old_onward (last last' : Int) (more ts : List Token) : (onward last last' more).old ts = ts :=
  List.append_nil ts

@[simp]
theorem new_onward (last last' : Int) (more ts : List Token) :
    (onward last last' more).new ts = ts ++ more := by
  unfold Splice.new
  rw [show (onward last last' more).move = id from rfl, Token.map_moved_id]
  rfl

/-- What is read again when the input goes on. -/
theorem Carried.onward {α : Type} {last : Int} {p : Plain α} {f : α → α} {a : α}
    {Q : List Token → List Token → Prop} {ts rest : List Token} (p' : Plain α) (hf : f a = a)
    (hc : ∀ more, Carried (Reader.onward last last more) (Q more) f ts
      (p ((Reader.onward last last more).old ts)) (p' ((Reader.onward last last more).new ts)))
    (h : p ts = .ok (a, rest)) :
    rest <:+ ts ∧ ∀ more, Q more rest → p' (ts ++ more) = .ok (a, rest ++ more) := by
  simp only [old_onward, new_onward] at hc
  obtain ⟨left, hs, hleft, -⟩ := (hc []).of_ok h
  rw [old_onward] at hleft
  subst hleft
  refine ⟨hs, fun more hq => ?_⟩
  obtain ⟨left', -, hleft', hread⟩ := (hc more).of_ok h
  rw [old_onward] at hleft'
  subst hleft'
  rw [hread hq, hf, new_onward]

/-! ## Completions -/

variable {α β : Type}

/-- The reader reads all of `ts` and of some tokens to complete it. -/
def Completes (p : Plain α) (ts : List Token) : Prop :=
  ∃ us a, (ts = [] → ∀ more, Still more → Still (us ++ more)) ∧
    ∀ more, Still more → p (ts ++ (us ++ more)) = .ok (a, more)

namespace Completes

variable {p : Plain α} {k : α → Plain β} {ts rest : List Token} {a : α}

/-- The input ends in what the first reader reads. -/
theorem first (hp : Completes p ts) (hk : ∀ a, Completes (k a) []) : Completes (p.andThen k) ts := by
  obtain ⟨us, a, hus, hread⟩ := hp
  obtain ⟨vs, c, hvs, hread'⟩ := hk a
  refine ⟨us ++ vs, c, ?_, ?_⟩
  · intro hts more hmore
    rw [List.append_assoc]
    exact hus hts _ (hvs rfl more hmore)
  · intro more hmore
    rw [List.append_assoc, Plain.andThen_of_ok (hread _ (hvs rfl more hmore))]
    exact hread' more hmore

/-- The input ends in what the second reader reads. -/
theorem second (hs : rest <:+ ts)
    (hp : ∀ more, (rest = [] → Still more) → p (ts ++ more) = .ok (a, rest ++ more))
    (hk : Completes (k a) rest) : Completes (p.andThen k) ts := by
  obtain ⟨us, c, hus, hread⟩ := hk
  refine ⟨us, c, ?_, ?_⟩
  · rintro rfl
    exact hus (List.suffix_nil.1 hs)
  · intro more hmore
    rw [Plain.andThen_of_ok (hp _ fun hrest => hus hrest more hmore)]
    exact hread more hmore

theorem map {k : α → β} (hp : Completes p ts) :
    Completes (p.andThen fun a => Plain.give (k a)) ts :=
  hp.first fun a => ⟨[], k a, fun _ _ h => h, fun _ _ => rfl⟩

/-- Tokens in front that lead to the reader. -/
theorem cons {q : Plain α} {t : Token} (h : ∀ more, q (t :: (ts ++ more)) = p (ts ++ more))
    (hp : Completes p ts) : Completes q (t :: ts) := by
  obtain ⟨us, a, -, hread⟩ := hp
  exact ⟨us, a, nofun, fun more hmore => (h _).trans (hread more hmore)⟩

end Completes

/-- A token to complete an input with. -/
def stub (kind : Kind) : Token := ⟨kind, "x", .nothing, 1⟩

theorem still_stub {kind : Kind} (h : quiet kind = true) (ts : List Token) :
    Still (stub kind :: ts) :=
  still_cons (t := stub kind) h ts

theorem completes_token {last : Int} {kind : Kind} {wanted : Wanted} (h : quiet kind = true) :
    Completes (Plain.token last kind wanted) [] :=
  ⟨[stub kind], stub kind, fun _ more _ => still_stub h more,
    fun _ _ => Plain.token_cons last rfl⟩

/-- The error of meeting the end of the input, and no token of `ts`. -/
theorem not_incomplete_of_mem {ts : List Token} {t : Token} {wanted : Wanted}
    (hno : ∀ t ∈ ts, t.kind ≠ .endOfInput) (ht : t ∈ ts) :
    ¬ (meeting wanted t).cause.incomplete = true := by
  intro h
  exact hno t ht (beq_iff_eq.1 h)

namespace Plain

variable {last : Int}

/-! ## Expressions -/

theorem expression_onward {room room' least : Nat} {ts rest : List Token} {e : Expr}
    (hroom : room ≤ room') (h : expression last room least ts = .ok (e, rest)) :
    rest <:+ ts ∧ ∀ more, (rest = [] → Still more) →
      expression last room' least (ts ++ more) = .ok (e, rest ++ more) := by
  obtain ⟨hs, hread⟩ := Carried.onward (expression last room' least) rfl
    (fun more => expression_carried (b := onward last last more) hroom) h
  refine ⟨hs, fun more hmore => hread more ?_⟩
  by_cases hnil : rest = []
  · exact .inr (hmore hnil).1
  · exact .inl hnil

theorem operand_onward {room room' : Nat} {ts rest : List Token} {e : Expr}
    (hroom : room ≤ room') (h : operand last room ts = .ok (e, rest)) :
    rest <:+ ts ∧ ∀ more, (rest = [] → Still more) →
      operand last room' (ts ++ more) = .ok (e, rest ++ more) := by
  obtain ⟨hs, hread⟩ := Carried.onward (operand last room') rfl
    (fun more => operand_carried (b := onward last last more) hroom) h
  refine ⟨hs, fun more hmore => hread more ?_⟩
  by_cases hnil : rest = []
  · exact .inr (hmore hnil).1
  · exact .inl hnil

theorem completes_joined {room least : Nat} {left : Expr} :
    Completes (joined last room least left) [] :=
  ⟨[], left, fun _ _ h => h, fun _ h => joined_calm h.1.joining⟩

theorem within_completes {α : Type} {room : Nat} {p : Nat → Plain α} {ts : List Token} {e : Error}
    (h : within last room p ts = .error e) (he : e.cause.incomplete = true)
    (hp : ∀ inside, p inside ts = .error e → Completes (p (inside + 1)) ts) :
    Completes (within last (room + 1) p) ts := by
  match room with
  | 0 =>
    obtain rfl := Except.error.inj h
    cases he
  | inside + 1 => exact hp inside h

theorem nil_of_token {kind : Kind} {wanted : Wanted} {ts : List Token} {e : Error}
    (hno : ∀ t ∈ ts, t.kind ≠ .endOfInput) (h : token last kind wanted ts = .error e)
    (he : e.cause.incomplete = true) : ts = [] := by
  obtain ⟨rfl, -⟩ := token_eq_error h
  match ts with
  | [] => rfl
  | t :: rest => exact absurd he (not_incomplete_of_mem hno (List.mem_cons_self ..))

mutual
theorem expression_completes {room least : Nat} {ts : List Token} {e : Error}
    (hno : ∀ t ∈ ts, t.kind ≠ .endOfInput) (h : expression last room least ts = .error e)
    (he : e.cause.incomplete = true) : Completes (expression last (room + 1) least) ts := by
  rw [expression_eq] at h ⊢
  rcases andThen_eq_error h with h | ⟨left, mid, hleft, h⟩
  · exact (operand_completes hno h he).first fun _ => completes_joined
  · obtain ⟨hs, hread⟩ := operand_onward (Nat.le_succ room) hleft
    have hlt : mid.length < ts.length := Reading.shorter_of_plain hleft
    exact .second hs hread (joined_completes (fun t ht => hno t (hs.subset ht)) h he)
termination_by (ts.length, 1)

theorem joined_completes {room least : Nat} {left : Expr} {ts : List Token} {e : Error}
    (hno : ∀ t ∈ ts, t.kind ≠ .endOfInput) (h : joined last room least left ts = .error e)
    (he : e.cause.incomplete = true) : Completes (joined last (room + 1) least left) ts := by
  match ts with
  | [] => exact completes_joined
  | t :: ts =>
    have hno' : ∀ t ∈ ts, t.kind ≠ .endOfInput := fun u hu => hno u (List.mem_cons_of_mem t hu)
    cases joint least t.kind with
    | stop hn =>
      rw [joined_stop hn] at h
      cases h
    | index hn =>
      rw [joined_index hn] at h
      refine .cons (fun _ => joined_index hn) ?_
      rcases andThen_eq_error h with h | ⟨i, mid, hdeep, hafter⟩
      · exact (within_completes h he fun _ h => expression_completes hno' h he).first fun _ =>
          (completes_token rfl).first fun _ => completes_joined
      · obtain ⟨inside, rfl, hin⟩ := within_eq_ok hdeep
        obtain ⟨hs, hread⟩ := expression_onward (Nat.le_succ inside) hin
        have hlt : mid.length < ts.length := Reading.shorter_of_plain hin
        have hmid : ∀ t ∈ mid, t.kind ≠ .endOfInput := fun u hu => hno' u (hs.subset hu)
        refine .second hs hread ?_
        rcases andThen_eq_error hafter with h | ⟨closer, mid', hclose, hjoin⟩
        · obtain rfl := nil_of_token hmid h he
          exact (completes_token rfl).first fun _ => completes_joined
        · obtain ⟨hk, rfl⟩ := token_eq_ok hclose
          have hlt' : mid'.length < ts.length := Nat.lt_of_succ_lt hlt
          exact .cons (fun _ => andThen_of_ok (token_cons last hk))
            (joined_completes (fun u hu => hmid u (List.mem_cons_of_mem _ hu)) hjoin he)
    | field hn =>
      rw [joined_field hn] at h
      refine .cons (fun _ => joined_field hn) ?_
      rcases andThen_eq_error h with h | ⟨x, mid, hname, hjoin⟩
      · obtain rfl := nil_of_token hno' h he
        exact (completes_token rfl).first fun _ => completes_joined
      · obtain ⟨hk, rfl⟩ := token_eq_ok hname
        exact .cons (fun _ => andThen_of_ok (token_cons last hk))
          (joined_completes (fun u hu => hno' u (List.mem_cons_of_mem _ hu)) hjoin he)
    | join hn hi hf =>
      rw [joined_join hn hi hf] at h
      refine .cons (fun _ => joined_join hn hi hf) ?_
      rcases andThen_eq_error h with h | ⟨right, mid, hright, h⟩
      · exact (expression_completes hno' h he).first fun _ => completes_joined
      · obtain ⟨hs, hread⟩ := expression_onward (Nat.le_succ room) hright
        have hlt : mid.length < ts.length := Reading.shorter_of_plain hright
        exact .second hs hread (joined_completes (fun u hu => hno' u (hs.subset hu)) h he)
termination_by (ts.length, 0)

theorem operand_completes {room : Nat} {ts : List Token} {e : Error}
    (hno : ∀ t ∈ ts, t.kind ≠ .endOfInput) (h : operand last room ts = .error e)
    (he : e.cause.incomplete = true) : Completes (operand last (room + 1)) ts := by
  match ts with
  | [] => exact ⟨[stub .identifier], .name "x", fun _ more _ => still_stub rfl more,
      fun more hmore => operand_name rfl hmore.1.leftParen⟩
  | t :: ts =>
    have hno' : ∀ t ∈ ts, t.kind ≠ .endOfInput := fun u hu => hno u (List.mem_cons_of_mem t hu)
    cases opening t.kind with
    | leading hop =>
      rw [operand_leading hop] at h
      refine .cons (fun _ => operand_leading hop) ?_
      rcases andThen_eq_error h with h | ⟨a, mid, -, h⟩
      · exact (within_completes h he fun _ h => expression_completes hno' h he).map
      · cases h
    | literal hk =>
      rw [operand_literal hk] at h
      cases h
    | trueWord hk =>
      rw [operand_true hk] at h
      cases h
    | falseWord hk =>
      rw [operand_false hk] at h
      cases h
    | identifier hk =>
      rcases call_or_name ts with ⟨p, inner, rfl, hp⟩ | hname
      · rw [operand_call hk hp] at h
        rcases andThen_eq_error h with h | ⟨es, mid, -, h⟩
        · have hitems := items_completes (by decide) (by decide) (by rfl)
            (fun u hu => hno' u (List.mem_cons_of_mem p hu)) h he
          obtain ⟨us, es, -, hread⟩ := hitems
          refine ⟨us, .call t.lexeme es, nofun, fun more hmore => ?_⟩
          exact (operand_call hk hp).trans (andThen_of_ok (hread more hmore))
        · cases h
      · rw [operand_name hk hname] at h
        cases h
    | paren hk =>
      rw [operand_paren hk] at h
      refine .cons (fun _ => operand_paren hk) ?_
      rcases andThen_eq_error h with h | ⟨a, mid, hdeep, hclose⟩
      · exact (within_completes h he fun _ h => expression_completes hno' h he).first fun _ =>
          (completes_token rfl).map
      · obtain ⟨inside, rfl, hin⟩ := within_eq_ok hdeep
        obtain ⟨hs, hread⟩ := expression_onward (Nat.le_succ inside) hin
        refine .second hs hread ?_
        rcases andThen_eq_error hclose with h | ⟨closer, mid', -, h⟩
        · obtain rfl := nil_of_token (fun u hu => hno' u (hs.subset hu)) h he
          exact (completes_token rfl).map
        · cases h
    | array hk =>
      rw [operand_array hk] at h
      refine .cons (fun _ => operand_array hk) ?_
      rcases andThen_eq_error h with h | ⟨es, mid, -, h⟩
      · exact (items_completes (by decide) (by decide) (by rfl) hno' h he).map
      · cases h
    | refused hk =>
      rw [operand_refused hk] at h
      obtain rfl := Except.error.inj h
      exact absurd he (not_incomplete_of_mem hno (List.mem_cons_self ..))
termination_by (ts.length, 0)

theorem items_completes {room : Nat} {closer : Kind} {wanted : Wanted} {ts : List Token}
    {e : Error} (hend : closer ≠ .endOfInput) (hcomma : closer ≠ .comma)
    (hquiet : quiet closer = true) (hno : ∀ t ∈ ts, t.kind ≠ .endOfInput)
    (h : items last room closer wanted ts = .error e) (he : e.cause.incomplete = true) :
    Completes (items last (room + 1) closer wanted) ts := by
  match ts with
  | [] =>
    refine ⟨[stub closer], [], fun _ more _ => still_stub hquiet more, fun more _ => ?_⟩
    rw [items_eq]
    exact if_pos rfl
  | t :: ts =>
    rw [items_eq] at h
    split at h
    · cases h
    · rename_i hne
      obtain ⟨us, es, -, hread⟩ :=
        within_completes h he fun _ h => moreItems_completes hend hcomma hquiet hno h he
      refine ⟨us, es, nofun, fun more hmore => ?_⟩
      rw [items_eq]
      exact (if_neg hne).trans (hread more hmore)
termination_by (ts.length, 3)

theorem moreItems_completes {room : Nat} {closer : Kind} {wanted : Wanted} {ts : List Token}
    {e : Error} (hend : closer ≠ .endOfInput) (hcomma : closer ≠ .comma)
    (hquiet : quiet closer = true) (hno : ∀ t ∈ ts, t.kind ≠ .endOfInput)
    (h : moreItems last room closer wanted ts = .error e) (he : e.cause.incomplete = true) :
    Completes (moreItems last (room + 1) closer wanted) ts := by
  have hafter {a : Expr} : Completes (afterItem last (room + 1) closer wanted a) [] := by
    refine ⟨[stub closer], [a], fun _ more _ => still_stub hquiet more, fun more _ => ?_⟩
    rw [List.nil_append, List.singleton_append,
      afterItem_last last (show (front last (stub closer :: more)).kind ≠ _ from hcomma)]
    exact andThen_of_ok (token_cons last rfl)
  rw [moreItems_eq] at h ⊢
  rcases andThen_eq_error h with h | ⟨a, mid, hitem, h⟩
  · exact (expression_completes hno h he).first fun _ => hafter
  · obtain ⟨hs, hread⟩ := expression_onward (Nat.le_succ room) hitem
    have hlt : mid.length < ts.length := Reading.shorter_of_plain hitem
    have hmid : ∀ t ∈ mid, t.kind ≠ .endOfInput := fun u hu => hno u (hs.subset hu)
    refine .second hs hread ?_
    match mid with
    | [] => exact hafter
    | t :: mid =>
      by_cases hc : t.kind = .comma
      · rw [afterItem_comma last hc] at h
        refine .cons (fun _ => afterItem_comma last hc) ?_
        rcases andThen_eq_error h with h | ⟨more, mid', -, h⟩
        · have hlt' : mid.length < ts.length := Nat.lt_of_succ_lt hlt
          exact (moreItems_completes hend hcomma hquiet
            (fun u hu => hmid u (List.mem_cons_of_mem t hu)) h he).map
        · cases h
      · rw [afterItem_last last (show (front last (t :: mid)).kind ≠ _ from hc)] at h
        rcases andThen_eq_error h with h | ⟨closed, mid', -, h⟩
        · cases nil_of_token hmid h he
        · cases h
termination_by (ts.length, 2)
end

/-! ## Statements -/

theorem statement_onward {room room' : Nat} {ts rest : List Token} {s : Stmt}
    (hroom : room ≤ room') (h : statement last room ts = .ok (s, rest)) :
    rest <:+ ts ∧ ∀ more, Still more →
      statement last room' (ts ++ more) = .ok (s, rest ++ more) := by
  obtain ⟨hs, hread⟩ := Carried.onward (statement last room') (Stmt.moved_id s)
    (fun more => statement_carried (b := onward last last more) hroom) h
  exact ⟨hs, fun more hmore => hread more ⟨.inr hmore.1, .inr hmore.2⟩⟩

theorem block_onward {room room' : Nat} {ts rest : List Token} {ss : List Stmt}
    (hroom : room ≤ room') (h : block last room ts = .ok (ss, rest)) :
    rest <:+ ts ∧ ∀ more, block last room' (ts ++ more) = .ok (ss, rest ++ more) := by
  obtain ⟨hs, hread⟩ := Carried.onward (block last room') (Stmt.map_moved_id ss)
    (fun more => block_carried (b := onward last last more) hroom) h
  exact ⟨hs, fun more => hread more trivial⟩

theorem statementLine_onward {room room' : Nat} {ts rest : List Token} {s : Stmt}
    (hroom : room ≤ room') (h : statementLine last room ts = .ok (s, rest)) :
    rest <:+ ts ∧ ∀ more, rest ≠ [] →
      statementLine last room' (ts ++ more) = .ok (s, rest ++ more) := by
  obtain ⟨hs, hread⟩ := Carried.onward (statementLine last room') (Stmt.moved_id s)
    (fun more => statementLine_carried (b := onward last last more) hroom) h
  exact ⟨hs, fun more hne => hread more (.inl hne)⟩

/-- A statement at the end of the input, closed by the brace of its block. -/
theorem statementLine_closed {room room' : Nat} {ts : List Token} {s : Stmt} (hroom : room ≤ room')
    (h : statementLine last room ts = .ok (s, [])) (more : List Token) :
    statementLine last room' (ts ++ stub .rightBrace :: more) =
      .ok (s, stub .rightBrace :: more) := by
  obtain ⟨rest, hs, hends, hskip⟩ := statementLine_eq_ok h
  obtain ⟨-, hread⟩ := statement_onward hroom hs
  have hstill : Still (stub .rightBrace :: more) := still_stub rfl more
  have hends' : endsStatement (front last (rest ++ stub .rightBrace :: more)).kind = true := by
    match rest with
    | [] => rfl
    | t :: rest => exact hends
  refine (andThen_of_ok (hread _ hstill)).trans ?_
  rw [if_pos hends', skipNewlines_append_of_nil hskip.symm, skipNewlines_cons (by decide)]

theorem statement_of_statementLine {room : Nat} {ts : List Token} {e : Error}
    (hno : ∀ t ∈ ts, t.kind ≠ .endOfInput) (h : statementLine last room ts = .error e)
    (he : e.cause.incomplete = true) : statement last room ts = .error e := by
  rcases andThen_eq_error h with h | ⟨s, mid, hs, h⟩
  · exact h
  · obtain ⟨hsuffix, -⟩ := statement_onward (Nat.le_refl room) hs
    split at h
    · cases h
    · rename_i hends
      obtain rfl := Except.error.inj h
      match mid with
      | [] => exact absurd rfl hends
      | t :: mid =>
        have ht : t ∈ ts := hsuffix.subset (List.mem_cons_self ..)
        exact absurd he (not_incomplete_of_mem hno ht)

section Simple

variable {room : Nat} {ts : List Token} {e : Error} (hno : ∀ t ∈ ts, t.kind ≠ .endOfInput)
  (he : e.cause.incomplete = true)

include hno he

theorem declaration_completes {name : String} {value : Expr → Expr} {fresh : Bool} {line : Int}
    (h : declaration last room name value fresh line ts = .error e) :
    Completes (declaration last (room + 1) name value fresh line) ts := by
  rcases andThen_eq_error h with h | ⟨a, mid, -, h⟩
  · exact (expression_completes hno h he).map
  · cases h

theorem expressionStatement_completes {line : Int}
    (h : expressionStatement last room line ts = .error e) :
    Completes (expressionStatement last (room + 1) line) ts := by
  rcases andThen_eq_error h with h | ⟨a, mid, -, h⟩
  · exact (expression_completes hno h he).map
  · cases h

omit hno he in
theorem declaration_name {name : String} {value : Expr → Expr} {fresh : Bool} {line : Int}
    {more : List Token} (hmore : Still more) :
    declaration last room name value fresh line (stub .identifier :: more) =
      .ok (.declare name (value (.name "x")) fresh line, more) :=
  andThen_of_ok (expression_name rfl hmore.1)

omit hno he in
theorem introduction_cons {x sign : Token} {line : Int} (hx : x.kind = .identifier)
    (hs : sign.kind = .assign) (rest : List Token) :
    introduction last room line (x :: sign :: rest) =
      declaration last room x.lexeme id true line rest :=
  (andThen_of_ok (token_cons last hx)).trans (andThen_of_ok (token_cons last hs))

theorem introduction_completes {line : Int} (h : introduction last room line ts = .error e) :
    Completes (introduction last (room + 1) line) ts := by
  rcases andThen_eq_error h with h | ⟨x, mid, hname, hafter⟩
  · obtain rfl := nil_of_token hno h he
    exact ⟨[stub .identifier, stub .assign, stub .identifier], .declare "x" (.name "x") true line,
      fun _ more _ => still_stub rfl _,
      fun more hmore => (introduction_cons rfl rfl _).trans (declaration_name hmore)⟩
  · obtain ⟨hx, rfl⟩ := token_eq_ok hname
    have hno' : ∀ t ∈ mid, t.kind ≠ .endOfInput := fun u hu => hno u (List.mem_cons_of_mem x hu)
    rcases andThen_eq_error hafter with hsign | ⟨sign, rest, hsign, hvalue⟩
    · obtain rfl := nil_of_token hno' hsign he
      exact ⟨[stub .assign, stub .identifier], .declare x.lexeme (.name "x") true line, nofun,
        fun more hmore => (introduction_cons hx rfl _).trans (declaration_name hmore)⟩
    · obtain ⟨hs, rfl⟩ := token_eq_ok hsign
      obtain ⟨us, s, -, hread⟩ :=
        declaration_completes (fun u hu => hno' u (List.mem_cons_of_mem sign hu)) he hvalue
      exact ⟨us, s, nofun, fun more hmore => (introduction_cons hx hs _).trans (hread more hmore)⟩

theorem named_completes {t : Token} (hk : t.kind = .identifier)
    (h : statement last room (t :: ts) = .error e) :
    Completes (statement last (room + 1)) (t :: ts) := by
  match ts with
  | [] =>
    rw [statement_of_name hk still_nil.1] at h
    cases h
  | sign :: ts =>
    have hno' : ∀ t ∈ ts, t.kind ≠ .endOfInput := fun u hu => hno u (List.mem_cons_of_mem sign hu)
    cases naming sign.kind with
    | assign hs =>
      rw [statement_assign hk hs] at h
      obtain ⟨us, s, -, hread⟩ := declaration_completes hno' he h
      exact ⟨us, s, nofun, fun more hmore => (statement_assign hk hs).trans (hread more hmore)⟩
    | assigning hs =>
      rw [statement_assigning hk hs] at h
      obtain ⟨us, s, -, hread⟩ := declaration_completes hno' he h
      exact ⟨us, s, nofun, fun more hmore => (statement_assigning hk hs).trans (hread more hmore)⟩
    | value hs =>
      have hname {room : Nat} {rest : List Token} :
          statement last room (t :: sign :: rest) =
            expressionStatement last room t.line (t :: sign :: rest) :=
        statement_name hk (by rintro _ _ ⟨⟩; exact hs)
      rw [hname] at h
      have hall : ∀ u ∈ t :: sign :: ts, u.kind ≠ .endOfInput := by
        intro u hu
        rcases List.mem_cons.1 hu with rfl | hu
        · rw [hk]
          decide
        · exact hno u hu
      obtain ⟨us, s, -, hread⟩ := expressionStatement_completes hall he h
      exact ⟨us, s, nofun, fun more hmore => hname.trans (hread more hmore)⟩

end Simple

/-! ## Blocks -/

theorem completes_block {room : Nat} : Completes (block last (room + 1)) [] := by
  refine ⟨[stub .leftBrace, stub .rightBrace], [], fun _ more _ => still_stub rfl _,
    fun more _ => ?_⟩
  have hopen : token last .leftBrace .openedBlock (stub .leftBrace :: stub .rightBrace :: more) =
      .ok (stub .leftBrace, stub .rightBrace :: more) :=
    token_cons last rfl
  rw [block_eq]
  refine (andThen_of_ok hopen).trans ?_
  exact body_close rfl

theorem completes_body {room : Nat} : Completes (body last room) [] :=
  ⟨[stub .rightBrace], [], fun _ more _ => still_stub rfl more, fun _ _ => body_close rfl⟩

theorem completes_alternative {room : Nat} {condition : Expr} {yes : List Stmt} {line : Int} :
    Completes (alternative last room condition yes line) [] :=
  ⟨[], .branch condition yes [] line, fun _ _ h => h, fun _ h => alternative_none h.2⟩

theorem body_of_line {room : Nat} {t : Token} {ts rest left : List Token} {s : Stmt}
    {ss : List Stmt} (hclose : t.kind ≠ .rightBrace) (hend : t.kind ≠ .endOfInput)
    (hline : statementLine last room (t :: ts) = .ok (s, rest))
    (hbody : body last room rest = .ok (ss, left)) :
    body last room (t :: ts) = .ok (s :: ss, left) := by
  rw [body_statement hclose hend, andThen_of_ok hline]
  exact andThen_of_ok hbody

mutual
theorem statement_completes {room : Nat} {ts : List Token} {e : Error}
    (hno : ∀ t ∈ ts, t.kind ≠ .endOfInput) (he : e.cause.incomplete = true)
    (h : statement last room ts = .error e) : Completes (statement last (room + 1)) ts := by
  match ts with
  | [] => exact ⟨[stub .identifier], .expr (.name "x") 1, fun _ more _ => still_stub rfl more,
      fun more hmore => statement_of_name rfl hmore.1⟩
  | t :: ts =>
    have hno' : ∀ t ∈ ts, t.kind ≠ .endOfInput := fun u hu => hno u (List.mem_cons_of_mem t hu)
    cases hk : t.kind with
    | letWord =>
      rw [statement_let hk] at h
      exact .cons (fun _ => statement_let hk) (introduction_completes hno' he h)
    | printWord =>
      rw [statement_print hk] at h
      refine .cons (fun _ => statement_print hk) ?_
      rcases andThen_eq_error h with h | ⟨a, mid, -, h⟩
      · exact (expression_completes hno' h he).map
      · cases h
    | ifWord =>
      rw [statement_if hk] at h
      exact .cons (fun _ => statement_if hk) (branching_completes hno' he h)
    | whileWord =>
      rw [statement_while hk] at h
      refine .cons (fun _ => statement_while hk) ?_
      rcases andThen_eq_error h with h | ⟨condition, mid, hcondition, hblock⟩
      · exact (expression_completes hno' h he).first fun _ => completes_block.map
      · obtain ⟨hs, hread⟩ := expression_onward (Nat.le_succ room) hcondition
        have hlt : mid.length < ts.length := Reading.shorter_of_plain hcondition
        refine .second hs hread ?_
        rcases andThen_eq_error hblock with h | ⟨ss, mid', -, h⟩
        · exact (block_completes (fun u hu => hno' u (hs.subset hu)) he h).map
        · cases h
    | identifier => exact named_completes hno' he hk h
    | _ =>
      have hother {room : Nat} {rest : List Token} : statement last room (t :: rest) =
          expressionStatement last room t.line (t :: rest) :=
        statement_expression (by rw [hk]; rfl)
      rw [hother] at h
      obtain ⟨us, s, -, hread⟩ := expressionStatement_completes hno he h
      exact ⟨us, s, nofun, fun more hmore => hother.trans (hread more hmore)⟩
termination_by (ts.length, 0)

theorem branching_completes {room : Nat} {line : Int} {ts : List Token} {e : Error}
    (hno : ∀ t ∈ ts, t.kind ≠ .endOfInput) (he : e.cause.incomplete = true)
    (h : branching last room line ts = .error e) :
    Completes (branching last (room + 1) line) ts := by
  rw [branching_eq] at h ⊢
  rcases andThen_eq_error h with h | ⟨condition, mid, hcondition, hblock⟩
  · exact (expression_completes hno h he).first fun _ =>
      completes_block.first fun _ => completes_alternative
  · obtain ⟨hs, hread⟩ := expression_onward (Nat.le_succ room) hcondition
    have hlt : mid.length < ts.length := Reading.shorter_of_plain hcondition
    have hmid : ∀ t ∈ mid, t.kind ≠ .endOfInput := fun u hu => hno u (hs.subset hu)
    refine .second hs hread ?_
    rcases andThen_eq_error hblock with h | ⟨yes, mid', hyes, h⟩
    · exact (block_completes hmid he h).first fun _ => completes_alternative
    · obtain ⟨hs', hread'⟩ := block_onward (Nat.le_succ room) hyes
      have hlt' : mid'.length < mid.length := Reading.shorter_of_plain hyes
      exact .second hs' (fun more _ => hread' more)
        (alternative_completes (fun u hu => hmid u (hs'.subset hu)) he h)
termination_by (ts.length, 0)

theorem alternative_completes {room : Nat} {condition : Expr} {yes : List Stmt} {line : Int}
    {ts : List Token} {e : Error} (hno : ∀ t ∈ ts, t.kind ≠ .endOfInput)
    (he : e.cause.incomplete = true)
    (h : alternative last room condition yes line ts = .error e) :
    Completes (alternative last (room + 1) condition yes line) ts := by
  cases hskip : skipNewlines ts with
  | nil =>
    rw [alternative_none (by rw [hskip]; nofun)] at h
    cases h
  | cons t rest =>
    have hs : t :: rest <:+ ts := hskip ▸ skipNewlines_suffix ts
    have hlt : rest.length < ts.length := hs.length_le
    have hrest : ∀ u ∈ rest, u.kind ≠ .endOfInput := fun u hu =>
      hno u (hs.subset (List.mem_cons_of_mem t hu))
    have hne : ts ≠ [] := by
      rintro rfl
      cases hskip
    by_cases helif : t.kind = .elifWord
    · rw [alternative_elif hskip helif] at h
      rcases andThen_eq_error h with h | ⟨no, mid, -, h⟩
      · obtain ⟨us, no, -, hread⟩ :=
          within_completes h he fun _ h => branching_completes hrest he h
        refine ⟨us, .branch condition yes [no] line, fun hts => absurd hts hne,
          fun more hmore => ?_⟩
        rw [alternative_elif (skipNewlines_append hskip _) helif]
        exact andThen_of_ok (hread more hmore)
      · cases h
    · by_cases helse : t.kind = .elseWord
      · rw [alternative_else hskip helse] at h
        rcases andThen_eq_error h with h | ⟨no, mid, -, h⟩
        · obtain ⟨us, no, -, hread⟩ := block_completes hrest he h
          refine ⟨us, .branch condition yes no line, fun hts => absurd hts hne,
            fun more hmore => ?_⟩
          rw [alternative_else (skipNewlines_append hskip _) helse]
          exact andThen_of_ok (hread more hmore)
        · cases h
      · rw [alternative_none (by rw [hskip]; rintro _ _ ⟨⟩; exact ⟨helif, helse⟩)] at h
        cases h
termination_by (ts.length, 0)

theorem block_completes {room : Nat} {ts : List Token} {e : Error}
    (hno : ∀ t ∈ ts, t.kind ≠ .endOfInput) (he : e.cause.incomplete = true)
    (h : block last room ts = .error e) : Completes (block last (room + 1)) ts := by
  rw [block_eq] at h
  rcases andThen_eq_error h with h | ⟨opener, rest, hopen, hinner⟩
  · obtain rfl := nil_of_token hno h he
    exact completes_block
  · obtain ⟨hk, rfl⟩ := token_eq_ok hopen
    have hrest : ∀ u ∈ rest, u.kind ≠ .endOfInput := fun u hu =>
      hno u (List.mem_cons_of_mem opener hu)
    rw [block_eq]
    refine .cons (fun _ => andThen_of_ok (token_cons last hk)) ?_
    refine within_completes hinner he fun inside hbody => ?_
    have hskip : ∀ u ∈ skipNewlines rest, u.kind ≠ .endOfInput := fun u hu =>
      hrest u ((skipNewlines_suffix rest).subset hu)
    have hlt : (skipNewlines rest).length < (opener :: rest).length :=
      Nat.lt_succ_of_le (skipNewlines_length_le rest)
    have hread := body_completes hskip he hbody
    -- line ends after the brace are skipped, also those that the input ends with
    cases hnil : skipNewlines rest with
    | nil =>
      refine ⟨[stub .rightBrace], [], fun _ more _ => still_stub rfl more, fun more _ => ?_⟩
      show body last (inside + 1) (skipNewlines (rest ++ stub .rightBrace :: more)) = _
      rw [skipNewlines_append_of_nil hnil, skipNewlines_cons (by decide)]
      exact body_close rfl
    | cons t left =>
      rw [hnil] at hread
      obtain ⟨us, ss, -, hread⟩ := hread
      have hne : rest ≠ [] := by
        rintro rfl
        cases hnil
      refine ⟨us, ss, fun hr => absurd hr hne, fun more hmore => ?_⟩
      show body last (inside + 1) (skipNewlines (rest ++ (us ++ more))) = _
      rw [skipNewlines_append hnil]
      exact hread more hmore
termination_by (ts.length, 0)

theorem body_completes {room : Nat} {ts : List Token} {e : Error}
    (hno : ∀ t ∈ ts, t.kind ≠ .endOfInput) (he : e.cause.incomplete = true)
    (h : body last room ts = .error e) : Completes (body last (room + 1)) ts := by
  match ts with
  | [] => exact completes_body
  | t :: ts =>
    by_cases hclose : t.kind = .rightBrace
    · rw [body_close hclose] at h
      cases h
    · have hend : t.kind ≠ .endOfInput := hno t (List.mem_cons_self ..)
      rw [body_statement hclose hend] at h
      rcases andThen_eq_error h with h | ⟨s, mid, hline, hrest⟩
      · obtain ⟨us, s, -, hread⟩ :=
          statement_completes hno he (statement_of_statementLine hno h he)
        refine ⟨us ++ [stub .rightBrace], [s], nofun, fun more _ => ?_⟩
        have hclosed : body last (room + 1) (stub .rightBrace :: more) = .ok ([], more) :=
          body_close rfl
        rw [List.append_assoc]
        refine body_of_line hclose hend ?_ hclosed
        exact andThen_of_ok (hread _ (still_stub rfl more))
      · have hlt : mid.length < (t :: ts).length := statementLine_shorter hline
        obtain ⟨hs, hread⟩ := statementLine_onward (Nat.le_succ room) hline
        rcases andThen_eq_error hrest with hbody | ⟨ss, mid', -, hgive⟩
        · match mid with
          | [] =>
            refine ⟨[stub .rightBrace], [s], nofun, fun more _ => ?_⟩
            exact body_of_line hclose hend (statementLine_closed (Nat.le_succ room) hline more)
              (body_close rfl)
          | u :: mid =>
            obtain ⟨us, ss, -, hread'⟩ :=
              body_completes (fun v hv => hno v (hs.subset hv)) he hbody
            refine ⟨us, s :: ss, nofun, fun more hmore => ?_⟩
            exact body_of_line hclose hend (hread _ (List.cons_ne_nil u mid)) (hread' more hmore)
        · cases hgive
termination_by (ts.length, 1)
end

/-! ## Programs -/

theorem front_append {ts : List Token} (h : (front last ts).kind ≠ .endOfInput) (us : List Token) :
    (front last (ts ++ us)).kind ≠ .endOfInput := by
  match ts with
  | [] => exact absurd rfl h
  | t :: ts => exact h

/-- **A program that meets the end of the input can be completed.** -/
theorem program_completes {room : Nat} {ts : List Token} {e : Error}
    (hno : ∀ t ∈ ts, t.kind ≠ .endOfInput) (he : e.cause.incomplete = true)
    (h : program last room ts = .error e) :
    ∃ us ss, program last (room + 1) (ts ++ us) = .ok ss := by
  obtain ⟨hfront, hline | ⟨s, rest, hline, hrest⟩⟩ := program_eq_error h
  · obtain ⟨us, s, -, hread⟩ :=
      statement_completes hno he (statement_of_statementLine hno hline he)
    have hlast : statementLine last (room + 1) (ts ++ us) = .ok (s, []) := by
      rw [← List.append_nil us]
      exact andThen_of_ok (hread [] still_nil)
    refine ⟨us, [s], ?_⟩
    rw [program_of_ok (front_append hfront us) hlast, program_end rfl]
    rfl
  · obtain ⟨hs, hread⟩ := statementLine_onward (Nat.le_succ room) hline
    have hlt : rest.length < ts.length := statementLine_shorter hline
    have hne : rest ≠ [] := by
      rintro rfl
      rw [program_end rfl] at hrest
      cases hrest
    obtain ⟨us, ss, hss⟩ := program_completes (fun t ht => hno t (hs.subset ht)) he hrest
    refine ⟨us, s :: ss, ?_⟩
    rw [program_of_ok (front_append hfront us) (hread us hne), hss]
    rfl
termination_by ts.length

end Plain

end Parlance.Reader
