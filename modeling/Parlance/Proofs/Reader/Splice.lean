import Parlance.Proofs.Reader.Refusal
import Parlance.Proofs.Reader.Statement

/-!
# Readings of inputs that go on

Two inputs begin with the same tokens, on lines that may differ. The first ends after them, the
second goes on. A reading of the first tells what comes of the second: a token that it refused is
refused again, and what it read is read again, unless it stopped only because it met the end and the
second input goes on in a way that the reader would have followed.

Both inputs may allow different nesting, the second at least as much as the first.
-/

namespace Parlance

/-- The token on another line. -/
def Token.moved (move : Int → Int) (t : Token) : Token := { t with line := move t.line }

/-- The statement with every line in it moved. -/
def Stmt.moved (move : Int → Int) : Stmt → Stmt
  | .expr e line => .expr e (move line)
  | .print e line => .print e (move line)
  | .declare name value fresh line => .declare name value fresh (move line)
  | .branch condition yes no line =>
    .branch condition (yes.map (moved move)) (no.map (moved move)) (move line)
  | .loop condition body line => .loop condition (body.map (moved move)) (move line)
  | .blank => .blank

theorem Token.map_moved_id (ts : List Token) : ts.map (.moved id) = ts :=
  List.map_id ts

theorem Stmt.moved_id : ∀ s : Stmt, s.moved id = s
  | .expr e line => by rw [moved]; rfl
  | .print e line => by rw [moved]; rfl
  | .declare name value fresh line => by rw [moved]; rfl
  | .branch condition yes no line => by
    rw [moved, List.map_congr_left fun s _ => moved_id s,
      List.map_congr_left fun s _ => moved_id s, List.map_id', List.map_id']
    rfl
  | .loop condition body line => by
    rw [moved, List.map_congr_left fun s _ => moved_id s, List.map_id']
    rfl
  | .blank => by rw [moved]

theorem Stmt.map_moved_id (ss : List Stmt) : ss.map (.moved id) = ss := by
  rw [List.map_congr_left fun s _ => moved_id s, List.map_id']

namespace Reader

/-- Two inputs that begin alike. -/
structure Splice where
  move : Int → Int
  last : Int
  last' : Int
  /-- What the first input ends with. -/
  tail : List Token
  /-- What the second goes on with. -/
  more : List Token
  ends : (front last tail).kind = .endOfInput

namespace Splice

variable (b : Splice)

/-- The first input from the common tokens on. -/
def old (ts : List Token) : List Token := ts ++ b.tail

/-- The second input from the common tokens on. -/
def new (ts : List Token) : List Token := ts.map (.moved b.move) ++ b.more

/-- The second input ends after the common tokens as well. -/
def Ends : Prop := (front b.last' b.more).kind = .endOfInput

variable {b}

theorem old_inj {ts us : List Token} (h : b.old ts = b.old us) : ts = us :=
  List.append_cancel_right h

theorem shorter {ts rest : List Token} (h : (b.old rest).length < (b.old ts).length) :
    rest.length < ts.length := by
  unfold old at h
  rw [List.length_append, List.length_append] at h
  omega

end Splice

/-- Kinds that go on with an expression or a name before them. -/
def goesOn (kind : Kind) : Bool :=
  (Op.joining? kind).isSome || kind = .leftParen || Plain.assigns kind

/-- Nothing that goes on with an expression or a name. -/
def Calm (ts : List Token) : Prop := ∀ t rest, ts = t :: rest → goesOn t.kind = false

/-- Nothing that goes on with a conditional. -/
def Unbranched (ts : List Token) : Prop :=
  ∀ t rest, skipNewlines ts = t :: rest → t.kind ≠ .elifWord ∧ t.kind ≠ .elseWord

/-- The error of meeting a token. -/
def meeting (wanted : Wanted) (t : Token) : Error := ⟨.unexpectedToken wanted t, some t.line⟩

variable {α α' β β' : Type}

/-- How a reading of the first input, from the common tokens `ts` on, tells of one of the second.
What was read is read again if `Q` holds of the common tokens that are left. -/
inductive Carried (b : Splice) (Q : List Token → Prop) (f : α → α') (ts : List Token) :
    Except Error (α × List Token) → Except Error (α' × List Token) → Prop
  | ok {a : α} {rest : List Token} {r' : Except Error (α' × List Token)} (hs : rest <:+ ts)
      (h : Q rest → r' = .ok (f a, b.new rest)) : Carried b Q f ts (.ok (a, b.old rest)) r'
  | refused {wanted : Wanted} {t : Token} (ht : t ∈ ts) :
      Carried b Q f ts (.error (meeting wanted t)) (.error (meeting wanted (t.moved b.move)))
  | ended {wanted : Wanted} {r' : Except Error (α' × List Token)}
      (h : b.Ends → r' = .error (refusal b.last' wanted b.more)) :
      Carried b Q f ts (.error (refusal b.last wanted b.tail)) r'
  | deep {line : Option Int} {r' : Except Error (α' × List Token)} :
      Carried b Q f ts (.error ⟨.sourceTooDeep, line⟩) r'

/-! ## Reading at the end -/

namespace Plain

theorem joined_calm {last : Int} {room least : Nat} {left : Expr} {ts : List Token}
    (h : ∀ t rest, ts = t :: rest → Op.joining? t.kind = none) :
    joined last room least left ts = .ok (left, ts) := by
  match ts with
  | [] => exact joined_nil last room least left
  | t :: rest =>
    refine joined_stop ?_
    unfold Op.next?
    rw [h t rest rfl]

section End

variable {last : Int} {room : Nat} {closer : Kind} {wanted : Wanted} {ts : List Token}
  (h : (front last ts).kind = .endOfInput)

include h

theorem token_end (hcloser : closer ≠ .endOfInput) :
    token last closer wanted ts = .error (refusal last wanted ts) := by
  refine token_refused last ?_
  rintro t rest rfl ht
  exact hcloser (ht.symm.trans h)

theorem operand_end :
    operand last room ts = .error (refusal last .expression ts) := by
  match ts with
  | [] => exact operand_nil last room
  | t :: rest => exact operand_refused (by rw [show t.kind = _ from h]; rfl)

theorem expression_end (least : Nat) :
    expression last room least ts = .error (refusal last .expression ts) := by
  rw [expression_eq]
  exact andThen_of_error (operand_end h)

theorem moreItems_end :
    moreItems last room closer wanted ts = .error (refusal last .expression ts) := by
  rw [moreItems_eq]
  exact andThen_of_error (expression_end h 0)

end End

end Plain

/-! ## Carrying -/

namespace Carried

variable {b : Splice} {Q Q' : List Token → Prop} {f : α → α'} {f' : β → β'} {ts us : List Token}
  {r : Except Error (α × List Token)} {r' : Except Error (α' × List Token)}

theorem mono (h : Carried b Q f ts r r') (hQ : ∀ rest, Q' rest → Q rest) :
    Carried b Q' f ts r r' := by
  cases h with
  | ok hs h => exact .ok hs fun hq => h (hQ _ hq)
  | refused ht => exact .refused ht
  | ended h => exact .ended h
  | deep => exact .deep

theorem of_ok {a : α} {left : List Token} (h : Carried b Q f ts r r') (hr : r = .ok (a, left)) :
    ∃ rest, rest <:+ ts ∧ left = b.old rest ∧ (Q rest → r' = .ok (f a, b.new rest)) := by
  cases h with
  | ok hs h =>
    obtain ⟨rfl, rfl⟩ := Prod.mk.inj (Except.ok.inj hr)
    exact ⟨_, hs, rfl, h⟩
  | refused ht => cases hr
  | ended => cases hr
  | deep => cases hr

theorem suffix (h : Carried b Q f us r r') (hus : us <:+ ts) : Carried b Q f ts r r' := by
  cases h with
  | ok hs h => exact .ok (hs.trans hus) h
  | refused ht => exact .refused (hus.subset ht)
  | ended h => exact .ended h
  | deep => exact .deep

theorem cons {t : Token} (h : Carried b Q f ts r r') : Carried b Q f (t :: ts) r r' :=
  h.suffix (List.suffix_cons t ts)

theorem give {a : α} : Carried b Q f ts (Plain.give a (b.old ts)) (Plain.give (f a) (b.new ts)) :=
  .ok (List.suffix_refl ts) fun _ => rfl

/-- Reading with one reader after the other. What the first reader left has to be such that it reads
again wherever the outcome of the second is the same again. -/
theorem andThen {p : Plain α} {p' : Plain α'} {k : α → Plain β} {k' : α' → Plain β'}
    (hp : Carried b Q f ts (p (b.old ts)) (p' (b.new ts)))
    (hk : ∀ a rest, rest <:+ ts → p (b.old ts) = .ok (a, b.old rest) →
      Carried b Q' f' rest (k a (b.old rest)) (k' (f a) (b.new rest)))
    (hok : ∀ a rest c left, p (b.old ts) = .ok (a, b.old rest) →
      k a (b.old rest) = .ok (c, b.old left) → left <:+ rest → Q' left → Q rest)
    (href : ∀ a rest wanted t, p (b.old ts) = .ok (a, b.old rest) →
      k a (b.old rest) = .error (meeting wanted t) → t ∈ rest → Q rest)
    (hend : ∀ a rest wanted, k a (b.old rest) = .error (refusal b.last wanted b.tail) → b.Ends →
      Q rest) :
    Carried b Q' f' ts (p.andThen k (b.old ts)) (p'.andThen k' (b.new ts)) := by
  unfold Plain.andThen
  generalize hr : p (b.old ts) = r at *
  generalize p' (b.new ts) = r' at *
  cases hp with
  | @ok a rest _ hs h =>
    have hk := hk a rest hs rfl
    have hok := fun c left => hok a rest c left rfl
    have href := fun wanted t => href a rest wanted t rfl
    have hend := hend a rest
    dsimp only
    generalize k a (b.old rest) = q at *
    generalize hq' : k' (f a) (b.new rest) = q' at *
    cases hk with
    | ok hs' h' =>
      refine .ok (hs'.trans hs) fun hQ' => ?_
      rw [h (hok _ _ rfl hs' hQ')]
      exact hq'.trans (h' hQ')
    | refused ht =>
      rw [h (href _ _ rfl ht)]
      dsimp only
      rw [hq']
      exact .refused (hs.subset ht)
    | ended h' =>
      refine .ended fun hmore => ?_
      rw [h (hend _ rfl hmore)]
      exact hq'.trans (h' hmore)
    | deep => exact .deep
  | refused ht => exact .refused ht
  | ended h =>
    refine .ended fun hmore => ?_
    rw [h hmore]
  | deep => exact .deep

/-- A reading whose value is changed. -/
theorem thenGive {p : Plain α} {p' : Plain α'} {k : α → β} {k' : α' → β'}
    (hp : Carried b Q f ts (p (b.old ts)) (p' (b.new ts))) (hk : ∀ a, f' (k a) = k' (f a)) :
    Carried b Q f' ts (p.andThen (fun a => Plain.give (k a)) (b.old ts))
      (p'.andThen (fun a => Plain.give (k' a)) (b.new ts)) := by
  refine hp.andThen (fun a rest _ _ => ?_) ?_ ?_ ?_
  · rw [← hk a]
    exact .give
  · intro a rest c left _ hgive _ hq
    obtain rfl := Splice.old_inj (Prod.mk.inj (Except.ok.inj hgive)).2
    exact hq
  · intro a rest wanted t _ hgive
    cases hgive
  · intro a rest wanted hgive
    cases hgive

theorem within {room room' : Nat} {p : Nat → Plain α} {p' : Nat → Plain α'} (hroom : room ≤ room')
    (h : ∀ inside inside', inside < room → inside ≤ inside' →
      Carried b Q f ts (p inside (b.old ts)) (p' inside' (b.new ts))) :
    Carried b Q f ts (Plain.within b.last room p (b.old ts))
      (Plain.within b.last' room' p' (b.new ts)) := by
  match room, room', hroom with
  | 0, _, _ => exact .deep
  | inside + 1, inside' + 1, hroom =>
    exact h inside inside' (Nat.lt_succ_self _) (Nat.le_of_succ_le_succ hroom)

theorem token {kind : Kind} {wanted : Wanted} (hkind : kind ≠ .endOfInput) :
    Carried b (fun _ => True) (.moved b.move) ts (Plain.token b.last kind wanted (b.old ts))
      (Plain.token b.last' kind wanted (b.new ts)) := by
  match ts with
  | [] =>
    have hold : Plain.token b.last kind wanted (b.old []) = .error (refusal b.last wanted b.tail) :=
      Plain.token_end b.ends hkind
    rw [hold]
    exact .ended fun hmore => Plain.token_end hmore hkind
  | t :: ts =>
    show Carried b _ _ _ (Plain.token b.last kind wanted (t :: b.old ts))
      (Plain.token b.last' kind wanted (t.moved b.move :: b.new ts))
    by_cases ht : t.kind = kind
    · rw [Plain.token_cons b.last ht, Plain.token_cons b.last' (show (t.moved _).kind = kind from ht)]
      exact .ok (List.suffix_cons t ts) fun _ => rfl
    · rw [Plain.token_refused b.last (by rintro _ _ ⟨⟩; exact ht),
        Plain.token_refused b.last' (by rintro _ _ ⟨⟩; exact ht)]
      exact .refused (List.mem_cons_self ..)

end Carried

/-! ## Expressions -/

/-- What an expression leaves of the common tokens, when it is read again. -/
def ExprSeam (b : Splice) (rest : List Token) : Prop := rest ≠ [] ∨ Calm b.more

namespace ExprSeam

variable {b : Splice} {rest left : List Token} {t : Token}

theorem of_suffix (h : ExprSeam b left) (hs : left <:+ rest) : ExprSeam b rest := by
  rcases h with h | h
  · refine .inl ?_
    rintro rfl
    exact h (List.suffix_nil.1 hs)
  · exact .inr h

theorem of_mem (h : t ∈ rest) : ExprSeam b rest := .inl (List.ne_nil_of_mem h)

end ExprSeam

theorem Calm.joining {ts : List Token} (h : Calm ts) :
    ∀ t rest, ts = t :: rest → Op.joining? t.kind = none := by
  intro t rest hts
  have hk := h t rest hts
  simp only [goesOn, Bool.or_eq_false_iff, Option.isSome_eq_false_iff,
    Option.isNone_iff_eq_none] at hk
  exact hk.1.1

theorem Calm.leftParen {ts : List Token} (h : Calm ts) :
    ∀ t rest, ts = t :: rest → t.kind ≠ .leftParen := by
  intro t rest hts
  have hk := h t rest hts
  simp only [goesOn, Bool.or_eq_false_iff, decide_eq_false_iff_not] at hk
  exact hk.1.2

theorem Calm.assigns {ts : List Token} (h : Calm ts) :
    ∀ t rest, ts = t :: rest → Plain.assigns t.kind = false := by
  intro t rest hts
  have hk := h t rest hts
  simp only [goesOn, Bool.or_eq_false_iff] at hk
  exact hk.2

/-- The end of the input is calm. -/
theorem calm_of_end {last : Int} {ts : List Token} (h : (front last ts).kind = .endOfInput) :
    Calm ts := by
  rintro t rest rfl
  rw [show t.kind = _ from h]
  rfl

/-- Readers of expressions one after the other. -/
theorem Carried.thenExpr {b : Splice} {Q : List Token → Prop} {f : α → α'} {f' : β → β'}
    {ts : List Token} {p : Plain α} {p' : Plain α'} {k : α → Plain β} {k' : α' → Plain β'}
    (hp : Carried b (ExprSeam b) f ts (p (b.old ts)) (p' (b.new ts)))
    (hQ : ∀ rest, Q rest → ExprSeam b rest)
    (hk : ∀ a rest, rest <:+ ts → p (b.old ts) = .ok (a, b.old rest) →
      Carried b Q f' rest (k a (b.old rest)) (k' (f a) (b.new rest))) :
    Carried b Q f' ts (p.andThen k (b.old ts)) (p'.andThen k' (b.new ts)) :=
  hp.andThen hk (fun _ _ _ left _ _ hs hq => (hQ left hq).of_suffix hs)
    (fun _ _ _ _ _ _ ht => .of_mem ht) fun _ _ _ _ hmore => .inr (calm_of_end hmore)

/-- A token, and what is read after it. -/
theorem Carried.tokenThen {b : Splice} {Q : List Token → Prop} {f : β → β'} {ts : List Token}
    {kind : Kind} {wanted : Wanted} {k k' : Token → Plain _} (hkind : kind ≠ .endOfInput)
    (hk : ∀ t rest, ts = t :: rest →
      Carried b Q f rest (k t (b.old rest)) (k' (t.moved b.move) (b.new rest))) :
    Carried b Q f ts ((Plain.token b.last kind wanted).andThen k (b.old ts))
      ((Plain.token b.last' kind wanted).andThen k' (b.new ts)) := by
  refine (Carried.token hkind).andThen (fun t rest hs ht => ?_) (fun _ _ _ _ _ _ _ _ => trivial)
    (fun _ _ _ _ _ _ _ => trivial) fun _ _ _ _ _ => trivial
  obtain ⟨-, hts⟩ := Plain.token_eq_ok ht
  exact hk t rest (Splice.old_inj hts)

namespace Plain

variable {b : Splice}

mutual
theorem expression_carried {room room' least : Nat} {ts : List Token} (hroom : room ≤ room') :
    Carried b (ExprSeam b) id ts (expression b.last room least (b.old ts))
      (expression b.last' room' least (b.new ts)) := by
  rw [expression_eq, expression_eq]
  refine (operand_carried hroom).thenExpr (fun _ h => h) fun left rest hs hleft => ?_
  have hlt : rest.length < ts.length := Splice.shorter (Reading.shorter_of_plain hleft)
  exact joined_carried hroom
termination_by (ts.length, 2)

theorem joined_carried {room room' least : Nat} {left : Expr} {ts : List Token}
    (hroom : room ≤ room') :
    Carried b (ExprSeam b) id ts (joined b.last room least left (b.old ts))
      (joined b.last' room' least left (b.new ts)) := by
  match ts with
  | [] =>
    have hold : joined b.last room least left (b.old []) = .ok (left, b.old []) :=
      joined_calm (calm_of_end b.ends).joining
    rw [hold]
    refine .ok (List.suffix_refl _) fun hseam => ?_
    exact joined_calm (hseam.resolve_left fun h => h rfl).joining
  | t :: ts =>
    show Carried b _ _ _ (joined b.last room least left (t :: b.old ts))
      (joined b.last' room' least left (t.moved b.move :: b.new ts))
    cases joint least t.kind with
    | stop hn =>
      rw [joined_stop hn, joined_stop (t := t.moved b.move) hn]
      exact .ok (List.suffix_refl (t :: ts)) fun _ => rfl
    | index hn =>
      rw [joined_index hn, joined_index (t := t.moved b.move) hn]
      refine .cons (.thenExpr (.within hroom fun _ _ _ hin => expression_carried hin)
        (fun _ h => h) fun i rest hs hdeep => ?_)
      obtain ⟨inside, -, hin⟩ := within_eq_ok hdeep
      have hlt : rest.length < ts.length := Splice.shorter (Reading.shorter_of_plain hin)
      refine Carried.tokenThen (by decide) fun closer rest' hrest => ?_
      subst hrest
      have hlt' : rest'.length < ts.length := Nat.lt_of_succ_lt hlt
      exact joined_carried hroom
    | field hn =>
      rw [joined_field hn, joined_field (t := t.moved b.move) hn]
      refine (Carried.tokenThen (by decide) fun x rest hrest => ?_).cons
      subst hrest
      exact joined_carried hroom
    | join hn hi hf =>
      rw [joined_join hn hi hf, joined_join (t := t.moved b.move) hn hi hf]
      refine ((expression_carried hroom).thenExpr (fun _ h => h)
        fun right rest hs hright => ?_).cons
      have hlt : rest.length < ts.length := Splice.shorter (Reading.shorter_of_plain hright)
      exact joined_carried hroom
termination_by (ts.length, 0)

theorem operand_carried {room room' : Nat} {ts : List Token} (hroom : room ≤ room') :
    Carried b (ExprSeam b) id ts (operand b.last room (b.old ts))
      (operand b.last' room' (b.new ts)) := by
  match ts with
  | [] =>
    have hold : operand b.last room (b.old []) = .error (refusal b.last .expression b.tail) :=
      operand_end b.ends
    rw [hold]
    exact .ended operand_end
  | t :: ts =>
    show Carried b _ _ _ (operand b.last room (t :: b.old ts))
      (operand b.last' room' (t.moved b.move :: b.new ts))
    cases opening t.kind with
    | leading hop =>
      rw [operand_leading hop, operand_leading (t := t.moved b.move) hop]
      exact .cons (.thenGive (.within hroom fun _ _ _ hin => expression_carried hin) fun _ => rfl)
    | literal hk =>
      rw [operand_literal hk, operand_literal (t := t.moved b.move) hk]
      exact .ok (List.suffix_cons t ts) fun _ => rfl
    | trueWord hk =>
      rw [operand_true hk, operand_true (t := t.moved b.move) hk]
      exact .ok (List.suffix_cons t ts) fun _ => rfl
    | falseWord hk =>
      rw [operand_false hk, operand_false (t := t.moved b.move) hk]
      exact .ok (List.suffix_cons t ts) fun _ => rfl
    | identifier hk => exact name_carried hroom hk
    | paren hk =>
      rw [operand_paren hk, operand_paren (t := t.moved b.move) hk]
      refine .cons (.thenExpr (.within hroom fun _ _ _ hin => expression_carried hin)
        (fun _ h => h) fun e rest _ _ => ?_)
      exact .tokenThen (by decide) fun _ _ _ => .give
    | array hk =>
      rw [operand_array hk, operand_array (t := t.moved b.move) hk]
      exact .cons (.thenGive (items_carried hroom (by decide)) fun _ => rfl)
    | refused hk =>
      rw [operand_refused hk, operand_refused (t := t.moved b.move) hk]
      exact .refused (List.mem_cons_self ..)
termination_by (ts.length, 1)

/-- A name, which is a call if a parenthesis follows it. -/
theorem name_carried {room room' : Nat} {t : Token} {ts : List Token} (hroom : room ≤ room')
    (hk : t.kind = .identifier) :
    Carried b (ExprSeam b) id (t :: ts) (operand b.last room (t :: b.old ts))
      (operand b.last' room' (t.moved b.move :: b.new ts)) := by
  have hk' : (t.moved b.move).kind = .identifier := hk
  match ts with
  | [] =>
    have hold : operand b.last room (t :: b.old []) = .ok (.name t.lexeme, b.old []) :=
      operand_name hk (calm_of_end b.ends).leftParen
    rw [hold]
    refine .ok (List.suffix_cons t []) fun hseam => ?_
    exact operand_name hk' (hseam.resolve_left fun h => h rfl).leftParen
  | p :: ts =>
    by_cases hp : p.kind = .leftParen
    · show Carried b _ _ _ (operand b.last room (t :: p :: b.old ts))
        (operand b.last' room' (t.moved b.move :: p.moved b.move :: b.new ts))
      rw [operand_call hk hp, operand_call hk' (show (p.moved b.move).kind = _ from hp)]
      exact .cons (.cons (.thenGive (items_carried hroom (by decide)) fun _ => rfl))
    · rw [operand_name hk (by rintro _ _ ⟨⟩; exact hp), operand_name hk' (by rintro _ _ ⟨⟩; exact hp)]
      exact .ok (List.suffix_cons t _) fun _ => rfl
termination_by ((t :: ts).length, 0)

theorem items_carried {room room' : Nat} {closer : Kind} {wanted : Wanted} {ts : List Token}
    (hroom : room ≤ room') (hcloser : closer ≠ .endOfInput) :
    Carried b (ExprSeam b) id ts (items b.last room closer wanted (b.old ts))
      (items b.last' room' closer wanted (b.new ts)) := by
  rw [items_eq, items_eq]
  match ts with
  | [] =>
    have hne : (front b.last (b.old [])).kind ≠ closer := by
      rw [show (front b.last (b.old [])).kind = _ from b.ends]
      exact hcloser.symm
    rw [if_neg hne]
    match room with
    | 0 => exact .deep
    | inside + 1 =>
      have hold : within b.last (inside + 1) (fun inside => moreItems b.last inside closer wanted)
          (b.old []) = .error (refusal b.last .expression b.tail) :=
        moreItems_end b.ends
      rw [hold]
      refine .ended fun hmore => ?_
      match room', hroom with
      | inside' + 1, _ =>
        rw [if_neg fun h => hcloser (h.symm.trans hmore)]
        exact moreItems_end hmore
  | t :: ts =>
    by_cases hc : t.kind = closer
    · rw [if_pos (show (front b.last (b.old (t :: ts))).kind = closer from hc),
        if_pos (show (front b.last' (b.new (t :: ts))).kind = closer from hc)]
      exact .ok (List.suffix_cons t ts) fun _ => rfl
    · rw [if_neg (show (front b.last (b.old (t :: ts))).kind ≠ closer from hc),
        if_neg (show (front b.last' (b.new (t :: ts))).kind ≠ closer from hc)]
      exact .within hroom fun _ _ _ hin => moreItems_carried hin hcloser
termination_by (ts.length, 4)

theorem moreItems_carried {room room' : Nat} {closer : Kind} {wanted : Wanted} {ts : List Token}
    (hroom : room ≤ room') (hcloser : closer ≠ .endOfInput) :
    Carried b (ExprSeam b) id ts (moreItems b.last room closer wanted (b.old ts))
      (moreItems b.last' room' closer wanted (b.new ts)) := by
  rw [moreItems_eq, moreItems_eq]
  refine .thenExpr (expression_carried hroom) (fun _ h => h) fun e rest hs hitem => ?_
  have hlt : rest.length < ts.length := Splice.shorter (Reading.shorter_of_plain hitem)
  match rest with
  | [] =>
    have hcomma : (front b.last (b.old [])).kind ≠ .comma := by
      rw [show (front b.last (b.old [])).kind = _ from b.ends]
      decide
    have hclose : token b.last closer wanted (b.old []) = .error (refusal b.last wanted b.tail) :=
      token_end b.ends hcloser
    rw [afterItem_last b.last hcomma, andThen_of_error hclose]
    refine .ended fun hmore => ?_
    have hcomma' : (front b.last' b.more).kind ≠ .comma := by
      rw [show (front b.last' b.more).kind = _ from hmore]
      decide
    exact (afterItem_last b.last' hcomma').trans (andThen_of_error (token_end hmore hcloser))
  | t :: rest =>
    by_cases hc : t.kind = .comma
    · show Carried b _ _ _ (afterItem b.last room closer wanted e (t :: b.old rest))
        (afterItem b.last' room' closer wanted e (t.moved b.move :: b.new rest))
      rw [afterItem_comma b.last hc, afterItem_comma b.last' (show (t.moved _).kind = _ from hc)]
      have hlt' : rest.length < ts.length := Nat.lt_of_succ_lt hlt
      exact .cons (.thenGive (moreItems_carried hroom hcloser) fun _ => rfl)
    · rw [afterItem_last b.last (show (front b.last (b.old (t :: rest))).kind ≠ _ from hc),
        afterItem_last b.last' (show (front b.last' (b.new (t :: rest))).kind ≠ _ from hc)]
      exact .tokenThen hcloser fun _ _ _ => .give
termination_by (ts.length, 3)
end

end Plain

end Reader

end Parlance
