import Parlance.Proofs.Grammar.Script

/-!
# Shorthands

An assignment `x += e` stands for `x = x + (e)`, and `elif` for a conditional of its own in the block of
an `else`. `Expands ts us` says that the program `us` is the program `ts` with any number of its
shorthands written out, at any depth. Both are read as the same statements (`readProgram_expands`), and
all shorthands of a program can be written out (`DerivesBody.exists_expands`).
-/

namespace Parlance

/-- The kinds of tokens that only shorthands have. -/
def Kind.isShorthand : Kind → Bool
  | .plusAssign | .minusAssign | .elifWord => true
  | _ => false

namespace Grammar

/-! ## Writing out shorthands -/

mutual
inductive ExpandsStmt : List Token → List Token → Prop where
  | same {ts : List Token} {s : Stmt} (h : DerivesStmt ts s) : ExpandsStmt ts ts
  /-- The value in parentheses, behind the name and the operator. -/
  | assigning {x sign equals y between opener closer : Token} {ts : List Token} {e : Expr} {op : Op}
      (hx : x.kind = .identifier) (hs : Op.assigning? sign.kind = some op) (h : Derives .or ts e)
      (he : equals.kind = .assign) (hy : y.kind = .identifier) (hxy : y.lexeme = x.lexeme)
      (hb : Tier.sum.sign? between.kind = some op) (ho : opener.kind = .leftParen)
      (hc : closer.kind = .rightParen) :
      ExpandsStmt (x :: sign :: ts) (x :: equals :: y :: between :: opener :: (ts ++ [closer]))
  | loop {t : Token} {cs bs bs' : List Token} {condition : Expr} (ht : t.kind = .whileWord)
      (hc : Derives .or cs condition) (hb : ExpandsBlock bs bs') :
      ExpandsStmt (t :: (cs ++ bs)) (t :: (cs ++ bs'))
  | branch {t : Token} {ts us : List Token} (ht : t.kind = .ifWord) (h : ExpandsBranch ts us) :
      ExpandsStmt (t :: ts) (t :: us)

inductive ExpandsBranch : List Token → List Token → Prop where
  | alone {cs ys ys' : List Token} {condition : Expr} (hc : Derives .or cs condition)
      (hy : ExpandsBlock ys ys') : ExpandsBranch (cs ++ ys) (cs ++ ys')
  | elif {cs ys ys' ls ts us : List Token} {t : Token} {condition : Expr}
      (hc : Derives .or cs condition) (hy : ExpandsBlock ys ys') (hl : Lines ls)
      (ht : t.kind = .elifWord) (h : ExpandsBranch ts us) :
      ExpandsBranch (cs ++ (ys ++ (ls ++ t :: ts))) (cs ++ (ys' ++ (ls ++ t :: us)))
  /-- An `else` with a block that holds the rest of the chain, as an `if` on the line of the `elif`. -/
  | nested {cs ys ys' ls ts us : List Token} {t other opener word closer : Token} {condition : Expr}
      (hc : Derives .or cs condition) (hy : ExpandsBlock ys ys') (hl : Lines ls)
      (ht : t.kind = .elifWord) (h : ExpandsBranch ts us) (he : other.kind = .elseWord)
      (ho : opener.kind = .leftBrace) (hw : word.kind = .ifWord) (hline : word.line = t.line)
      (hcl : closer.kind = .rightBrace) :
      ExpandsBranch (cs ++ (ys ++ (ls ++ t :: ts)))
        (cs ++ (ys' ++ (ls ++ other :: opener :: (word :: us ++ [closer]))))
  | otherwise {cs ys ys' ls ns ns' : List Token} {t : Token} {condition : Expr}
      (hc : Derives .or cs condition) (hy : ExpandsBlock ys ys') (hl : Lines ls)
      (ht : t.kind = .elseWord) (hn : ExpandsBlock ns ns') :
      ExpandsBranch (cs ++ (ys ++ (ls ++ t :: ns))) (cs ++ (ys' ++ (ls ++ t :: ns')))

inductive ExpandsBlock : List Token → List Token → Prop where
  | braces {opener closer : Token} {ts us : List Token} (ho : opener.kind = .leftBrace)
      (h : ExpandsBody ts us) (hc : closer.kind = .rightBrace) :
      ExpandsBlock (opener :: (ts ++ [closer])) (opener :: (us ++ [closer]))

inductive ExpandsBody : List Token → List Token → Prop where
  | none {ls : List Token} (hl : Lines ls) : ExpandsBody ls ls
  | some {ls ts us ls' : List Token} (hl : Lines ls) (h : ExpandsSeq ts us) (hl' : Lines ls') :
      ExpandsBody (ls ++ (ts ++ ls')) (ls ++ (us ++ ls'))

inductive ExpandsSeq : List Token → List Token → Prop where
  | last {ts us : List Token} (h : ExpandsStmt ts us) : ExpandsSeq ts us
  | more {ts ts' ls us us' : List Token} (h : ExpandsStmt ts ts') (hl : Lines ls) (hne : ls ≠ [])
      (hs : ExpandsSeq us us') : ExpandsSeq (ts ++ (ls ++ us)) (ts' ++ (ls ++ us'))
end

/-- A program with any number of its shorthands written out. -/
def Expands (ts us : List Token) : Prop :=
  ∃ text text' tail, ts = text ++ tail ∧ us = text' ++ tail ∧ ExpandsBody text text' ∧
    (tail = [] ∨ ∃ t, tail = [t] ∧ t.kind = .endOfInput)

/-! ## The statements are the same -/

section Same

variable {x sign equals y between opener closer : Token} {ts : List Token} {e : Expr} {op : Op}

theorem assigning?_cases {kind : Kind} (h : Op.assigning? kind = some op) :
    (kind = .plusAssign ∧ op = .plus) ∨ (kind = .minusAssign ∧ op = .minus) := by
  unfold Op.assigning? at h
  split at h
  · exact .inl ⟨rfl, (Option.some.inj h).symm⟩
  · exact .inr ⟨rfl, (Option.some.inj h).symm⟩
  · cases h

theorem DerivesStmt.assigning (hx : x.kind = .identifier) (hs : Op.assigning? sign.kind = some op)
    (h : Derives .or ts e) : DerivesStmt (x :: sign :: ts)
      (.declare x.lexeme (.apply op [.name x.lexeme, e]) false x.line) := by
  rcases assigning?_cases hs with ⟨hkind, rfl⟩ | ⟨hkind, rfl⟩
  · exact .add hx hkind h
  · exact .subtract hx hkind h

/-- A phrase in parentheses is an operand of a sum, whatever its tier. -/
theorem derives_sum_paren (hy : y.kind = .identifier) (hb : Tier.sum.sign? between.kind = some op)
    (ho : opener.kind = .leftParen) (h : Derives .or ts e) (hc : closer.kind = .rightParen) :
    Derives .or (y :: between :: opener :: (ts ++ [closer])) (.apply op [.name y.lexeme, e]) := by
  have hname : Derives .sum [y] (.name y.lexeme) :=
    Derives.loosen (.name hy : Derives .prim _ _) (by decide)
  have hparen : Derives .prod (opener :: ts ++ [closer]) e :=
    Derives.loosen (.paren ho h hc : Derives .prim _ _) (by decide)
  exact Derives.loosen (.join rfl hname hb hparen : Derives .sum _ _) (by decide)

theorem DerivesBody.single {s : Stmt} (h : DerivesStmt ts s) : DerivesBody ts [s] := by
  have hnil : Lines [] := by simp [Lines]
  simpa using DerivesBody.some hnil (.last h) hnil

end Same

mutual
theorem ExpandsStmt.derives {ts us : List Token} :
    ExpandsStmt ts us → ∃ s, DerivesStmt ts s ∧ DerivesStmt us s
  | .same h => ⟨_, h, h⟩
  | .assigning hx hs h he hy hxy hb ho hc => by
    have hvalue := derives_sum_paren hy hb ho h hc
    rw [hxy] at hvalue
    exact ⟨_, .assigning hx hs h, .assign hx he hvalue⟩
  | .loop ht hc hb => by
    obtain ⟨body, hbody, hbody'⟩ := hb.derives
    exact ⟨_, .loop ht hc hbody, .loop ht hc hbody'⟩
  | .branch ht h => by
    obtain ⟨s, hs, hs'⟩ := h.derives _
    exact ⟨s, .branch ht hs, .branch ht hs'⟩

theorem ExpandsBranch.derives {ts us : List Token} :
    ExpandsBranch ts us → ∀ line, ∃ s, DerivesBranch line ts s ∧ DerivesBranch line us s
  | .alone hc hy, line => by
    obtain ⟨yes, hyes, hyes'⟩ := hy.derives
    exact ⟨_, .alone hc hyes, .alone hc hyes'⟩
  | .elif hc hy hl ht h, line => by
    obtain ⟨yes, hyes, hyes'⟩ := hy.derives
    obtain ⟨no, hno, hno'⟩ := h.derives _
    exact ⟨_, .elif hc hyes hl ht hno, .elif hc hyes' hl ht hno'⟩
  | @ExpandsBranch.nested _ _ _ _ _ _ t _ _ _ _ _ hc hy hl ht h he ho hw hline hcl, line => by
    obtain ⟨yes, hyes, hyes'⟩ := hy.derives
    obtain ⟨no, hno, hno'⟩ := h.derives t.line
    rw [← hline] at hno'
    exact ⟨_, .elif hc hyes hl ht hno,
      .otherwise hc hyes' hl he (.braces ho (.single (.branch hw hno')) hcl)⟩
  | .otherwise hc hy hl ht hn, line => by
    obtain ⟨yes, hyes, hyes'⟩ := hy.derives
    obtain ⟨no, hno, hno'⟩ := hn.derives
    exact ⟨_, .otherwise hc hyes hl ht hno, .otherwise hc hyes' hl ht hno'⟩

theorem ExpandsBlock.derives {ts us : List Token} :
    ExpandsBlock ts us → ∃ ss, DerivesBlock ts ss ∧ DerivesBlock us ss
  | .braces ho h hc => by
    obtain ⟨ss, hss, hss'⟩ := h.derives
    exact ⟨ss, .braces ho hss hc, .braces ho hss' hc⟩

theorem ExpandsBody.derives {ts us : List Token} :
    ExpandsBody ts us → ∃ ss, DerivesBody ts ss ∧ DerivesBody us ss
  | .none hl => ⟨[], .none hl, .none hl⟩
  | .some hl h hl' => by
    obtain ⟨ss, hss, hss'⟩ := h.derives
    exact ⟨ss, .some hl hss hl', .some hl hss' hl'⟩

theorem ExpandsSeq.derives {ts us : List Token} :
    ExpandsSeq ts us → ∃ ss, DerivesSeq ts ss ∧ DerivesSeq us ss
  | .last h => by
    obtain ⟨s, hs, hs'⟩ := h.derives
    exact ⟨[s], .last hs, .last hs'⟩
  | .more h hl hne hrest => by
    obtain ⟨s, hs, hs'⟩ := h.derives
    obtain ⟨ss, hss, hss'⟩ := hrest.derives
    exact ⟨s :: ss, .more hs hl hne hss, .more hs' hl hne hss'⟩
end

theorem Expands.scripts {ts us : List Token} (h : Expands ts us) :
    ∃ program, Script ts program ∧ Script us program := by
  obtain ⟨text, text', tail, rfl, rfl, hbody, htail⟩ := h
  obtain ⟨program, hscript, hscript'⟩ := hbody.derives
  exact ⟨program, ⟨text, tail, rfl, hscript, htail⟩, ⟨text', tail, rfl, hscript', htail⟩⟩

/-! ## All shorthands can be written out -/

/-- Tokens of no shorthand. -/
def Longhand (ts : List Token) : Prop := ∀ t ∈ ts, t.kind.isShorthand = false

@[simp]
theorem longhand_nil : Longhand [] := by simp [Longhand]

@[simp]
theorem longhand_cons {t : Token} {ts : List Token} :
    Longhand (t :: ts) ↔ t.kind.isShorthand = false ∧ Longhand ts := List.forall_mem_cons

@[simp]
theorem longhand_append {ts us : List Token} :
    Longhand (ts ++ us) ↔ Longhand ts ∧ Longhand us := List.forall_mem_append

theorem Lines.longhand {ls : List Token} (hl : Lines ls) : Longhand ls := by
  intro t ht
  rw [hl t ht]
  rfl

theorem isShorthand_of_sign? {tier : Tier} {kind : Kind} {op : Op} (h : tier.sign? kind = some op) :
    kind.isShorthand = false := by
  cases kind <;> first | rfl | (cases tier <;> cases h)

mutual
theorem Derives.longhand {tier : Tier} {ts : List Token} {e : Expr} :
    Derives tier ts e → Longhand ts
  | .pass _ h => h.longhand
  | .join _ hl ht hr => by simp [hl.longhand, hr.longhand, isShorthand_of_sign? ht]
  | .minus ht h | .bang ht h => by simp [h.longhand, ht, Kind.isShorthand]
  | .index hl ht hr hc => by simp [hl.longhand, hr.longhand, ht, hc, Kind.isShorthand]
  | .field hl ht hx => by simp [hl.longhand, ht, hx, Kind.isShorthand]
  | .number ht | .string ht | .trueWord ht | .falseWord ht | .name ht => by
    simp [ht, Kind.isShorthand]
  | .call hx ht h hc => by simp [hx, ht, h.longhand, hc, Kind.isShorthand]
  | .paren ht h hc => by simp [ht, h.longhand, hc, Kind.isShorthand]
  | .array ht h hc => by simp [ht, h.longhand, hc, Kind.isShorthand]

theorem DerivesArgs.longhand {ts : List Token} {es : List Expr} : DerivesArgs ts es → Longhand ts
  | .none => longhand_nil
  | .some h => h.longhand

theorem DerivesItems.longhand {ts : List Token} {es : List Expr} : DerivesItems ts es → Longhand ts
  | .last h => h.longhand
  | .more h ht hs => by simp [h.longhand, ht, hs.longhand, Kind.isShorthand]
end

/-- A token of an expansion, on the line of a token that it stands for. -/
def mark (kind : Kind) (t : Token) : Token := ⟨kind, "", .nothing, t.line⟩

theorem exists_expands_assigning {x sign : Token} {ts : List Token} {e : Expr} {op : Op}
    (hx : x.kind = .identifier) (hs : Op.assigning? sign.kind = some op) (h : Derives .or ts e) :
    ∃ us, ExpandsStmt (x :: sign :: ts) us ∧ Longhand us := by
  obtain ⟨kind, hkind⟩ : ∃ kind, Tier.sum.sign? kind = some op := by
    rcases assigning?_cases hs with ⟨-, rfl⟩ | ⟨-, rfl⟩
    · exact ⟨.plus, rfl⟩
    · exact ⟨.minus, rfl⟩
  refine ⟨_, @ExpandsStmt.assigning x sign (mark .assign sign) x (mark kind sign) (mark .leftParen sign)
    (mark .rightParen sign) ts e op hx hs h rfl hx rfl hkind rfl rfl, ?_⟩
  have hname : x.kind.isShorthand = false := by
    rw [hx]
    rfl
  simp only [longhand_cons, longhand_append, longhand_nil, and_true]
  exact ⟨hname, rfl, hname, isShorthand_of_sign? hkind, rfl, h.longhand, rfl⟩

mutual
theorem DerivesStmt.exists_expands {ts : List Token} {s : Stmt} :
    DerivesStmt ts s → ∃ us, ExpandsStmt ts us ∧ Longhand us
  | .introduce ht hx hs h => by
    refine ⟨_, .same (.introduce ht hx hs h), ?_⟩
    simp [ht, hx, hs, h.longhand, Kind.isShorthand]
  | .assign hx hs h => by
    refine ⟨_, .same (.assign hx hs h), ?_⟩
    simp [hx, hs, h.longhand, Kind.isShorthand]
  | .add hx hs h => @exists_expands_assigning _ _ _ _ .plus hx (by rw [hs]; rfl) h
  | .subtract hx hs h => @exists_expands_assigning _ _ _ _ .minus hx (by rw [hs]; rfl) h
  | .print ht h => by
    refine ⟨_, .same (.print ht h), ?_⟩
    simp [ht, h.longhand, Kind.isShorthand]
  | .loop ht hc hb => by
    obtain ⟨us, hus, hlong⟩ := hb.exists_expands
    refine ⟨_, .loop ht hc hus, ?_⟩
    simp [ht, hc.longhand, hlong, Kind.isShorthand]
  | .branch ht h => by
    obtain ⟨us, hus, hlong⟩ := h.exists_expands
    refine ⟨_, .branch ht hus, ?_⟩
    simp [ht, hlong, Kind.isShorthand]
  | .expr h => ⟨_, .same (.expr h), h.longhand⟩

theorem DerivesBranch.exists_expands {line : Int} {ts : List Token} {s : Stmt} :
    DerivesBranch line ts s → ∃ us, ExpandsBranch ts us ∧ Longhand us
  | .alone hc hy => by
    obtain ⟨ys', hy', hlong⟩ := hy.exists_expands
    refine ⟨_, .alone hc hy', ?_⟩
    simp [hc.longhand, hlong]
  | @DerivesBranch.elif _ _ _ _ _ t _ _ _ hc hy hl ht h => by
    obtain ⟨ys', hy', hlong⟩ := hy.exists_expands
    obtain ⟨us, hus, hrest⟩ := h.exists_expands
    refine ⟨_, @ExpandsBranch.nested _ _ _ _ _ _ t (mark .elseWord t) (mark .leftBrace t)
      (mark .ifWord t) (mark .rightBrace t) _ hc hy' hl ht hus rfl rfl rfl rfl rfl, ?_⟩
    simp [mark, hc.longhand, hlong, hl.longhand, hrest, Kind.isShorthand]
  | .otherwise hc hy hl ht hn => by
    obtain ⟨ys', hy', hlong⟩ := hy.exists_expands
    obtain ⟨ns', hn', hrest⟩ := hn.exists_expands
    refine ⟨_, .otherwise hc hy' hl ht hn', ?_⟩
    simp [hc.longhand, hlong, hl.longhand, ht, hrest, Kind.isShorthand]

theorem DerivesBlock.exists_expands {ts : List Token} {ss : List Stmt} :
    DerivesBlock ts ss → ∃ us, ExpandsBlock ts us ∧ Longhand us
  | .braces ho h hc => by
    obtain ⟨us, hus, hlong⟩ := h.exists_expands
    refine ⟨_, .braces ho hus hc, ?_⟩
    simp [ho, hlong, hc, Kind.isShorthand]

theorem DerivesBody.exists_expands {ts : List Token} {ss : List Stmt} :
    DerivesBody ts ss → ∃ us, ExpandsBody ts us ∧ Longhand us
  | .none hl => ⟨_, .none hl, hl.longhand⟩
  | .some hl h hl' => by
    obtain ⟨us, hus, hlong⟩ := h.exists_expands
    refine ⟨_, .some hl hus hl', ?_⟩
    simp [hl.longhand, hlong, hl'.longhand]

theorem DerivesSeq.exists_expands {ts : List Token} {ss : List Stmt} :
    DerivesSeq ts ss → ∃ us, ExpandsSeq ts us ∧ Longhand us
  | .last h => by
    obtain ⟨us, hus, hlong⟩ := h.exists_expands
    exact ⟨us, .last hus, hlong⟩
  | .more h hl hne hs => by
    obtain ⟨us, hus, hlong⟩ := h.exists_expands
    obtain ⟨vs, hvs, hrest⟩ := hs.exists_expands
    refine ⟨_, .more hus hl hne hvs, ?_⟩
    simp [hlong, hl.longhand, hrest]
end

theorem Script.exists_expands {ts : List Token} {program : List Stmt} (h : Script ts program) :
    ∃ us, Expands ts us ∧ Longhand us := by
  obtain ⟨text, tail, rfl, hbody, htail⟩ := h
  obtain ⟨us, hus, hlong⟩ := hbody.exists_expands
  refine ⟨us ++ tail, ⟨text, us, tail, rfl, rfl, hus, htail⟩, longhand_append.2 ⟨hlong, ?_⟩⟩
  rcases htail with rfl | ⟨t, rfl, ht⟩
  · exact longhand_nil
  · simp [ht, Kind.isShorthand]

/-! ## Reading -/

/-- A script that has no more tokens than the limit is read. -/
theorem readProgram_eq_ok_of_length {ts : List Token} {program : List Stmt} {limit : Nat}
    (h : Script ts program) (hle : ts.length ≤ limit) : readProgram limit ts = .ok program := by
  refine (readProgram_of_script h limit).resolve_right fun ⟨line, hstops⟩ => ?_
  rcases readProgram_fault hstops with ⟨wanted, found, hcause⟩ | ⟨-, hlt⟩
  · cases hcause
  · omega

/-- **Shorthands mean what they expand to.** A program and one in which any number of its shorthands are
written out are read as the same statements, unless the limit for nesting is reached (which takes more
tokens than the limit), and in a program that is read all shorthands can be written out. -/
theorem readProgram_expands :
    (∀ ts us, Expands ts us → ∃ program, ∀ limit,
      Yields (readProgram limit ts) (.ok program) ∧ Yields (readProgram limit us) (.ok program) ∧
      (ts.length ≤ limit → readProgram limit ts = .ok program) ∧
      (us.length ≤ limit → readProgram limit us = .ok program)) ∧
    ∀ limit ts program, EndsOnce ts → readProgram limit ts = .ok program →
      ∃ us, Expands ts us ∧ Longhand us := by
  constructor
  · intro ts us h
    obtain ⟨program, hts, hus⟩ := h.scripts
    refine ⟨program, fun limit => ⟨readProgram_of_script hts limit, readProgram_of_script hus limit,
      readProgram_eq_ok_of_length hts, readProgram_eq_ok_of_length hus⟩⟩
  · intro limit ts program honce hread
    exact (script_of_readProgram honce hread).exists_expands

/-- The tokens of `x -= a or b` and, on the next lines, of `if a { }`, `elif b { x += c }` below an empty
line and `else { }`, and the same with all three shorthands written out. -/
theorem readProgram_expands_chain :
    let word (x : String) (line : Int) : Token := ⟨.identifier, x, .nothing, line⟩
    let sign (kind : Kind) (line : Int) : Token := ⟨kind, "", .nothing, line⟩
    let ts := [word "x" 1, sign .minusAssign 1, word "a" 1, sign .orWord 1, word "b" 1, sign .newline 1,
      sign .ifWord 2, word "a" 2, sign .leftBrace 2, sign .rightBrace 2, sign .newline 2, sign .newline 3,
      sign .elifWord 4, word "b" 4, sign .leftBrace 4, word "x" 4, sign .plusAssign 4, word "c" 4,
      sign .rightBrace 4, sign .newline 4,
      sign .elseWord 5, sign .leftBrace 5, sign .rightBrace 5, Token.endOfInput 5]
    let us := [word "x" 1, sign .assign 1, word "x" 1, sign .minus 1, sign .leftParen 1, word "a" 1,
      sign .orWord 1, word "b" 1, sign .rightParen 1, sign .newline 1,
      sign .ifWord 2, word "a" 2, sign .leftBrace 2, sign .rightBrace 2, sign .newline 2, sign .newline 3,
      sign .elseWord 4, sign .leftBrace 4, sign .ifWord 4, word "b" 4, sign .leftBrace 4, word "x" 4,
      sign .assign 4, word "x" 4, sign .plus 4, sign .leftParen 4, word "c" 4, sign .rightParen 4,
      sign .rightBrace 4, sign .newline 4,
      sign .elseWord 5, sign .leftBrace 5, sign .rightBrace 5, sign .rightBrace 5, Token.endOfInput 5]
    Expands ts us ∧ Longhand us ∧ ∃ program, readProgram nestingLimit ts = .ok program ∧
      readProgram nestingLimit us = .ok program := by
  intro word sign ts us
  have hnil : Lines [] := by simp [Lines]
  have hline (line : Int) : Lines [sign .newline line] := by simp [Lines, sign]
  have hlines : Lines [sign .newline 2, sign .newline 3] := by simp [Lines, sign]
  have hname (x : String) (line : Int) : Derives .prim [word x line] (.name x) := .name rfl
  have hphrase (x : String) (line : Int) : Derives .or [word x line] (.name x) :=
    (hname x line).loosen (by decide)
  have hor : Derives .or [word "a" 1, sign .orWord 1, word "b" 1] (.apply .or [.name "a", .name "b"]) :=
    @Derives.join .or .and [word "a" 1] [word "b" 1] (sign .orWord 1) .or (.name "a") (.name "b") rfl
      (hphrase "a" 1) rfl ((hname "b" 1).loosen (by decide))
  have hempty (line : Int) : ExpandsBlock [sign .leftBrace line, sign .rightBrace line]
      [sign .leftBrace line, sign .rightBrace line] :=
    @ExpandsBlock.braces (sign .leftBrace line) (sign .rightBrace line) [] [] rfl (.none hnil) rfl
  have hsubtract := @ExpandsStmt.assigning (word "x" 1) (sign .minusAssign 1) (sign .assign 1) (word "x" 1)
    (sign .minus 1) (sign .leftParen 1) (sign .rightParen 1) _ _ .minus rfl rfl hor rfl rfl rfl rfl rfl rfl
  have hadd := @ExpandsStmt.assigning (word "x" 4) (sign .plusAssign 4) (sign .assign 4) (word "x" 4)
    (sign .plus 4) (sign .leftParen 4) (sign .rightParen 4) _ _ .plus rfl rfl (hphrase "c" 4) rfl rfl rfl
    rfl rfl rfl
  have hblock := @ExpandsBlock.braces (sign .leftBrace 4) (sign .rightBrace 4) _ _ rfl
    (.some hnil (.last hadd) hnil) rfl
  -- the rest of the chain, and the chain from the first condition on
  have hrest := @ExpandsBranch.otherwise _ _ _ _ _ _ (sign .elseWord 5) _ (hphrase "b" 4) hblock (hline 4)
    rfl (hempty 5)
  have hchain := @ExpandsBranch.nested _ _ _ _ _ _ (sign .elifWord 4) (sign .elseWord 4)
    (sign .leftBrace 4) (sign .ifWord 4) (sign .rightBrace 5) _ (hphrase "a" 2) (hempty 2) hlines rfl hrest
    rfl rfl rfl rfl rfl
  have hbody := ExpandsBody.some hnil (.more hsubtract (hline 1) (by simp)
    (.last (@ExpandsStmt.branch (sign .ifWord 2) _ _ rfl hchain))) hnil
  have hexpands : Expands ts us :=
    ⟨ts.dropLast, us.dropLast, [Token.endOfInput 5], rfl, rfl, hbody, .inr ⟨_, rfl, rfl⟩⟩
  have hlonghand : Longhand us := by simp [us, word, sign, Token.endOfInput, Kind.isShorthand]
  obtain ⟨program, hread⟩ := readProgram_expands.1 ts us hexpands
  obtain ⟨-, -, hts, hus⟩ := hread nestingLimit
  exact ⟨hexpands, hlonghand, program, hts (by decide), hus (by decide)⟩

end Grammar

end Parlance
