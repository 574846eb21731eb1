import Parlance.Proofs.Grammar.Complete
import Parlance.Proofs.Reader.Statement

/-!
# The grammar of statements

A program is any number of statements with line ends between them, and line ends around them as they
come; a block is the same between braces. `DerivesBody ts ss` says that the tokens `ts` are the
statements `ss` in this way, and `Script ts ss` that a whole list is, with at most one token for the
end of the input behind it.

A statement is on the line of its first token. An assignment that computes with the old value is one
whose value is written out, and an `elif` is a conditional of its own in the other block, on the line
of the word `elif`.
-/

namespace Parlance.Grammar

/-- Line ends, any number of them. -/
def Lines (ts : List Token) : Prop := ∀ t ∈ ts, t.kind = .newline

mutual
inductive DerivesStmt : List Token → Stmt → Prop where
  | introduce {t x sign : Token} {ts : List Token} {e : Expr} (ht : t.kind = .letWord)
      (hx : x.kind = .identifier) (hs : sign.kind = .assign) (h : Derives .or ts e) :
      DerivesStmt (t :: x :: sign :: ts) (.declare x.lexeme e true t.line)
  | assign {x sign : Token} {ts : List Token} {e : Expr} (hx : x.kind = .identifier)
      (hs : sign.kind = .assign) (h : Derives .or ts e) :
      DerivesStmt (x :: sign :: ts) (.declare x.lexeme e false x.line)
  | add {x sign : Token} {ts : List Token} {e : Expr} (hx : x.kind = .identifier)
      (hs : sign.kind = .plusAssign) (h : Derives .or ts e) :
      DerivesStmt (x :: sign :: ts)
        (.declare x.lexeme (.apply .plus [.name x.lexeme, e]) false x.line)
  | subtract {x sign : Token} {ts : List Token} {e : Expr} (hx : x.kind = .identifier)
      (hs : sign.kind = .minusAssign) (h : Derives .or ts e) :
      DerivesStmt (x :: sign :: ts)
        (.declare x.lexeme (.apply .minus [.name x.lexeme, e]) false x.line)
  | print {t : Token} {ts : List Token} {e : Expr} (ht : t.kind = .printWord)
      (h : Derives .or ts e) : DerivesStmt (t :: ts) (.print e t.line)
  | loop {t : Token} {cs bs : List Token} {condition : Expr} {body : List Stmt}
      (ht : t.kind = .whileWord) (hc : Derives .or cs condition) (hb : DerivesBlock bs body) :
      DerivesStmt (t :: (cs ++ bs)) (.loop condition body t.line)
  | branch {t : Token} {ts : List Token} {s : Stmt} (ht : t.kind = .ifWord)
      (h : DerivesBranch t.line ts s) : DerivesStmt (t :: ts) s
  | expr {t : Token} {ts : List Token} {e : Expr} (h : Derives .or (t :: ts) e) :
      DerivesStmt (t :: ts) (.expr e t.line)

/-- A conditional on the given line, from its condition on. -/
inductive DerivesBranch : Int → List Token → Stmt → Prop where
  | alone {line : Int} {cs ys : List Token} {condition : Expr} {yes : List Stmt}
      (hc : Derives .or cs condition) (hy : DerivesBlock ys yes) :
      DerivesBranch line (cs ++ ys) (.branch condition yes [] line)
  | elif {line : Int} {cs ys ls ts : List Token} {t : Token} {condition : Expr} {yes : List Stmt}
      {no : Stmt} (hc : Derives .or cs condition) (hy : DerivesBlock ys yes) (hl : Lines ls)
      (ht : t.kind = .elifWord) (h : DerivesBranch t.line ts no) :
      DerivesBranch line (cs ++ (ys ++ (ls ++ t :: ts))) (.branch condition yes [no] line)
  | otherwise {line : Int} {cs ys ls ns : List Token} {t : Token} {condition : Expr}
      {yes no : List Stmt} (hc : Derives .or cs condition) (hy : DerivesBlock ys yes)
      (hl : Lines ls) (ht : t.kind = .elseWord) (hn : DerivesBlock ns no) :
      DerivesBranch line (cs ++ (ys ++ (ls ++ t :: ns))) (.branch condition yes no line)

inductive DerivesBlock : List Token → List Stmt → Prop where
  | braces {opener closer : Token} {ts : List Token} {ss : List Stmt}
      (ho : opener.kind = .leftBrace) (h : DerivesBody ts ss) (hc : closer.kind = .rightBrace) :
      DerivesBlock (opener :: (ts ++ [closer])) ss

/-- Any number of statements, with line ends around them. -/
inductive DerivesBody : List Token → List Stmt → Prop where
  | none {ls : List Token} (hl : Lines ls) : DerivesBody ls []
  | some {ls ts ls' : List Token} {ss : List Stmt} (hl : Lines ls) (h : DerivesSeq ts ss)
      (hl' : Lines ls') : DerivesBody (ls ++ (ts ++ ls')) ss

/-- At least one statement, with at least one line end between two of them. -/
inductive DerivesSeq : List Token → List Stmt → Prop where
  | last {ts : List Token} {s : Stmt} (h : DerivesStmt ts s) : DerivesSeq ts [s]
  | more {ts ls us : List Token} {s : Stmt} {ss : List Stmt} (h : DerivesStmt ts s)
      (hl : Lines ls) (hne : ls ≠ []) (hs : DerivesSeq us ss) :
      DerivesSeq (ts ++ (ls ++ us)) (s :: ss)
end

/-- Statements, and at most one token for the end of the input. -/
def Script (ts : List Token) (ss : List Stmt) : Prop :=
  ∃ text tail, ts = text ++ tail ∧ DerivesBody text ss ∧
    (tail = [] ∨ ∃ t, tail = [t] ∧ t.kind = .endOfInput)

/-! ## How statements start -/

open Reader (endsStatement skipNewlines)
open Reader.Plain (opens announces)

/-- The kinds that a statement starts with. -/
def starts (kind : Kind) : Bool := opens kind || announces kind

theorem not_endsStatement_of_starts {kind : Kind} (h : starts kind = true) :
    endsStatement kind = false := by
  cases kind <;> first | rfl | cases h

theorem ne_of_starts {kind : Kind} (h : starts kind = true) :
    kind ≠ .newline ∧ kind ≠ .endOfInput ∧ kind ≠ .rightBrace ∧ kind ≠ .elifWord ∧
      kind ≠ .elseWord := by
  refine ⟨?_, ?_, ?_, ?_, ?_⟩ <;> rintro rfl <;> cases h

theorem DerivesStmt.starts {ts : List Token} {s : Stmt} (h : DerivesStmt ts s) :
    ∃ t rest, ts = t :: rest ∧ Grammar.starts t.kind = true := by
  cases h with
  | expr h =>
    obtain ⟨t, rest, hts, ht⟩ := h.opens
    obtain ⟨rfl, rfl⟩ := List.cons.inj hts
    exact ⟨_, _, rfl, by rw [Grammar.starts, ht]; rfl⟩
  | introduce ht | print ht | loop ht | branch ht => exact ⟨_, _, rfl, by rw [ht]; rfl⟩
  | assign hx | add hx | subtract hx => exact ⟨_, _, rfl, by rw [hx]; rfl⟩

theorem DerivesSeq.starts {ts : List Token} {ss : List Stmt} (h : DerivesSeq ts ss) :
    ∃ t rest, ts = t :: rest ∧ Grammar.starts t.kind = true := by
  cases h with
  | last h => exact h.starts
  | more h _ _ _ =>
    obtain ⟨t, rest, rfl, ht⟩ := h.starts
    exact ⟨t, _, rfl, ht⟩

theorem DerivesBlock.opens {ts : List Token} {ss : List Stmt} (h : DerivesBlock ts ss) :
    ∃ t rest, ts = t :: rest ∧ t.kind = .leftBrace := by
  cases h with
  | braces ho _ _ => exact ⟨_, _, rfl, ho⟩

/-! ## Line ends -/

theorem lines_takeWhile (ts : List Token) : Lines (ts.takeWhile (·.kind == .newline)) := by
  intro t ht
  exact beq_iff_eq.1 (List.all_eq_true.1 List.all_takeWhile t ht)

/-- The line ends in front, and what is left after them. -/
theorem exists_lines (ts : List Token) : ∃ ls, Lines ls ∧ ts = ls ++ skipNewlines ts :=
  ⟨_, lines_takeWhile ts, List.takeWhile_append_dropWhile.symm⟩

theorem skipNewlines_lines_append {ls : List Token} (hl : Lines ls) (ts : List Token) :
    skipNewlines (ls ++ ts) = skipNewlines ts := by
  unfold skipNewlines
  exact List.dropWhile_append_of_pos fun t ht => by rw [hl t ht]; rfl

end Parlance.Grammar
