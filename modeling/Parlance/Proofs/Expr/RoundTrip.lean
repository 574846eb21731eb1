import Parlance.Proofs.Expr.WellFormed

/-!
# The canonical text reads back

The canonical text of a well-formed tree is scanned as tokens that are a closed phrase with that
tree, whatever stands behind it there: a blank, a closing bracket, a comma, an index or a field. So
reading the text gives the tree again (`parseExpression_text`).
-/

namespace Parlance

open Token Grammar

/-! ## What stands behind a part of a canonical text -/

/-- The characters and the field names that may follow. -/
def Apart (rest : List Char) : Prop :=
  rest = [] ∨ (∃ c cs, rest = c :: cs ∧ c ∈ [' ', ')', ']', ',', '[']) ∨
    ∃ c cs, rest = '.' :: c :: cs ∧ isNameStart c = true

theorem apart_cons {c : Char} {cs : List Char} (h : c ∈ [' ', ')', ']', ',', '[']) :
    Apart (c :: cs) :=
  .inr (.inl ⟨c, cs, rfl, h⟩)

theorem Apart.endsWord {rest : List Char} (h : Apart rest) : EndsWord rest := by
  rintro c cs rfl
  rcases h with h | ⟨d, ds, h, hd⟩ | ⟨d, ds, h, -⟩
  · nomatch h
  · cases h
    simp only [List.mem_cons, List.not_mem_nil, or_false] at hd
    rcases hd with rfl | rfl | rfl | rfl | rfl <;> rfl
  · cases h
    rfl

theorem Apart.endsNumber {rest : List Char} (h : Apart rest) : EndsNumber rest := by
  rcases h with rfl | ⟨c, cs, rfl, hc⟩ | ⟨c, cs, rfl, hc⟩
  · exact ⟨rfl, rfl, rfl⟩
  · simp only [List.mem_cons, List.not_mem_nil, or_false] at hc
    rcases hc with rfl | rfl | rfl | rfl | rfl <;> exact ⟨rfl, rfl, rfl⟩
  · have hcount : digitCount (c :: cs) = 0 := by
      rw [digitCount, List.takeWhile_cons_of_neg (by simp [isDigit_of_isNameStart hc])]
      rfl
    exact ⟨rfl, by rw [fractionCount, hcount]; rfl, rfl⟩

/-! ## Operators -/

/-- The symbol of an operator between operands is one lexeme before a blank. -/
theorem munch?_symbol {op : Op} (hop : op.joins = true) : ∃ kind c ds, op.symbol.toList = c :: ds ∧
    (∀ cs, munch? c (ds ++ ' ' :: cs) = some (kind, ds.length)) ∧
    (tierOf op).sign? kind = some op ∧ literalOf? kind (c :: ds) = some .nothing := by
  cases op
  case not => nomatch hop
  case index => nomatch hop
  case field => nomatch hop
  all_goals exact ⟨_, _, _, rfl, fun _ => rfl, rfl, rfl⟩

theorem scans_symbol {op : Op} (hop : op.joins = true) (line : Int) :
    ∃ t next, (tierOf op).sign? t.kind = some op ∧
      Scans line op.symbol.toList [t] next fun rest => ∃ cs, rest = ' ' :: cs := by
  obtain ⟨kind, c, ds, hsymbol, hmunch, hsign, hliteral⟩ := munch?_symbol hop
  rw [hsymbol]
  refine ⟨_, _, hsign, scans_lexeme ?_ hliteral line⟩
  rintro _ ⟨cs, rfl⟩
  exact hmunch cs

theorem exists_next?_tierOf {op : Op} (hop : op.joins = true) :
    ∃ tight, (tierOf op).next? = some tight := by
  cases op
  case not => nomatch hop
  all_goals exact ⟨_, rfl⟩

/-! ## Trees -/

/-- The text of a tree is scanned as a closed phrase with the tree. -/
def Prints (e : Expr) : Prop :=
  ∀ line, ∃ ts next, Derives .prim ts e ∧ Scans line e.text.toList ts next Apart

theorem prints_boolean (b : Bool) : Prints (.literal (.boolean b)) := by
  intro line
  cases b
  · have hword : IsWord "false".toList := ⟨'f', _, rfl, rfl, List.all_eq_true.1 rfl⟩
    obtain ⟨next, hscans⟩ := scans_word hword line
    exact ⟨_, next, .falseWord rfl, hscans.mono fun rest => Apart.endsWord⟩
  · have hword : IsWord "true".toList := ⟨'t', _, rfl, rfl, List.all_eq_true.1 rfl⟩
    obtain ⟨next, hscans⟩ := scans_word hword line
    exact ⟨_, next, .trueWord rfl, hscans.mono fun rest => Apart.endsWord⟩

theorem prints_string {s : String} (h : '"' ∉ s.toList) : Prints (.literal (.string s)) := by
  intro line
  obtain ⟨t, next, hkind, hliteral, hscans⟩ := scans_string h line
  rw [String.ofList_toList] at hliteral
  have htext : (Expr.literal (.string s)).text.toList = '"' :: (s.toList ++ ['"']) := by
    simp [Expr.text, Expr.literalText]
  rw [htext, ← hliteral]
  exact ⟨_, next, .string hkind, hscans.mono fun rest _ => trivial⟩

theorem prints_number {x : Number} (h : x.IsPositive) : Prints (.literal (.number x)) := by
  intro line
  obtain ⟨m, s, hshape⟩ := h
  have htext : (Expr.literal (.number x)).text.toList = (Number.text x).toList := by
    simp [Expr.text, Expr.literalText]
  rw [htext]
  exact ⟨_, line, .number rfl, (scans_number hshape line).mono fun rest => Apart.endsNumber⟩

/-- The token of a name. -/
theorem scans_name {x : String} (h : IsName x) (line : Int) :
    ∃ t next, t.kind = .identifier ∧ t.lexeme = x ∧ Scans line x.toList [t] next EndsWord := by
  obtain ⟨next, hscans⟩ := scans_word h.word line
  rw [String.ofList_toList] at hscans
  exact ⟨_, next, h.kind, rfl, hscans⟩

theorem prints_name {x : String} (h : IsName x) : Prints (.name x) := by
  intro line
  obtain ⟨t, next, hkind, hlexeme, hscans⟩ := scans_name h line
  rw [show (Expr.name x).text = x by rw [Expr.text], ← hlexeme]
  rw [← hlexeme] at hscans
  exact ⟨_, next, .name hkind, hscans.mono fun rest => Apart.endsWord⟩

/-- Texts with commas between them. -/
theorem scans_items {es : List Expr} (hne : es ≠ []) (h : ∀ e ∈ es, Prints e) (line : Int) :
    ∃ ts next, DerivesItems ts es ∧
      Scans line (", ".intercalate (Expr.texts es)).toList ts next Apart := by
  induction es generalizing line with
  | nil => exact absurd rfl hne
  | cons e es ih =>
    obtain ⟨ts, next, hd, hscans⟩ := h e (by simp) line
    have hor : Derives .or ts e := hd.loosen (by decide)
    match es, ih, h with
    | [], _, _ =>
      refine ⟨ts, next, .last hor, ?_⟩
      rw [Expr.texts, Expr.texts, String.intercalate_singleton]
      exact hscans
    | e' :: es, ih, h =>
      obtain ⟨t, mid, hkind, hcomma⟩ := scans_sign (show sign? ',' = some .comma from rfl) next
      obtain ⟨us, last, hitems, hmore⟩ := ih (by simp) (fun a ha => h a (by simp [ha])) mid
      refine ⟨ts ++ ([t] ++ ([] ++ us)), last, .more hor hkind hitems, ?_⟩
      have htext : (", ".intercalate (Expr.texts (e :: e' :: es))).toList =
          e.text.toList ++ ([','] ++ ([' '] ++ (", ".intercalate (Expr.texts (e' :: es))).toList)) := by
        simp only [Expr.texts, String.intercalate_cons_cons, String.toList_append]
        simp
      rw [htext]
      refine hscans.append (hcomma.append ((scans_space mid).append hmore ?_) ?_) ?_
      · exact fun _ _ => trivial
      · exact fun _ _ => trivial
      · exact fun _ _ => apart_cons (by simp)

/-- Arguments between two signs, of which the second comes after a text of any sort. -/
theorem scans_args {es : List Expr} (h : ∀ e ∈ es, Prints e) (line : Int) :
    ∃ ts next, DerivesArgs ts es ∧
      Scans line (", ".intercalate (Expr.texts es)).toList ts next Apart := by
  by_cases hne : es = []
  · subst hne
    refine ⟨[], line, .none, fun rest _ => ?_⟩
    rw [Expr.texts, String.intercalate_nil]
    show scanFrom line rest = _
    cases scanFrom line rest <;> rfl
  · obtain ⟨ts, next, hitems, hscans⟩ := scans_items hne h line
    exact ⟨ts, next, .some hitems, hscans⟩

theorem prints_array {es : List Expr} (h : ∀ e ∈ es, Prints e) : Prints (.array es) := by
  intro line
  obtain ⟨t, mid, ht, hopen⟩ := scans_sign (show sign? '[' = some .leftBracket from rfl) line
  obtain ⟨ts, next, hargs, hscans⟩ := scans_args h mid
  obtain ⟨closer, last, hc, hclose⟩ := scans_sign (show sign? ']' = some .rightBracket from rfl) next
  have htext : (Expr.array es).text.toList =
      ['['] ++ ((", ".intercalate (Expr.texts es)).toList ++ [']']) := by
    simp [Expr.text, Value.bracketed]
  rw [htext]
  refine ⟨[t] ++ (ts ++ [closer]), last, .array ht hargs hc, ?_⟩
  refine Scans.mono (hopen.append (hscans.append hclose ?_) ?_) fun _ _ => trivial
  · exact fun _ _ => apart_cons (by simp)
  · exact fun _ _ => trivial

theorem prints_call {f : String} {es : List Expr} (hf : IsName f) (h : ∀ e ∈ es, Prints e) :
    Prints (.call f es) := by
  intro line
  obtain ⟨x, first, hx, hlexeme, hname⟩ := scans_name hf line
  obtain ⟨t, mid, ht, hopen⟩ := scans_sign (show sign? '(' = some .leftParen from rfl) first
  obtain ⟨ts, next, hargs, hscans⟩ := scans_args h mid
  obtain ⟨closer, last, hc, hclose⟩ := scans_sign (show sign? ')' = some .rightParen from rfl) next
  have htext : (Expr.call f es).text.toList =
      f.toList ++ (['('] ++ ((", ".intercalate (Expr.texts es)).toList ++ [')'])) := by
    simp [Expr.text]
  rw [htext]
  refine ⟨[x] ++ ([t] ++ (ts ++ [closer])), last, hlexeme ▸ .call hx ht hargs hc, ?_⟩
  refine Scans.mono (hname.append (hopen.append (hscans.append hclose ?_) ?_) ?_) fun _ _ => trivial
  · exact fun _ _ => apart_cons (by simp)
  · exact fun _ _ => trivial
  · rintro _ _ c cs ⟨⟩
    rfl

/-- Operators print between brackets. -/
theorem prints_of_inner {e : Expr} {inner : List Char} (tier : Tier)
    (htext : e.text.toList = ['('] ++ (inner ++ [')']))
    (h : ∀ line, ∃ ts next, Derives tier ts e ∧ Scans line inner ts next Apart) : Prints e := by
  intro line
  obtain ⟨t, first, ht, hopen⟩ := scans_sign (show sign? '(' = some .leftParen from rfl) line
  obtain ⟨ts, next, hd, hscans⟩ := h first
  obtain ⟨closer, last, hc, hclose⟩ := scans_sign (show sign? ')' = some .rightParen from rfl) next
  rw [htext]
  refine ⟨[t] ++ (ts ++ [closer]), last, ?_, ?_⟩
  · exact .paren ht (hd.loosen (by cases tier <;> decide)) hc
  · refine Scans.mono (hopen.append (hscans.append hclose ?_) ?_) fun _ _ => trivial
    · exact fun _ _ => apart_cons (by simp)
    · exact fun _ _ => trivial

/-- A text without an equals sign in front. -/
def StartsApart (cs : List Char) : Prop := ∃ c ds, cs = c :: ds ∧ c ≠ '='

theorem withEquals_of_startsApart {long short : Kind} {cs : List Char} (h : StartsApart cs) :
    withEquals long short cs = (short, 0) := by
  obtain ⟨c, ds, rfl, hc⟩ := h
  unfold withEquals
  split
  · rename_i heq
    cases heq
    exact absurd rfl hc
  · rfl

theorem scans_leading {op : Op} (hop : op = .minus ∨ op = .not) (line : Int) :
    ∃ t next, Scans line op.symbol.toList [t] next StartsApart ∧ Op.leading? t.kind = some op := by
  have hshort {c : Char} {long short : Kind} (h : doubleSign? c = some (long, short)) :
      ∀ rest, StartsApart rest → munch? c ([] ++ rest) = some (short, 0) := by
    intro rest hrest
    rw [List.nil_append, munch?_doubleSign h, withEquals_of_startsApart hrest]
  rcases hop with rfl | rfl
  · exact ⟨_, _, scans_lexeme (hshort (show doubleSign? '-' = some (.minusAssign, .minus) from rfl))
      rfl line, rfl⟩
  · exact ⟨_, _, scans_lexeme (hshort (show doubleSign? '!' = some (.bangEqual, .bang) from rfl))
      rfl line, rfl⟩

theorem prints_leading {op : Op} {e : Expr} (hop : op = .minus ∨ op = .not) (h : Prints e)
    (hstart : StartsApart e.text.toList) : Prints (.apply op [e]) := by
  have htext : (Expr.apply op [e]).text.toList =
      ['('] ++ ((op.symbol.toList ++ e.text.toList) ++ [')']) := by
    simp [Expr.text, Expr.texts, Expr.applyText]
  refine prints_of_inner .unary htext fun line => ?_
  obtain ⟨t, next, hsign, ht⟩ := scans_leading hop line
  obtain ⟨ts, last, hd, hscans⟩ := h next
  refine ⟨[t] ++ ts, last, Derives.leading ht (hd.loosen (by decide)), hsign.append hscans ?_⟩
  obtain ⟨c, ds, hcs, hc⟩ := hstart
  intro rest _
  exact ⟨c, ds ++ rest, by rw [hcs]; rfl, hc⟩

theorem applyText_of_joins {op : Op} (hop : op.joins = true) (l r : String) :
    Expr.applyText op [l, r] = "(" ++ l ++ " " ++ op.symbol ++ " " ++ r ++ ")" := by
  cases op
  case index => nomatch hop
  case field => nomatch hop
  all_goals rfl

theorem prints_between {op : Op} {a b : Expr} (hop : op.joins = true) (ha : Prints a)
    (hb : Prints b) : Prints (.apply op [a, b]) := by
  have htext : (Expr.apply op [a, b]).text.toList = ['('] ++ ((a.text.toList ++ ([' '] ++
      (op.symbol.toList ++ ([' '] ++ b.text.toList)))) ++ [')']) := by
    simp [Expr.text, Expr.texts, applyText_of_joins hop]
  refine prints_of_inner (tierOf op) htext fun line => ?_
  obtain ⟨tight, hnext⟩ := exists_next?_tierOf hop
  obtain ⟨ls, first, hl, hleft⟩ := ha line
  obtain ⟨sign, second, hsign, hsymbol⟩ := scans_symbol hop first
  obtain ⟨rs, last, hr, hright⟩ := hb second
  refine ⟨ls ++ ([] ++ ([sign] ++ ([] ++ rs))), last, ?_, ?_⟩
  · exact .join hnext (hl.loosen (by cases tierOf op <;> decide)) hsign
      (hr.loosen (by cases tight <;> decide))
  · refine hleft.append ((scans_space first).append (hsymbol.append
      ((scans_space second).append hright ?_) ?_) ?_) ?_
    · exact fun _ _ => trivial
    · exact fun _ _ => ⟨_, rfl⟩
    · exact fun _ _ => trivial
    · exact fun _ _ => apart_cons (by simp)

theorem prints_index {a b : Expr} (ha : Prints a) (hb : Prints b) :
    Prints (.apply .index [a, b]) := by
  have htext : (Expr.apply .index [a, b]).text.toList =
      ['('] ++ ((a.text.toList ++ (['['] ++ (b.text.toList ++ [']']))) ++ [')']) := by
    simp [Expr.text, Expr.texts, Expr.applyText]
  refine prints_of_inner .post htext fun line => ?_
  obtain ⟨ls, first, hl, hleft⟩ := ha line
  obtain ⟨t, second, ht, hopen⟩ := scans_sign (show sign? '[' = some .leftBracket from rfl) first
  obtain ⟨rs, third, hr, hright⟩ := hb second
  obtain ⟨closer, last, hc, hclose⟩ := scans_sign (show sign? ']' = some .rightBracket from rfl) third
  refine ⟨ls ++ ([t] ++ (rs ++ [closer])), last, ?_, ?_⟩
  · have hd := Derives.index (hl.loosen (by decide)) ht (hr.loosen (by decide)) hc
    simpa using hd
  · refine Scans.mono (hleft.append (hopen.append (hright.append hclose ?_) ?_) ?_)
      fun _ _ => trivial
    · exact fun _ _ => apart_cons (by simp)
    · exact fun _ _ => trivial
    · exact fun _ _ => apart_cons (by simp)

theorem prints_field {a : Expr} {x : String} (ha : Prints a) (hx : IsName x) :
    Prints (.apply .field [a, .name x]) := by
  have htext : (Expr.apply .field [a, .name x]).text.toList =
      ['('] ++ ((a.text.toList ++ (['.'] ++ x.toList)) ++ [')']) := by
    simp [Expr.text, Expr.texts, Expr.applyText]
  refine prints_of_inner .post htext fun line => ?_
  obtain ⟨ls, first, hl, hleft⟩ := ha line
  obtain ⟨t, second, ht, hdot⟩ := scans_sign (show sign? '.' = some .dot from rfl) first
  obtain ⟨name, last, hname, hlexeme, hscans⟩ := scans_name hx second
  refine ⟨ls ++ ([t] ++ [name]), last, hlexeme ▸ .field (hl.loosen (by decide)) ht hname, ?_⟩
  refine Scans.mono (hleft.append (hdot.append hscans ?_) ?_) fun rest => Apart.endsWord
  · exact fun _ _ => trivial
  · obtain ⟨c, cs, hcs, hc, -⟩ := hx.word
    intro rest _
    exact .inr (.inr ⟨c, cs ++ rest, by rw [hcs]; rfl, hc⟩)

theorem Expr.WellFormed.startsApart {e : Expr} (h : e.WellFormed) : StartsApart e.text.toList := by
  have hname {x : String} (hx : IsName x) : StartsApart x.toList := by
    obtain ⟨c, cs, hcs, hc, -⟩ := hx.word
    refine ⟨c, cs, hcs, ?_⟩
    rintro rfl
    exact absurd hc (by decide)
  have hbracket {cs : List Char} : StartsApart ('(' :: cs) := ⟨'(', cs, rfl, by decide⟩
  cases h with
  | boolean b => cases b <;> exact ⟨_, _, rfl, by decide⟩
  | @string s _ => exact ⟨'"', s.toList ++ ['"'], by simp [Expr.text, Expr.literalText], by decide⟩
  | @number x hx =>
    obtain ⟨m, s, hshape⟩ := hx
    obtain ⟨p, htext, -⟩ := Number.exists_spelling hshape
    obtain ⟨c, cs, hcs, hc⟩ := p.head_text
    refine ⟨c, cs, ?_, ?_⟩
    · rw [Expr.text, Expr.literalText, htext, Number.signed, String.toList_ofList]
      exact hcs
    · rintro rfl
      exact absurd hc (by decide)
  | name hx =>
    rw [Expr.text]
    exact hname hx
  | @array es _ => exact ⟨'[', _, by simp [Expr.text, Value.bracketed]; rfl, by decide⟩
  | @call f es hf _ =>
    obtain ⟨c, cs, hcs, hc⟩ := hname hf
    exact ⟨c, _, by simp [Expr.text, hcs]; rfl, hc⟩
  | leading => simp [Expr.text, Expr.texts, Expr.applyText, hbracket]
  | between hop => simp [Expr.text, Expr.texts, applyText_of_joins hop, hbracket]
  | index => simp [Expr.text, Expr.texts, Expr.applyText, hbracket]
  | field => simp [Expr.text, Expr.texts, Expr.applyText, hbracket]

/-- **Every well-formed tree prints a phrase.** -/
theorem Expr.WellFormed.prints {e : Expr} (h : e.WellFormed) : Prints e := by
  induction h with
  | boolean b => exact prints_boolean b
  | string h => exact prints_string h
  | number h => exact prints_number h
  | name h => exact prints_name h
  | array _ ih => exact prints_array ih
  | call hf _ ih => exact prints_call hf ih
  | leading hop h ih => exact prints_leading hop ih h.startsApart
  | between hop _ _ iha ihb => exact prints_between hop iha ihb
  | index _ _ iha ihb => exact prints_index iha ihb
  | field _ hx iha => exact prints_field iha hx

theorem scan_text {e : Expr} (h : e.WellFormed) :
    ∃ ts, scan e.text = .ok ts ∧ Phrase ts e ∧ ts.length ≤ e.text.length + 1 := by
  obtain ⟨ts, next, hd, hscans⟩ := h.prints 1
  have hscan : scan e.text = .ok (ts ++ [endOfInput next]) := by
    have hall := hscans [] (.inl rfl)
    rw [List.append_nil, scanFrom_nil] at hall
    exact hall
  refine ⟨_, hscan, ⟨ts, [], [endOfInput next], by simp, hd.loosen (by decide), by simp,
    .inr ⟨_, rfl, rfl⟩⟩, ?_⟩
  rw [← String.length_toList]
  exact scanFrom_length hscan

theorem readExpression_scan_text {e : Expr} (h : e.WellFormed) (limit : Nat) :
    Yields (scan e.text >>= readExpression limit) (.ok e) ∧
      (e.text.length < limit → ¬ StopsAtLimit (scan e.text >>= readExpression limit)) := by
  obtain ⟨ts, hscan, hphrase, hlength⟩ := scan_text h
  rw [hscan]
  refine ⟨readExpression_of_phrase hphrase limit, ?_⟩
  rintro hlt ⟨line, hstop⟩
  rcases readExpression_fault hstop with ⟨wanted, found, hc⟩ | ⟨-, hdeep⟩
  · cases hc
  · omega

/-- **The canonical text reads back**: what a text gives is well formed, and the canonical text of a
well-formed tree gives this tree again, unless the limit for nesting is reached, which takes a text
at least as long as the limit. -/
theorem parseExpression_text_of_wellFormed :
    (∀ source e, parseExpression source = .ok e → e.WellFormed) ∧
      ∀ e : Expr, e.WellFormed →
        (¬ StopsAtLimit (parseExpression e.text) → parseExpression e.text = .ok e) ∧
        ∀ limit, e.text.length < limit → (scan e.text >>= readExpression limit) = .ok e := by
  refine ⟨fun source e => wellFormed_of_parseExpression, fun e h => ⟨fun hlimit => ?_, ?_⟩⟩
  · exact (readExpression_scan_text h nestingLimit).1.resolve_right hlimit
  · intro limit hlt
    obtain ⟨hyields, hstop⟩ := readExpression_scan_text h limit
    exact hyields.resolve_right (hstop hlt)

/-- A field of a number, a minus before a call and a string over two lines. -/
theorem parseExpression_text_difference :
    let tree : Expr := .apply .minus
      [.apply .field [.literal (.number (.ofBits 0x3fb999999999999a)), .name "x"],
        .apply .minus [.call "f" [.literal (.string "a\nb"), .array []]]]
    tree.text = "((0.1.x) - (-f(\"a\nb\", [])))" ∧ tree.WellFormed ∧
      parseExpression tree.text = .ok tree := by
  intro tree
  have htext : tree.text = "((0.1.x) - (-f(\"a\nb\", [])))" := by decide +kernel
  have hname {x : String} {c : Char} (hx : x.toList = [c]) (hc : isNameStart c = true)
      (hk : Kind.ofWord x = .identifier) : IsName x :=
    ⟨⟨c, [], hx, hc, by simp⟩, hk⟩
  have hwell : tree.WellFormed := by
    refine .between rfl (.field (.number ⟨0x1999999999999a, 1018, by decide +kernel⟩)
      (hname rfl rfl rfl)) (.leading (.inl rfl) (.call (hname rfl rfl rfl) ?_))
    intro e he
    simp only [List.mem_cons, List.not_mem_nil, or_false] at he
    rcases he with rfl | rfl
    · exact .string (by decide)
    · exact .array (by simp)
  refine ⟨htext, hwell, ?_⟩
  refine (parseExpression_text_of_wellFormed.2 tree hwell).2 nestingLimit ?_
  rw [htext]
  decide

end Parlance
