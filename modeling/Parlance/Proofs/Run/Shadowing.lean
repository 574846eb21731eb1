import Parlance.Proofs.Run.Invariant

/-!
# No name is shadowed

A declaration looks through the whole stack before it introduces a name. So if no name is bound in two
scopes at the start, none ever is, wherever the run is (`Moment.passes_disjoint`). From which end a name is
looked up does then not matter, and what a block does to a name that is bound around it stays when the
block is left (`Scopes.Disjoint.get?_cut`).
-/

namespace Parlance

namespace Scopes

variable {s t : Scopes} {name : String}

/-- The scope of a block does not bind a name that is bound around it, so the value of the name is not
dropped with it. -/
theorem Disjoint.get?_cut (ht : t.Disjoint) (h : s.push.Extends t) (hname : s.binds name = true) :
    (t.cut s.depth).get? name = t.get? name := by
  have hinner : t.inner.get? name = none := by
    obtain ⟨names, hmem, hin⟩ := binds_iff_names.1 hname
    have houter : names ∈ t.outer.map Scope.names := by
      rw [h.outer]
      exact hmem
    exact Scope.get?_eq_none_iff.2 fun hinner => (List.pairwise_cons.1 ht).1 names houter hinner hin
  unfold get?
  rw [h.frames_cut, show t.frames = t.inner :: t.outer from rfl, List.findSome?_cons, hinner]

end Scopes

theorem kept_disjoint (σ : Setting) (parts : List Stmt) : Kept σ parts Scopes.Disjoint where
  push := .push
  cut _ ht := ht.cut _
  declare _ hs _ hdeclare := hs.declare hdeclare

variable {σ : Setting} {fuel : Nat} {st : State} {r : Run}

/-- A `let` of a name that is bound binds it again where it is bound, also if its value is too deep to be
told. -/
theorem execute_let_scopes {name : String} {e : Expr} {line : Int} {v : Value}
    (hname : st.scopes.binds name = true) (hvalue : evaluate σ st.scopes e = .ok v)
    (h : execute σ fuel (.declare name e true line) st = some r) :
    r.state.scopes = st.scopes.rebind name v := by
  cases fuel with
  | zero => simp [execute] at h
  | succ fuel =>
    obtain ⟨inner, hinner, rfl⟩ := exists_perform h
    obtain ⟨current, hcurrent⟩ : ∃ current, st.scopes.get? name = some current := by
      rwa [← Option.isSome_iff_exists, Scopes.get?_isSome]
    have hdeclare : st.scopes.declare σ.limit name v true = .ok (st.scopes.rebind name v) := by
      unfold Scopes.declare
      rw [hcurrent]
      rfl
    cases hinner
    rw [Run.locate_state]
    unfold State.declare
    rw [State.begin_scopes, hvalue]
    dsimp only
    rw [hdeclare]
    exact State.tellBinding_scopes ..

/-- The value that a name bound around a block has at some point of the block is the value that it has
after the block, unless a declaration of the name comes behind that point. -/
theorem executeBlock_get? {bound : Nat} {name : String} {before after : List Stmt} {w : Value}
    {mid : State} (hst : st.scopes.Disjoint) (hname : st.scopes.binds name = true)
    (hbefore : executeAll σ bound before .nothing (st.enter σ) = some ⟨.ok w, mid⟩)
    (hafter : ∀ e fresh line, Stmt.declare name e fresh line ∉ Stmt.allParts after)
    (h : executeBlock σ fuel (before ++ after) st = some r) :
    r.state.scopes.get? name = mid.scopes.get? name := by
  cases fuel with
  | zero => simp [executeBlock] at h
  | succ fuel =>
    obtain ⟨inner, hinner, rfl⟩ := exists_inside h
    -- the part behind `mid` leaves the column of the name, the end of the block only drops a scope
    have hrest : executeAll σ (bound + fuel - before.length) after w mid = some inner := by
      rw [← (executeAll_append hbefore).2 after fuel]
      exact (Keeps.of_le (Nat.le_add_left fuel bound)).list hinner
    have hkept : Kept σ (Stmt.allParts after)
        (Scopes.Column (·.get? name) (mid.scopes.frames.map (·.get? name))) := by
      refine Kept.column (fun {x e fresh line v s t} hmem hdeclare => ?_) _
      exact Scopes.map_get?_declare (by rintro rfl; exact hafter e fresh line hmem) hdeclare
    have hcolumn : inner.state.scopes.get? name = mid.scopes.get? name := by
      have hrun := hkept.run (m := ⟨.list after w, mid⟩) (fun s hs => hs) (.refl ..) hrest
      refine Scopes.get?_eq_of_map (hrun.map_frames ?_)
      rw [List.length_map]
      exact ((Scoped.all _).list hrest).depth_eq
    have hextends : st.scopes.push.Extends inner.state.scopes := by
      rw [← State.enter_scopes σ st]
      exact (Scoped.all _).list hinner
    have hdisjoint : inner.state.scopes.Disjoint := by
      have henter : (st.enter σ).scopes.Disjoint := by
        rw [State.enter_scopes]
        exact hst.push
      exact (kept_disjoint σ _).run (m := ⟨.list (before ++ after) .nothing, st.enter σ⟩)
        (fun s hs => hs) henter hinner
    rw [Run.leave_scopes, hdisjoint.get?_cut hextends hname, hcolumn]

/-- **No run makes a shadow.** If no name is bound in two scopes at the start, as in a fresh stack, then
none is in any state that the run comes by: where a statement, a block or a round is taken up, and where
it ends, with or without a failure. In such a state

- a name has the same value looked up from the outermost scope as from the nearest;
- a `let` of a name that is bound gives the name its value and introduces no name;
- a block leaves a name that is bound around it with the value that the name had at any point of the
  block behind which nothing declares it, and leaves the names of the scopes as they were. -/
theorem Moment.passes_disjoint {program : List Stmt} {st' : State} (hst : st.scopes.Disjoint)
    (hpasses : (Moment.start program st).Passes σ st') :
    st'.scopes.Disjoint ∧
    (∀ name, st'.scopes.toList.findSome? (·.get? name) = st'.scopes.get? name) ∧
    (∀ fuel name e line v r, st'.scopes.binds name = true → evaluate σ st'.scopes e = .ok v →
      execute σ fuel (.declare name e true line) st' = some r →
      r.state.scopes.get? name = some v ∧ r.state.scopes.names = st'.scopes.names) ∧
    ∀ fuel bound name before after w mid r, st'.scopes.binds name = true →
      executeBlock σ fuel (before ++ after) st' = some r →
      executeAll σ bound before .nothing (st'.enter σ) = some ⟨.ok w, mid⟩ →
      (∀ e fresh line, Stmt.declare name e fresh line ∉ Stmt.allParts after) →
      r.state.scopes.get? name = mid.scopes.get? name ∧ r.state.scopes.names = st'.scopes.names := by
  have hdisjoint := (kept_disjoint σ _).passes hst hpasses
  refine ⟨hdisjoint, hdisjoint.findSome?_toList, ?_, ?_⟩
  · intro fuel name e line v r hname hvalue hrun
    rw [execute_let_scopes hname hvalue hrun]
    exact ⟨Scopes.get?_rebind hname, Scopes.names_rebind ..⟩
  · intro fuel bound name before after w mid r hname hrun hbefore hafter
    exact ⟨executeBlock_get? hdisjoint hname hbefore hafter hrun, (Scoped.all fuel).block hrun⟩

/-- From a fresh stack, a `let` two blocks deep overwrites a name of the outermost scope, with a value of
another variant. Where its block is taken up no name is shadowed, and after the block the name has the new
value. -/
theorem Moment.passes_disjoint_nested_let :
    let σ : Setting := ⟨[], 10, 0⟩
    let inner : List Stmt := [.declare "x" (.literal .nothing) true 5]
    let program : List Stmt := [.declare "x" (.literal (.boolean true)) true 1,
      .branch (.name "x") [.declare "y" (.name "x") true 3, .branch (.name "y") inner [] 4] [] 2]
    let taken : State := ⟨⟨[("y", .boolean true)], [[("x", .boolean true)]]⟩, #[], #[]⟩
    (Moment.start program .start).Passes σ taken ∧ taken.scopes.Disjoint ∧
    ∃ r, executeBlock σ 4 inner taken = some r ∧ r.state.scopes.get? "x" = some .nothing ∧
      r.state.scopes.names = [["y"], ["x"]] := by
  intro σ inner program taken
  have hpasses : (Moment.start program .start).Passes σ taken := by
    refine ⟨⟨.block inner, taken⟩, ?_, .inl rfl⟩
    have hx : execute σ 1 (.declare "x" (.literal (.boolean true)) true 1) .start =
        some ⟨.ok .nothing, ⟨⟨[("x", .boolean true)], []⟩, #[], #[]⟩⟩ := rfl
    have hy : execute σ 1 (.declare "y" (.name "x") true 3) ⟨⟨[], [[("x", .boolean true)]]⟩, #[], #[]⟩ =
        some ⟨.ok .nothing, taken⟩ := rfl
    exact .head ⟨1, .next hx⟩ <| .head ⟨0, .first⟩ <| .head ⟨0, .yes rfl⟩ <| .head ⟨0, .inside⟩ <|
      .head ⟨1, .next hy⟩ <| .head ⟨0, .first⟩ <| .single ⟨0, .yes rfl⟩
  have hstart : State.start.scopes.Disjoint := List.pairwise_singleton ..
  obtain ⟨hdisjoint, -, -, hblock⟩ := passes_disjoint hstart hpasses
  have hrun : executeBlock σ 4 inner taken = some ⟨.ok .nothing,
      ⟨⟨[("y", .boolean true)], [[("x", .nothing)]]⟩, #[], #[]⟩⟩ := rfl
  have hlet : executeAll σ 4 inner .nothing (taken.enter σ) = some ⟨.ok .nothing,
      ⟨⟨[], [[("y", .boolean true)], [("x", .nothing)]]⟩, #[], #[]⟩⟩ := rfl
  obtain ⟨hget, hnames⟩ := hblock 4 4 "x" inner [] _ _ _ rfl hrun hlet (by simp [Stmt.allParts])
  exact ⟨hpasses, hdisjoint, _, hrun, hget, hnames⟩

end Parlance
