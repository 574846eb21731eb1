import Parlance.Proofs.Run.Invariant

/-!
# Assignments and variants

A program without a `let` of a name can only assign to it. So wherever the run is, the scopes that were
there at the start bind the name if they did then, to a value of the same variant, and no other scope
binds it (`Moment.passes_variants`).
-/

namespace Parlance

namespace Moment

variable {σ : Setting} {program : List Stmt} {st st' : State} {x : String}

/-- Without a `let` of a name, no declaration changes its variant in a scope. -/
theorem kept_variants {parts : List Stmt} (hlet : ∀ e line, Stmt.declare x e true line ∉ parts)
    (column : List (Option Variant)) : Kept σ parts (Scopes.Column (·.variant? x) column) := by
  refine Kept.column (fun {name e fresh line v s t} hmem hdeclare => ?_) column
  by_cases hx : x = name
  · subst x
    cases fresh with
    | false => exact Scopes.map_variant_declare name hdeclare
    | true => exact absurd hmem (hlet e line)
  · have hget := congrArg (List.map (Option.map Value.variant)) (Scopes.map_get?_declare hx hdeclare)
    rwa [List.map_map, List.map_map] at hget

/-- **Assignments keep the variant of a name over whole runs.** Take a program in which no `let`, however
deep in its blocks, has the name `x`, and any state that its run comes by: where a statement, a block or a
round is taken up, and where it ends, with or without a failure. The scopes that were there at the start
bind `x` if they did then, to a value of the same variant; and no scope that the run has pushed binds it.
Where the run ends there are no others. -/
theorem passes_variants (hlet : ∀ e line, Stmt.declare x e true line ∉ Stmt.allParts program) :
    (∀ st', (start program st).Passes σ st' → ∃ pushed kept, st'.scopes.frames = pushed ++ kept ∧
      kept.map (·.variant? x) = st.scopes.frames.map (·.variant? x) ∧
      ∀ scope ∈ pushed, scope.binds x = false) ∧
    ∀ fuel r, runProgram σ fuel program st = some r →
      r.state.scopes.frames.map (·.variant? x) = st.scopes.frames.map (·.variant? x) := by
  have hkept : Kept σ (start program st).task.parts
      (Scopes.Column (·.variant? x) (st.scopes.frames.map (·.variant? x))) := kept_variants hlet _
  have hstart : st.scopes.Column (·.variant? x) (st.scopes.frames.map (·.variant? x)) := .refl ..
  constructor
  · intro st' hpasses
    obtain ⟨n, hcolumn⟩ := hkept.passes hstart hpasses
    obtain ⟨pushed, kept, hframes, hpushed, hscopes⟩ := List.map_eq_append_iff.1 hcolumn
    refine ⟨pushed, kept, hframes, hscopes, fun scope hmem => ?_⟩
    have hnone : scope.variant? x = none := by
      have hvariant := List.mem_map_of_mem (f := (·.variant? x)) hmem
      rw [hpushed] at hvariant
      exact List.eq_of_mem_replicate hvariant
    rw [Scope.binds, Option.map_eq_none_iff.1 hnone]
    rfl
  · intro fuel r hrun
    refine (hkept.run (m := start program st) (fun s hs => hs) hstart hrun).map_frames ?_
    rw [List.length_map]
    exact (runProgram_extends hrun).depth_eq

/-- Of two assignments in a block the second is refused. Both are to a name of the outermost scope; where
the block fails it has the value of the first, and the scope of the block does not bind it. -/
theorem passes_variants_refused_assignment :
    let σ : Setting := ⟨[], 10, 0⟩
    let st : State := ⟨⟨[("a", .boolean true)], [[("x", .boolean true)]]⟩, #[], #[]⟩
    let body : List Stmt := [.declare "y" (.name "x") true 2,
      .declare "x" (.literal (.boolean false)) false 3, .declare "x" (.literal .nothing) false 4]
    let program : List Stmt := [.branch (.name "a") body [] 1]
    let failed : State :=
      ⟨⟨[("y", .boolean true)], [[("a", .boolean true)], [("x", .boolean false)]]⟩, #[], #[]⟩
    ((start program st).Passes σ failed ∧ ∃ pushed kept, failed.scopes.frames = pushed ++ kept ∧
      kept.map (·.variant? "x") = st.scopes.frames.map (·.variant? "x") ∧
      ∀ scope ∈ pushed, scope.binds "x" = false) ∧
    ∃ r, runProgram σ 12 program st = some r ∧ (∃ f, r.outcome = .error f) ∧
      r.state.scopes.frames.map (·.variant? "x") = st.scopes.frames.map (·.variant? "x") := by
  intro σ st body program failed
  have hlet : ∀ e line, Stmt.declare "x" e true line ∉ Stmt.allParts program := by
    simp [program, body, Stmt.allParts, Stmt.parts]
  have hpasses : (start program st).Passes σ failed := by
    have hfails : executeAll σ 9 body .nothing (st.enter σ) =
        some ⟨.error (.error ⟨.assignedType "x" .nothing (.boolean false), some 4⟩), failed⟩ := rfl
    refine ⟨⟨.list body .nothing, st.enter σ⟩, ?_, .inr ⟨_, ⟨9, hfails⟩, rfl⟩⟩
    exact .head ⟨0, .first⟩ (.head ⟨0, .yes rfl⟩ (.single ⟨0, .inside⟩))
  have hrun : runProgram σ 12 program st = some ⟨.error (.error ⟨.assignedType "x" .nothing
      (.boolean false), some 4⟩), ⟨⟨[("a", .boolean true)], [[("x", .boolean false)]]⟩, #[], #[]⟩⟩ := rfl
  have hvariants := @passes_variants σ program st "x" hlet
  exact ⟨⟨hpasses, hvariants.1 failed hpasses⟩, _, hrun, ⟨_, rfl⟩, hvariants.2 12 _ hrun⟩

end Moment

end Parlance
