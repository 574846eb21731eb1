import Parlance.Proofs.Run.Moments
import Parlance.Proofs.Scopes.Values

/-!
# What runs keep of the scopes

Three things are done to the stack of a run: a block pushes a scope, it cuts the stack when it is left,
and a declaration binds its name. What these keep holds in every state that a run comes by
(`Kept.passes`), however deep its blocks are and however its tasks end, and whether the run ends or not.

So what declarations leave as it is in every scope, every scope of the stack at the start has all the time,
and the scopes pushed since have what an empty scope has (`Kept.column`).
-/

namespace Parlance

/-- What blocks and the declarations among `parts` keep of the scopes. -/
structure Kept (σ : Setting) (parts : List Stmt) (I : Scopes → Prop) : Prop where
  push {s : Scopes} : I s → I s.push
  cut {s t : Scopes} : I s → I t → I (t.cut s.depth)
  declare {name : String} {e : Expr} {fresh : Bool} {line : Int} {s t : Scopes} {v : Value} :
    .declare name e fresh line ∈ parts → I s → evaluate σ s e = .ok v →
      s.declare σ.limit name v fresh = .ok t → I t

namespace Kept

variable {σ : Setting} {parts : List Stmt} {I : Scopes → Prop} {fuel : Nat} {m m' : Moment} {r : Run}

theorem finish (h : Kept σ parts I) (hm : I m.state.scopes) (hr : I r.state.scopes) :
    I (m.finish σ r).state.scopes := by
  unfold Moment.finish
  split
  · rwa [Run.locate_state]
  · rw [Run.leave_scopes]
    exact h.cut hm hr
  · exact hr
  · exact hr

theorem itself (h : Kept σ parts I) (hparts : ∀ s ∈ m.task.parts, s ∈ parts) (hm : I m.state.scopes)
    (hr : m.Itself σ r) : I r.state.scopes := by
  rcases hr.scopes with hscopes | ⟨name, e, fresh, line, v, htask, hvalue, hdeclare⟩
  · rwa [hscopes]
  · have hmem : Stmt.declare name e fresh line ∈ m.task.parts := by
      rw [htask]
      exact Stmt.mem_parts_self _
    exact h.declare (hparts _ hmem) hm hvalue hdeclare

/-- One moment and the next, if it holds of what tasks leave within the bound. -/
theorem leads (h : Kept σ parts I)
    (hrun : ∀ {m : Moment} {r : Run}, (∀ s ∈ m.task.parts, s ∈ parts) → I m.state.scopes →
      m.task.run σ fuel m.state = some r → I r.state.scopes)
    (hlead : m.Leads σ fuel m') (hparts : ∀ s ∈ m.task.parts, s ∈ parts) (hm : I m.state.scopes) :
    I m'.state.scopes := by
  cases hlead with
  | yes htest => rwa [State.scopes_of_test htest, State.begin_scopes]
  | no htest => rwa [State.scopes_of_test htest, State.begin_scopes]
  | rounds => rwa [State.begin_scopes]
  | round htest => rwa [State.scopes_of_test htest]
  | @again condition body line st mid next v htest hround =>
    have hmid : I mid.scopes := by rwa [State.scopes_of_test htest]
    have hbody : ∀ s ∈ (Task.block body).parts, s ∈ parts :=
      fun s hs => hparts s (List.mem_cons_of_mem _ hs)
    exact hrun (m := ⟨.block body, mid⟩) hbody hmid hround
  | inside =>
    rw [State.enter_scopes]
    exact h.push hm
  | first => exact hm
  | @next s ss v w st mid hs =>
    have hfirst : ∀ s' ∈ (Task.stmt s).parts, s' ∈ parts :=
      fun s' hs' => hparts s' (List.mem_append_left _ hs')
    exact hrun (m := ⟨.stmt s, st⟩) hfirst hm hs

/-- What a task leaves, however it ends. -/
theorem run (h : Kept σ parts I) (hparts : ∀ s ∈ m.task.parts, s ∈ parts) (hm : I m.state.scopes)
    (hrun : m.task.run σ fuel m.state = some r) : I r.state.scopes := by
  induction fuel generalizing m r with
  | zero => cases (Moment.run_zero m).symm.trans hrun
  | succ fuel ih =>
    -- the tasks before the last one ended within `fuel`, so the hypothesis is for them too
    obtain ⟨inner, rfl, ⟨m', hlead, hinner⟩ | hitself⟩ := Moment.run_cases hrun
    · have hm' := h.leads ih hlead hparts hm
      exact h.finish hm (ih (fun s hs => hparts s (hlead.parts s hs)) hm' hinner)
    · exact h.finish hm (h.itself hparts hm hitself)

theorem comes (h : Kept σ parts I) (hparts : ∀ s ∈ m.task.parts, s ∈ parts) (hm : I m.state.scopes)
    (hcomes : m.Comes σ m') : I m'.state.scopes := by
  induction hcomes with
  | refl => exact hm
  | tail hbefore hlead ih =>
    obtain ⟨fuel, hlead⟩ := hlead
    exact h.leads h.run hlead (fun s hs => hparts s (Moment.Comes.parts hbefore s hs)) ih

/-- **What blocks and declarations keep**, every state keeps that a run comes by. -/
theorem passes {st : State} (h : Kept σ m.task.parts I) (hm : I m.state.scopes)
    (hpasses : m.Passes σ st) : I st.scopes := by
  obtain ⟨m', hcomes, rfl | ⟨r, ⟨fuel, hrun⟩, rfl⟩⟩ := hpasses
  · exact h.comes (fun s hs => hs) hm hcomes
  · exact h.run (Moment.Comes.parts hcomes) (h.comes (fun s hs => hs) hm hcomes) hrun

end Kept

/-! ## Columns -/

/-- The last scopes hold what `column` tells of them; those before hold what an empty one holds. -/
def Scopes.Column {α : Type} (φ : Scope → α) (column : List α) (s : Scopes) : Prop :=
  ∃ pushed, s.frames.map φ = List.replicate pushed (φ []) ++ column

namespace Scopes.Column

variable {α : Type} {φ : Scope → α} {column : List α} {s t : Scopes}

theorem refl (φ : Scope → α) (s : Scopes) : s.Column φ (s.frames.map φ) := ⟨0, rfl⟩

theorem push (h : s.Column φ column) : s.push.Column φ column := by
  obtain ⟨pushed, h⟩ := h
  exact ⟨pushed + 1, congrArg (φ [] :: ·) h⟩

theorem depth_eq {pushed : Nat} (h : s.frames.map φ = List.replicate pushed (φ []) ++ column) :
    s.depth = pushed + column.length := by
  have hlength := congrArg List.length h
  rwa [List.length_map, List.length_append, List.length_replicate] at hlength

theorem cut (hs : s.Column φ column) (ht : t.Column φ column) : (t.cut s.depth).Column φ column := by
  obtain ⟨above, hs⟩ := hs
  obtain ⟨pushed, ht⟩ := ht
  have hle : t.depth - max s.depth 1 ≤ pushed := by
    rw [depth_eq hs, depth_eq ht]
    omega
  refine ⟨pushed - (t.depth - max s.depth 1), ?_⟩
  rw [frames_cut, List.map_drop, ht, List.drop_append_of_le_length (by rwa [List.length_replicate]),
    List.drop_replicate]

/-- In a stack that is not deeper than the column there is nothing else. -/
theorem map_frames (h : s.Column φ column) (hdepth : s.depth = column.length) :
    s.frames.map φ = column := by
  obtain ⟨pushed, h⟩ := h
  obtain rfl : pushed = 0 := by
    have := depth_eq h
    omega
  exact h

end Scopes.Column

/-- What every declaration leaves in every scope stays in the scopes that were there. -/
theorem Kept.column {σ : Setting} {parts : List Stmt} {α : Type} {φ : Scope → α}
    (h : ∀ {name e fresh line v} {s t : Scopes}, .declare name e fresh line ∈ parts →
      s.declare σ.limit name v fresh = .ok t → t.frames.map φ = s.frames.map φ) (column : List α) :
    Kept σ parts (Scopes.Column φ column) where
  push := .push
  cut := .cut
  declare hmem hs _ hdeclare := by
    obtain ⟨pushed, hs⟩ := hs
    exact ⟨pushed, (h hmem hdeclare).trans hs⟩

end Parlance
