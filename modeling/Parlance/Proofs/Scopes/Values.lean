import Mathlib.Data.List.Basic
import Parlance.Proofs.Scopes.Names

/-!
# The values of scopes

A declaration that succeeds binds its name again in the nearest scope that binds it, or introduces it in
the current scope. What the scopes hold of another name is left as it is, scope by scope
(`Scopes.map_get?_declare`). An assignment leaves the variant of its own name in every scope
(`Scopes.map_variant_declare`).

In a stack whose scopes have no name in common it does not matter from which end a name is looked up
(`Scopes.Disjoint.findSome?_toList`).
-/

namespace Parlance

namespace Scope

theorem get?_set (scope : Scope) (name : String) (v : Value) (x : String) :
    (scope.set name v).get? x = if x = name then some v else scope.get? x := by
  induction scope with
  | nil => rw [set, get?_cons]
  | cons entry rest ih =>
    obtain ⟨y, w⟩ := entry
    rw [set]
    split
    · rename_i heq
      obtain rfl : name = y := by simpa using heq
      rw [get?_cons, get?_cons]
      by_cases hx : x = name <;> simp [hx]
    · rename_i hne
      have hne : name ≠ y := by simpa using hne
      rw [get?_cons, get?_cons, ih]
      by_cases hx : x = y
      · rw [if_pos hx, if_pos hx, if_neg (by rintro rfl; exact hne hx)]
      · rw [if_neg hx, if_neg hx]

theorem get?_eq_none_iff {scope : Scope} {name : String} :
    scope.get? name = none ↔ name ∉ scope.names := by
  rw [← binds_iff_mem_names, binds]
  simp

/-- The variant of what a name is bound to. -/
def variant? (scope : Scope) (name : String) : Option Variant := (scope.get? name).map Value.variant

end Scope

namespace Scopes

variable {s t : Scopes} {name x : String} {v : Value}

/-! ## Binding a name again -/

theorem findSome?_rebindIn {scopes : List Scope}
    (h : (scopes.findSome? (·.get? name)).isSome = true) :
    (rebindIn name v scopes).findSome? (·.get? name) = some v := by
  induction scopes with
  | nil => cases h
  | cons scope rest ih =>
    rw [rebindIn, Scope.binds]
    rw [List.findSome?_cons] at h
    cases hget : scope.get? name with
    | none =>
      rw [hget] at h
      rw [Option.isSome_none, if_neg Bool.false_ne_true, List.findSome?_cons, hget]
      exact ih h
    | some w =>
      rw [Option.isSome_some, if_pos rfl, List.findSome?_cons, Scope.get?_set, if_pos rfl]

theorem get?_rebind (h : s.binds name = true) : (s.rebind name v).get? name = some v := by
  unfold get?
  rw [frames_rebind]
  exact findSome?_rebindIn ((s.get?_isSome name).trans h)

/-- The value of a name is told by what each scope holds of it. -/
theorem get?_eq_of_map (h : t.frames.map (·.get? name) = s.frames.map (·.get? name)) :
    t.get? name = s.get? name := by
  have hfirst := congrArg (List.findSome? id) h
  rwa [List.findSome?_map, List.findSome?_map] at hfirst

/-! ## Declarations -/

variable {limit : Nat} {fresh : Bool}

/-- A declaration that succeeds binds a name again, or introduces it. -/
theorem declare_cases (h : s.declare limit name v fresh = .ok t) :
    (∃ current, s.get? name = some current ∧ (fresh = true ∨ current.variant = v.variant) ∧
      t = s.rebind name v) ∨
    (s.get? name = none ∧ fresh = true ∧ t = s.set name v) := by
  unfold declare at h
  split at h
  · rename_i current hget
    split at h
    · rename_i hmay
      cases h
      exact .inl ⟨current, hget, by simpa using hmay, rfl⟩
    · split at h <;> cases h
  · rename_i hget
    split at h
    · cases h
      exact .inr ⟨hget, ‹_›, rfl⟩
    · cases h

/-- A declaration leaves what every scope holds of another name. -/
theorem map_get?_declare (hx : x ≠ name) (h : s.declare limit name v fresh = .ok t) :
    t.frames.map (·.get? x) = s.frames.map (·.get? x) := by
  have hset (scope : Scope) : (scope.set name v).get? x = scope.get? x := by
    rw [Scope.get?_set, if_neg hx]
  rcases declare_cases h with ⟨current, -, -, rfl⟩ | ⟨-, -, rfl⟩
  · rw [frames_rebind]
    exact map_rebindIn fun scope _ _ _ => hset scope
  · exact congrArg (· :: s.outer.map (·.get? x)) (hset s.inner)

/-- An assignment leaves the variant of every name in every scope. -/
theorem map_variant_declare (x : String) (h : s.declare limit name v false = .ok t) :
    t.frames.map (·.variant? x) = s.frames.map (·.variant? x) := by
  obtain ⟨current, hget, hvariant, rfl⟩ : ∃ current, s.get? name = some current ∧
      current.variant = v.variant ∧ t = s.rebind name v := by
    simpa using declare_cases h
  rw [frames_rebind]
  refine map_rebindIn fun scope w hscope hnearest => ?_
  cases hget.symm.trans hnearest
  unfold Scope.variant?
  rw [Scope.get?_set]
  split
  · subst x
    rw [hscope, Option.map_some, Option.map_some, hvariant]
  · rfl

/-! ## Names in one scope only -/

/-- No name is bound in two scopes of the stack. -/
def Disjoint (s : Scopes) : Prop := s.names.Pairwise List.Disjoint

namespace Disjoint

theorem push (h : s.Disjoint) : s.push.Disjoint :=
  List.pairwise_cons.2 ⟨fun _ _ => List.disjoint_nil_left _, h⟩

theorem cut (h : s.Disjoint) (depth : Nat) : (s.cut depth).Disjoint := by
  unfold Disjoint names
  rw [frames_cut, List.map_drop]
  exact h.sublist (List.drop_sublist ..)

/-- A declaration introduces a name only where no scope binds it. -/
theorem declare (h : s.Disjoint) (hdeclare : s.declare limit name v fresh = .ok t) : t.Disjoint := by
  unfold Disjoint
  rcases names_declare hdeclare with hnames | ⟨-, hbinds, hnames⟩
  · rw [hnames]
    exact h
  · rw [hnames]
    unfold Disjoint at h
    rw [names_eq_cons] at h
    obtain ⟨hinner, houter⟩ := List.pairwise_cons.1 h
    refine List.pairwise_cons.2 ⟨fun names hmem => ?_, houter⟩
    rw [List.disjoint_append_left, List.singleton_disjoint]
    refine ⟨hinner names hmem, fun hname => ?_⟩
    rw [Bool.eq_false_iff] at hbinds
    exact hbinds (binds_iff_names.2 ⟨names, List.mem_cons_of_mem _ hmem, hname⟩)

/-- Where one scope binds a name, none after it does. -/
theorem findSome?_eq_none {scope : Scope} {rest : List Scope}
    (h : ((scope :: rest).map Scope.names).Pairwise List.Disjoint)
    (hname : (scope.get? name).isSome = true) : rest.findSome? (·.get? name) = none := by
  refine List.findSome?_eq_none_iff.2 fun scope' hmem => Scope.get?_eq_none_iff.2 ?_
  have hdisjoint := (List.pairwise_cons.1 h).1 scope'.names (List.mem_map_of_mem hmem)
  exact hdisjoint (Scope.binds_iff_mem_names.1 hname)

/-- **Looking a name up** from the outermost scope gives what looking it up from the nearest gives. -/
theorem findSome?_toList (h : s.Disjoint) (name : String) :
    s.toList.findSome? (·.get? name) = s.get? name := by
  unfold Disjoint names at h
  unfold toList get?
  revert h
  induction s.frames with
  | nil => exact fun _ => rfl
  | cons scope rest ih =>
    intro h
    rw [List.reverse_cons, List.findSome?_append, ih (List.pairwise_cons.1 h).2]
    cases hget : scope.get? name with
    | none => simp [hget]
    | some w =>
      rw [findSome?_eq_none h (by rw [hget]; rfl)]
      simp [hget]

end Disjoint

end Scopes

end Parlance
