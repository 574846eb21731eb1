import Parlance.Scopes

/-!
# The names of scopes

Binding a name again changes no names, a new name comes last in the current scope, and cutting a
stack drops whole scopes from its front.
-/

namespace Parlance

namespace Scope

/-- The names that a scope binds, in the order in which they came. -/
def names (scope : Scope) : List String := scope.map Prod.fst

theorem get?_cons (x : String) (w : Value) (rest : Scope) (name : String) :
    get? ((x, w) :: rest) name = if name = x then some w else get? rest name := by
  unfold get?
  rw [List.lookup_cons]
  by_cases h : name = x
  · simp [h]
  · rw [if_neg h, beq_false_of_ne h]

theorem binds_cons (x : String) (w : Value) (rest : Scope) (name : String) :
    binds ((x, w) :: rest) name = (decide (name = x) || binds rest name) := by
  unfold binds
  rw [get?_cons]
  by_cases h : name = x <;> simp [h]

theorem binds_iff_mem_names {scope : Scope} {name : String} :
    scope.binds name = true ↔ name ∈ scope.names := by
  induction scope with
  | nil => simp [binds, get?, names]
  | cons entry rest ih =>
    obtain ⟨x, w⟩ := entry
    rw [binds_cons, Bool.or_eq_true, decide_eq_true_eq, ih]
    simp [names]

theorem names_set_of_binds {scope : Scope} {name : String} (h : scope.binds name = true)
    (v : Value) : (scope.set name v).names = scope.names := by
  induction scope with
  | nil => simp [binds, get?] at h
  | cons entry rest ih =>
    obtain ⟨x, w⟩ := entry
    rw [set]
    split
    · rfl
    · rename_i hne
      rw [binds_cons, decide_eq_false (by simpa using hne), Bool.false_or] at h
      show x :: (set rest name v).names = x :: names rest
      rw [ih h]

theorem names_set_of_not_binds {scope : Scope} {name : String} (h : scope.binds name = false)
    (v : Value) : (scope.set name v).names = scope.names ++ [name] := by
  induction scope with
  | nil => rfl
  | cons entry rest ih =>
    obtain ⟨x, w⟩ := entry
    rw [binds_cons, Bool.or_eq_false_iff, decide_eq_false_iff_not] at h
    rw [set, if_neg (by simpa using h.1)]
    show x :: (set rest name v).names = x :: (names rest ++ [name])
    rw [ih h.2]

end Scope

namespace Scopes

/-- The names of every scope, the nearest first. -/
def names (s : Scopes) : List (List String) := s.frames.map Scope.names

theorem names_eq_cons (s : Scopes) : s.names = s.inner.names :: s.outer.map Scope.names := rfl

/-- Which names are bound is told by the names of the scopes. -/
theorem binds_iff_names {s : Scopes} {name : String} :
    s.binds name = true ↔ ∃ names ∈ s.names, name ∈ names := by
  unfold binds find? names
  rw [List.find?_isSome]
  constructor
  · rintro ⟨scope, hscope, hbinds⟩
    exact ⟨scope.names, List.mem_map_of_mem hscope, Scope.binds_iff_mem_names.1 hbinds⟩
  · rintro ⟨_, hmem, hname⟩
    obtain ⟨scope, hscope, rfl⟩ := List.mem_map.1 hmem
    exact ⟨scope, hscope, Scope.binds_iff_mem_names.2 hname⟩

theorem binds_eq_of_names {s t : Scopes} (h : t.names = s.names) (name : String) :
    t.binds name = s.binds name := by
  rw [Bool.eq_iff_iff, binds_iff_names, binds_iff_names, h]

theorem get?_isSome (s : Scopes) (name : String) : (s.get? name).isSome = s.binds name := by
  unfold get? binds find?
  rw [Bool.eq_iff_iff, List.findSome?_isSome_iff, List.find?_isSome]
  rfl

theorem frames_rebind (s : Scopes) (name : String) (v : Value) :
    (s.rebind name v).frames = rebindIn name v s.frames := by
  unfold rebind frames
  rw [rebindIn]
  split <;> rfl

/-- What binding a name again does not change in the nearest scope that binds it, it changes in none. -/
theorem map_rebindIn {α : Type} {φ : Scope → α} {name : String} {v : Value} {scopes : List Scope}
    (h : ∀ (scope : Scope) (w : Value), scope.get? name = some w →
      scopes.findSome? (·.get? name) = some w → φ (scope.set name v) = φ scope) :
    (rebindIn name v scopes).map φ = scopes.map φ := by
  induction scopes with
  | nil => rfl
  | cons scope rest ih =>
    rw [rebindIn, Scope.binds]
    rw [List.findSome?_cons] at h
    cases hget : scope.get? name with
    | none =>
      rw [hget] at h
      rw [Option.isSome_none, if_neg Bool.false_ne_true, List.map_cons, List.map_cons, ih h]
    | some w =>
      rw [hget] at h
      rw [Option.isSome_some, if_pos rfl, List.map_cons, List.map_cons, h scope w hget rfl]

/-- Binding a name again changes no names. -/
theorem names_rebind (s : Scopes) (name : String) (v : Value) : (s.rebind name v).names = s.names := by
  unfold names
  rw [frames_rebind]
  refine map_rebindIn fun scope w hget _ => Scope.names_set_of_binds ?_ v
  rw [Scope.binds, hget]
  rfl

/-- A new name comes last in the current scope. -/
theorem names_set_of_not_binds {s : Scopes} {name : String} (h : s.binds name = false) (v : Value) :
    (s.set name v).names = (s.inner.names ++ [name]) :: s.outer.map Scope.names := by
  have hinner : s.inner.binds name = false := by
    rw [Bool.eq_false_iff] at h ⊢
    intro hbinds
    exact h (binds_iff_names.2 ⟨_, List.mem_cons_self .., Scope.binds_iff_mem_names.1 hbinds⟩)
  rw [names_eq_cons]
  unfold set
  rw [Scope.names_set_of_not_binds hinner]

/-- What a declaration that succeeds does to the names. -/
theorem names_declare {limit : Nat} {s t : Scopes} {name : String} {v : Value} {fresh : Bool}
    (h : s.declare limit name v fresh = .ok t) :
    t.names = s.names ∨ fresh = true ∧ s.binds name = false ∧
      t.names = (s.inner.names ++ [name]) :: s.outer.map Scope.names := by
  unfold declare at h
  split at h
  · split at h
    · cases h
      exact .inl (names_rebind s name v)
    · split at h <;> cases h
  · rename_i hnone
    have hbinds : s.binds name = false := by rw [← get?_isSome, hnone]; rfl
    split at h
    · cases h
      exact .inr ⟨‹_›, hbinds, names_set_of_not_binds hbinds v⟩
    · cases h

theorem frames_cutTo (depth : Nat) (inner : Scope) (outer : List Scope) :
    (cutTo depth inner outer).frames =
      (inner :: outer).drop ((inner :: outer).length - max depth 1) := by
  induction outer generalizing inner with
  | nil =>
    rw [cutTo, show [inner].length - max depth 1 = 0 by simp only [List.length_singleton]; omega]
    rfl
  | cons next outer ih =>
    rw [cutTo]
    split
    · rw [ih, show (inner :: next :: outer).length - max depth 1 =
        ((next :: outer).length - max depth 1) + 1 by simp only [List.length_cons]; omega]
      rfl
    · rw [show (inner :: next :: outer).length - max depth 1 = 0 by
        simp only [List.length_cons]; omega]
      rfl

/-- Cutting drops scopes from the front and leaves the others as they are. -/
theorem frames_cut (s : Scopes) (depth : Nat) :
    (s.cut depth).frames = s.frames.drop (s.depth - max depth 1) :=
  frames_cutTo depth s.inner s.outer

end Scopes

end Parlance
