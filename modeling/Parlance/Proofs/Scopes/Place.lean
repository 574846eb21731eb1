import Parlance.Proofs.Scopes.Values
import Parlance.Proofs.Scopes.Within

/-!
# The place of a binding

A name may be bound in several scopes of a stack. A `Scopes.Place` is where the nearest of these
bindings stands: the scopes above and below it, and the entries before and after it in its scope.
Looking a name up and binding it again both go to that place (`Place.get?_frames`,
`Place.rebindIn_frames`), so they agree on the binding that a name refers to.

A declaration that succeeds writes to this one place, or adds a last entry to the current scope
(`Scopes.perform_declare`). A binding that a nearer one hides is left as it is, and is seen again once
the scopes above it are popped.
-/

namespace Parlance

namespace Scope

variable {scope : Scope} {name : String}

theorem set_append_of_not_binds (h : scope.binds name = false) (rest : Scope) (v : Value) :
    (scope ++ rest).set name v = scope ++ rest.set name v := by
  induction scope with
  | nil => rfl
  | cons entry scope ih =>
    obtain ⟨x, w⟩ := entry
    rw [binds_cons, Bool.or_eq_false_iff, decide_eq_false_iff_not] at h
    rw [List.cons_append, set, if_neg (by simpa using h.1), ih h.2, List.cons_append]

/-- A new name comes last. -/
theorem set_of_not_binds (h : scope.binds name = false) (v : Value) :
    scope.set name v = scope ++ [(name, v)] := by
  have hset := set_append_of_not_binds h [] v
  rwa [List.append_nil] at hset

/-- A name is bound by the first entry for it. -/
theorem exists_entry {w : Value} (h : scope.get? name = some w) :
    ∃ before after, scope = before ++ (name, w) :: after ∧ before.binds name = false := by
  induction scope with
  | nil => cases h
  | cons entry scope ih =>
    obtain ⟨x, u⟩ := entry
    rw [get?_cons] at h
    split at h
    · rename_i hx
      obtain rfl := Option.some.inj h
      exact ⟨[], scope, by rw [hx]; rfl, rfl⟩
    · rename_i hx
      obtain ⟨before, after, rfl, hbefore⟩ := ih h
      refine ⟨(x, u) :: before, after, rfl, ?_⟩
      rw [binds_cons, hbefore, decide_eq_false hx]
      rfl

end Scope

namespace Scopes

/-- The place of the nearest binding of a name. -/
structure Place (name : String) where
  /-- The scopes above that of the binding. -/
  above : List Scope
  /-- The entries before it in its own scope. -/
  before : Scope
  after : Scope
  below : List Scope
  above_free : ∀ scope ∈ above, scope.binds name = false
  before_free : before.binds name = false

namespace Place

variable {name : String} (p : Place name)

/-- The scope of the binding, with a value in the place. -/
def scope (v : Value) : Scope := p.before ++ (name, v) :: p.after

/-- All scopes, with a value in the place. -/
def frames (v : Value) : List Scope := p.above ++ p.scope v :: p.below

theorem set_scope (w v : Value) : (p.scope w).set name v = p.scope v := by
  unfold scope
  rw [Scope.set_append_of_not_binds p.before_free, Scope.set, if_pos (beq_self_eq_true name)]

theorem get?_scope (v : Value) : (p.scope v).get? name = some v := by
  rw [← p.set_scope v v, Scope.get?_set, if_pos rfl]

theorem binds_scope (v : Value) : (p.scope v).binds name = true := by
  rw [Scope.binds, get?_scope]
  rfl

/-- Looking the name up finds the value in the place. -/
theorem get?_frames (v : Value) : (p.frames v).findSome? (·.get? name) = some v := by
  have habove : p.above.findSome? (·.get? name) = none := by
    rw [List.findSome?_eq_none_iff]
    intro scope hmem
    simpa [Scope.binds] using p.above_free scope hmem
  unfold frames
  rw [List.findSome?_append, habove, List.findSome?_cons, p.get?_scope]
  rfl

/-- Binding the name again puts the value in the place and leaves all else. -/
theorem rebindIn_frames (w v : Value) : rebindIn name v (p.frames w) = p.frames v := by
  have hskip (scopes : List Scope) (h : ∀ scope ∈ scopes, scope.binds name = false)
      (rest : List Scope) : rebindIn name v (scopes ++ rest) = scopes ++ rebindIn name v rest := by
    induction scopes with
    | nil => rfl
    | cons scope scopes ih =>
      rw [List.cons_append, rebindIn, if_neg (by simp [h scope]), List.cons_append,
        ih fun scope hmem => h scope (List.mem_cons_of_mem _ hmem)]
  unfold frames
  rw [hskip p.above p.above_free, rebindIn, if_pos (p.binds_scope w), p.set_scope]

end Place

variable {s t : Scopes} {name : String} {v w : Value}

/-- A name that has a value has it in some place. -/
theorem exists_place (h : s.get? name = some w) : ∃ p : Place name, s.frames = p.frames w := by
  obtain ⟨above, scope, below, hframes, hscope, habove⟩ := List.findSome?_eq_some_iff.1 h
  obtain ⟨before, after, rfl, hbefore⟩ := Scope.exists_entry hscope
  refine ⟨⟨above, before, after, below, fun scope hmem => ?_, hbefore⟩, hframes⟩
  rw [Scope.binds, habove scope hmem]
  rfl

/-! ## Popping scopes -/

open Operation (perform performAll)

theorem performAll_pops (limit : Nat) {k : Nat} (h : k < s.depth) :
    ∃ u, performAll limit (List.replicate k .pop) s = (.ok (), u) ∧ u.frames = s.frames.drop k := by
  induction k generalizing s with
  | zero => exact ⟨s, by rw [List.replicate_zero, performAll], rfl⟩
  | succ k ih =>
    obtain ⟨inner, outer⟩ := s
    cases outer with
    | nil =>
      simp [depth, Scopes.frames] at h
    | cons next outer =>
      have hnext : k < (Scopes.mk next outer).depth := by
        simp only [depth, Scopes.frames, List.length_cons] at h ⊢
        omega
      obtain ⟨u, hpops, hframes⟩ := ih hnext
      refine ⟨u, ?_, hframes⟩
      rw [List.replicate_succ, performAll, perform]
      exact hpops

/-! ## Declarations -/

variable {limit : Nat} {fresh : Bool}

/-- What a declaration that succeeds makes of the stack `s`. -/
structure Declared (limit : Nat) (s t : Scopes) (name : String) (v : Value) : Prop where
  lookup_eq : t.lookup name = .ok v
  others : ∀ x, x ≠ name → t.get? x = s.get? x ∧ t.binds x = s.binds x
  /-- One entry is written: the nearest binding of the name, in its place, or a new one. -/
  entry : (∃ (p : Place name) (w : Value), s.frames = p.frames w ∧ t.frames = p.frames v) ∨
    s.binds name = false ∧ t.frames = (s.inner ++ [(name, v)]) :: s.outer
  /-- A binding below a nearer one has its value when the scopes above it are popped. -/
  hidden : ∀ (k : Nat) (scope : Scope) (w : Value), s.frames[k]? = some scope →
    scope.get? name = some w → (∃ nearer ∈ s.frames.take k, nearer.binds name = true) →
    ∃ u, performAll limit (List.replicate k .pop) t = (.ok (), u) ∧ u.frames = s.frames.drop k ∧
      u.lookup name = .ok w

theorem lookup_of_get? (h : s.get? name = some v) : s.lookup name = .ok v := by
  rw [lookup, h]

/-- Below the place of the nearest binding nothing is written. -/
theorem Place.drop_frames (p : Place name) (w v : Value) {k : Nat}
    (h : ∃ nearer ∈ (p.frames w).take k, nearer.binds name = true) :
    (p.frames v).drop k = (p.frames w).drop k := by
  have hlt : p.above.length < k := by
    by_contra hle
    obtain ⟨nearer, hmem, hbinds⟩ := h
    unfold frames at hmem
    rw [List.take_append_of_le_length (by omega)] at hmem
    rw [p.above_free nearer (List.mem_of_mem_take hmem)] at hbinds
    cases hbinds
  unfold frames
  obtain ⟨j, rfl⟩ : ∃ j, k = p.above.length + (j + 1) := ⟨k - p.above.length - 1, by omega⟩
  rw [List.drop_length_add_append, List.drop_length_add_append, List.drop_succ_cons,
    List.drop_succ_cons]

theorem hidden_of_drop {k : Nat} {scope : Scope} (hdrop : t.frames.drop k = s.frames.drop k)
    (hscope : s.frames[k]? = some scope) (hget : scope.get? name = some w) :
    ∃ u, performAll limit (List.replicate k .pop) t = (.ok (), u) ∧ u.frames = s.frames.drop k ∧
      u.lookup name = .ok w := by
  obtain ⟨hlt, rfl⟩ := List.getElem?_eq_some_iff.1 hscope
  have hlength := congrArg List.length hdrop
  rw [List.length_drop, List.length_drop] at hlength
  obtain ⟨u, hpops, hframes⟩ := performAll_pops limit (s := t) (k := k) (by
    unfold depth
    omega)
  rw [hdrop] at hframes
  refine ⟨u, hpops, hframes, lookup_of_get? ?_⟩
  unfold get?
  rw [hframes, List.drop_eq_getElem_cons hlt, List.findSome?_cons, hget]

theorem declared_of_ok (h : s.declare limit name v fresh = .ok t) : Declared limit s t name v := by
  have hothers (x : String) (hx : x ≠ name) : t.get? x = s.get? x ∧ t.binds x = s.binds x := by
    have hget := get?_eq_of_map (map_get?_declare hx h)
    exact ⟨hget, by rw [← get?_isSome, hget, get?_isSome]⟩
  rcases declare_cases h with ⟨current, hcurrent, -, rfl⟩ | ⟨hnone, -, rfl⟩
  · obtain ⟨p, hs⟩ := exists_place hcurrent
    have ht : (s.rebind name v).frames = p.frames v := by
      rw [frames_rebind, hs, p.rebindIn_frames]
    refine ⟨lookup_of_get? ?_, hothers, .inl ⟨p, current, hs, ht⟩, ?_⟩
    · unfold get?
      rw [ht, p.get?_frames]
    · intro k scope w hscope hget hnearer
      refine hidden_of_drop ?_ hscope hget
      rw [hs] at hnearer
      rw [ht, hs, p.drop_frames current v hnearer]
  · have hbinds : s.binds name = false := by
      rw [← get?_isSome, hnone]
      rfl
    have hfree (scope : Scope) (hmem : scope ∈ s.frames) : scope.get? name = none :=
      List.findSome?_eq_none_iff.1 hnone scope hmem
    have ht : (s.set name v).frames = (s.inner ++ [(name, v)]) :: s.outer := by
      have hinner : s.inner.binds name = false := by
        rw [Scope.binds, hfree s.inner (List.mem_cons_self ..)]
        rfl
      unfold set Scopes.frames
      rw [Scope.set_of_not_binds hinner]
    refine ⟨lookup_of_get? ?_, hothers, .inr ⟨hbinds, ht⟩, ?_⟩
    · unfold get? set Scopes.frames
      rw [List.findSome?_cons, Scope.get?_set, if_pos rfl]
    · intro k scope w hscope hget
      rw [hfree scope (List.mem_of_getElem? hscope)] at hget
      cases hget

theorem declare_eq_error_iff (limit : Nat) : (∃ f, s.declare limit name v fresh = .error f) ↔
    fresh = false ∧
      (s.get? name = none ∨ ∃ current, s.get? name = some current ∧ current.variant ≠ v.variant) := by
  unfold declare
  cases s.get? name with
  | none => cases fresh <;> simp
  | some current =>
    by_cases hvariant : current.variant = v.variant
    · simp [hvariant]
    · cases fresh with
      | true => simp
      | false =>
        simp only [hvariant, decide_false, Bool.or_self, Bool.false_eq_true, if_false]
        split <;> simp [hvariant]

/-- **A declaration and a lookup agree** on the binding that a name refers to. A declaration that
succeeds writes to the nearest binding of its name, or, if there is none, to the end of the current scope;
then the name has the new value, and every other name and every hidden binding the old one. It fails if
and only if it is not fresh and the name has no value or one of another variant, and then it changes
nothing. -/
theorem perform_declare (limit : Nat) (s : Scopes) (name : String) (v : Value) (fresh : Bool) :
    ((perform limit (.declare name v fresh) s).1 = .ok () →
      Declared limit s (perform limit (.declare name v fresh) s).2 name v) ∧
    ((perform limit (.declare name v fresh) s).1 ≠ .ok () ↔ fresh = false ∧
      (s.get? name = none ∨ ∃ current, s.get? name = some current ∧ current.variant ≠ v.variant)) ∧
    ((perform limit (.declare name v fresh) s).1 ≠ .ok () →
      (perform limit (.declare name v fresh) s).2 = s) := by
  rw [← declare_eq_error_iff limit]
  simp only [perform]
  cases h : s.declare limit name v fresh with
  | ok t => simpa using declared_of_ok h
  | error f => simp

/-- The name `x` is bound in the second scope and in the third. Assigning to it writes to the second, and
the value in the third is seen again below it. Assigning a value of another variant fails. -/
theorem perform_declare_hidden_binding :
    let s : Scopes := ⟨[("y", .nothing)], [[("z", .nothing), ("x", .string "a")], [("x", .boolean true)]]⟩
    let t := (perform 10 (.declare "x" (.string "b") false) s).2
    t.frames = [[("y", .nothing)], [("z", .nothing), ("x", .string "b")], [("x", .boolean true)]] ∧
      t.lookup "x" = .ok (.string "b") ∧ t.get? "z" = some .nothing ∧
      (∃ u, performAll 10 [.pop, .pop] t = (.ok (), u) ∧ u.lookup "x" = .ok (.boolean true)) ∧
      (perform 10 (.declare "x" .nothing false) s).2 = s := by
  intro s t
  have hdeclared : Declared 10 s t "x" (.string "b") :=
    (perform_declare 10 s "x" (.string "b") false).1 rfl
  obtain ⟨-, hfails, hsame⟩ := perform_declare 10 s "x" .nothing false
  obtain ⟨u, hpops, -, hlookup⟩ := hdeclared.hidden 2 [("x", .boolean true)] (.boolean true) rfl rfl
    ⟨[("z", .nothing), ("x", .string "a")], by simp [s, Scopes.frames], rfl⟩
  refine ⟨rfl, hdeclared.lookup_eq, (hdeclared.others "z" (by decide)).1, ⟨u, hpops, hlookup⟩, ?_⟩
  exact hsame (hfails.2 ⟨rfl, .inr ⟨.string "a", rfl, by simp [Value.variant]⟩⟩)

end Scopes

end Parlance
