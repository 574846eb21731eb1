import Parlance.Proofs.Scopes.Names

/-!
# Bodies in a scope of their own

`Scopes.within` runs a body in a fresh scope and cuts the stack afterwards, however the body ends. A body
is made of operations on the stack (`Scopes.Operation`), among them bodies of that kind.

Cutting takes scopes away and puts none back. So the stack is afterwards as deep as before, unless the
body has left it less deep (`Scopes.depth_within_performAll`). A body does that only if it pops scopes
that were there before it (`Scopes.Operation.Contained`).
-/

namespace Parlance.Scopes

variable {s t : Scopes}

/-! ## Depths -/

theorem depth_pos (s : Scopes) : 0 < s.depth := Nat.succ_pos _

@[simp]
theorem depth_push (s : Scopes) : s.push.depth = s.depth + 1 := rfl

@[simp]
theorem depth_set (s : Scopes) (name : String) (v : Value) : (s.set name v).depth = s.depth := rfl

theorem depth_cut (s : Scopes) {depth : Nat} (h : 0 < depth) :
    (s.cut depth).depth = min s.depth depth := by
  have hlength : (s.cut depth).depth = s.depth - (s.depth - max depth 1) := by
    unfold Scopes.depth
    rw [frames_cut, List.length_drop]
    rfl
  omega

/-- Whatever a body does, the stack is not deeper afterwards than before, nor than the body left it. -/
theorem depth_within {α : Type} (s : Scopes) (body : Scopes → α × Scopes) :
    (s.within body).2.depth = min s.depth (body s.push).2.depth := by
  rw [Nat.min_comm]
  exact depth_cut _ s.depth_pos

theorem depth_pop (h : s.pop = .ok t) : s.depth = t.depth + 1 := by
  obtain ⟨inner, outer⟩ := s
  cases outer with
  | nil => simp [pop, pop?] at h
  | cons next outer =>
    simp only [pop, pop?, Except.ok.injEq] at h
    rw [← h]
    rfl

theorem depth_declare {limit : Nat} {name : String} {v : Value} {fresh : Bool}
    (h : s.declare limit name v fresh = .ok t) : t.depth = s.depth := by
  have hlength : t.names.length = s.names.length := by
    rcases names_declare h with hnames | ⟨-, -, hnames⟩ <;> simp [hnames, names_eq_cons]
  simpa [names, depth] using hlength

/-! ## Operations -/

/-- What can be done with a stack. -/
inductive Operation where
  | push
  | pop
  | declare (name : String) (v : Value) (fresh : Bool)
  /-- Binds a name in the current scope. -/
  | set (name : String) (v : Value)
  | lookup (name : String)
  | binds (name : String)
  /-- A failure that has nothing to do with the stack. -/
  | fail (f : Failure)
  | within (body : List Operation)

namespace Operation

mutual
/-- How an operation ends, and the stack that it leaves. An operation that fails changes nothing, but what
a body has done before it failed is done. -/
def perform (limit : Nat) : Operation → Scopes → Except Failure Unit × Scopes
  | .push, s => (.ok (), s.push)
  | .pop, s =>
    match s.pop with
    | .ok t => (.ok (), t)
    | .error f => (.error f, s)
  | .declare name v fresh, s =>
    match s.declare limit name v fresh with
    | .ok t => (.ok (), t)
    | .error f => (.error f, s)
  | .set name v, s => (.ok (), s.set name v)
  | .lookup name, s => ((s.lookup name).map fun _ => (), s)
  | .binds _, s => (.ok (), s)
  | .fail f, s => (.error f, s)
  | .within body, s => s.within (performAll limit body)

/-- Operations one after the other up to the first that fails. -/
def performAll (limit : Nat) : List Operation → Scopes → Except Failure Unit × Scopes
  | [], s => (.ok (), s)
  | op :: ops, s =>
    match perform limit op s with
    | (.ok _, t) => performAll limit ops t
    | (.error f, t) => (.error f, t)
end

mutual
/-- How many of the `own` scopes above some place an operation leaves there if it succeeds; nothing if it
may pop a scope below that place. -/
def above (own : Nat) : Operation → Option Nat
  | .push => some (own + 1)
  | .pop => if own = 0 then none else some (own - 1)
  | .within body => (aboveAll (own + 1) body).map (min own)
  | _ => some own

def aboveAll (own : Nat) : List Operation → Option Nat
  | [] => some own
  | op :: ops =>
    match above own op with
    | some left => aboveAll left ops
    | none => none
end

/-- A body that pops only its own scopes: the fresh one and those that it has pushed. -/
def Contained (body : List Operation) : Prop := (aboveAll 1 body).isSome

instance (body : List Operation) : Decidable (Contained body) :=
  inferInstanceAs (Decidable (_ = true))

/-- The depth that a run leaves above a place: at least that of the place, and just `left` more if the run
succeeds. -/
def Leaves (base left : Nat) (run : Except Failure Unit × Scopes) : Prop :=
  base ≤ run.2.depth ∧ (run.1 = .ok () → run.2.depth = base + left)

mutual
/-- One operation above a place. -/
theorem leaves_perform {base own left : Nat} (limit : Nat) (op : Operation) {s : Scopes}
    (hs : s.depth = base + own) (h : above own op = some left) :
    Leaves base left (perform limit op s) := by
  unfold Leaves
  match op with
  | .push =>
    obtain rfl : own + 1 = left := by simpa [above] using h
    simp only [perform, depth_push]
    omega
  | .pop =>
    rw [above] at h
    split at h
    · cases h
    · cases h
      rw [perform]
      split
      · rename_i t hpop
        have hdepth := depth_pop hpop
        dsimp only
        omega
      · simp [hs]
  | .declare name v fresh =>
    obtain rfl : own = left := by simpa [above] using h
    rw [perform]
    split
    · rename_i t hdeclare
      simp [depth_declare hdeclare, hs]
    · simp [hs]
  | .set name v | .lookup name | .binds name | .fail f =>
    obtain rfl : own = left := by simpa [above] using h
    simp [perform, hs]
  | .within body =>
    rw [above] at h
    obtain ⟨inside, hinside, rfl⟩ := Option.map_eq_some_iff.1 h
    -- the body has one scope more of its own, and leaving it takes away what is above the old ones
    have hpush : s.push.depth = base + (own + 1) := by rw [depth_push, hs, Nat.add_assoc]
    obtain ⟨hle, hok⟩ := leaves_performAll limit body hpush hinside
    rw [perform, depth_within]
    refine ⟨by omega, fun hdone => ?_⟩
    rw [hok hdone]
    omega

/-- Operations above a place, wherever the run of them stops. -/
theorem leaves_performAll {base own left : Nat} (limit : Nat) (ops : List Operation) {s : Scopes}
    (hs : s.depth = base + own) (h : aboveAll own ops = some left) :
    Leaves base left (performAll limit ops s) := by
  match ops with
  | [] =>
    obtain rfl : own = left := by simpa [aboveAll] using h
    simp [Leaves, performAll, hs]
  | op :: ops =>
    rw [aboveAll] at h
    split at h
    · rename_i mid hmid
      obtain ⟨hle, hok⟩ := leaves_perform limit op hs hmid
      rw [performAll]
      split
      · rename_i t hperform
        rw [hperform] at hok
        exact leaves_performAll limit ops (hok rfl) h
      · rename_i f t hperform
        rw [hperform] at hle
        exact ⟨hle, by simp⟩
    · cases h
end

/-- A contained body leaves the scopes that were there before it. -/
theorem Contained.depth_le {body : List Operation} (h : Contained body) (limit : Nat) (s : Scopes) :
    s.depth ≤ (performAll limit body s.push).2.depth := by
  obtain ⟨left, hleft⟩ := Option.isSome_iff_exists.1 h
  exact (leaves_performAll limit body s.depth_push hleft).1

end Operation

open Operation (performAll Contained)

/-- **How deep the stack is after a body in a scope of its own.** Whatever the operations of the body are,
and whether it comes to its end or a failure leaves it, the stack is as deep as before or as the body left
it, whichever is less. So it is as deep as before if and only if the body has left it at least so deep:
always if there was one scope, and if the body pops only scopes of its own, those of bodies in it
included. -/
theorem depth_within_performAll (limit : Nat) (s : Scopes) (body : List Operation) :
    (s.within (performAll limit body)).2.depth = min s.depth (performAll limit body s.push).2.depth ∧
    ((s.within (performAll limit body)).2.depth = s.depth ↔
      s.depth ≤ (performAll limit body s.push).2.depth) ∧
    (s.depth = 1 → (s.within (performAll limit body)).2.depth = 1) ∧
    (Contained body → (s.within (performAll limit body)).2.depth = s.depth) := by
  have hdepth := s.depth_within (performAll limit body)
  have hpos := (performAll limit body s.push).2.depth_pos
  refine ⟨hdepth, ?_, ?_, ?_⟩
  · omega
  · intro hone
    omega
  · intro hcontained
    have hle := hcontained.depth_le limit s
    omega

/-- A body pushes twice, pops the fresh scope of a body in it and one of its own, and fails at a name that
is not bound; there are two scopes as before. -/
theorem depth_within_performAll_left_by_lookup :
    let s : Scopes := ⟨[("x", .nothing)], [[]]⟩
    let body : List Operation := [.push, .push, .within [.pop, .set "y" .nothing], .pop, .lookup "z", .pop]
    Contained body ∧ (∃ f, (s.within (performAll 10 body)).1 = .error f) ∧
      (s.within (performAll 10 body)).2.depth = 2 := by
  intro s body
  have hcontained : Contained body := by decide
  exact ⟨hcontained, ⟨_, rfl⟩, (depth_within_performAll 10 s body).2.2.2 hcontained⟩

/-- A body that pops its scope and the one below: the stack was two scopes deep and is one deep after it,
though the body succeeds. -/
theorem depth_within_two_pops :
    let s : Scopes := ⟨[], [[]]⟩
    s.depth = 2 ∧ (s.within (performAll 10 [.pop, .pop])).1 = .ok () ∧
      (s.within (performAll 10 [.pop, .pop])).2.depth = 1 :=
  ⟨rfl, rfl, rfl⟩

end Parlance.Scopes
