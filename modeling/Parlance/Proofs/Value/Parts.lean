import Parlance.Value

/-!
# What is inside a value

An array holds its items, their items, and so on. `Value.parts` lists all of them with the value itself,
and `Value.induction` proves a property of a value from that property of its items.
-/

namespace Parlance.Value

mutual
/-- A value and everything in it, at any depth. -/
def parts : Value → List Value
  | .array items => .array items :: allParts items
  | v => [v]
def allParts : List Value → List Value
  | [] => []
  | v :: vs => parts v ++ allParts vs
end

theorem mem_allParts {v : Value} {vs : List Value} : v ∈ allParts vs ↔ ∃ w ∈ vs, v ∈ w.parts := by
  induction vs with
  | nil => simp [allParts]
  | cons w vs ih => simp [allParts, ih]

theorem mem_parts_array {v : Value} {items : List Value} :
    v ∈ (array items).parts ↔ v = .array items ∨ ∃ w ∈ items, v ∈ w.parts := by
  rw [parts, List.mem_cons, mem_allParts]

/-- A property of all values, if that of the items of an array is one of the array. -/
@[elab_as_elim]
theorem induction {P : Value → Prop} (boolean : ∀ b, P (.boolean b)) (number : ∀ x, P (.number x))
    (string : ∀ s, P (.string s)) (array : ∀ items, (∀ v ∈ items, P v) → P (.array items))
    (nothing : P .nothing) (v : Value) : P v :=
  @Value.rec P (fun vs => ∀ v ∈ vs, P v) boolean number string array nothing
    (fun _ h => nomatch h) (fun _ _ hv hvs => List.forall_mem_cons.2 ⟨hv, hvs⟩) v

theorem depths_eq_foldr (vs : List Value) : depths vs = (vs.map depth).foldr max 0 := by
  induction vs with
  | nil => rfl
  | cons v vs ih => rw [depths, ih, List.map_cons, List.foldr_cons]

end Parlance.Value
