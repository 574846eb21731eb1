import Parlance.Function
import Parlance.Proofs.Value.Parts

/-!
# Definite values

A definite value is a Boolean, a number, a string, or an array of definite values: nothing does not occur
in it, at any depth (`definite_iff`). Operators, indices and fields make definite values of definite
values, and the functions that every script has give no others.
-/

namespace Parlance

namespace Value

inductive Definite : Value → Prop where
  | boolean (b : Bool) : Definite (.boolean b)
  | number (x : Number) : Definite (.number x)
  | string (s : String) : Definite (.string s)
  | array {items : List Value} (h : ∀ v ∈ items, Definite v) : Definite (.array items)

theorem definite_iff {v : Value} : v.Definite ↔ .nothing ∉ v.parts := by
  induction v using Value.induction with
  | boolean b => simpa [parts] using Definite.boolean b
  | number x => simpa [parts] using Definite.number x
  | string s => simpa [parts] using Definite.string s
  | array items ih =>
    simp only [mem_parts_array, reduceCtorEq, false_or, not_exists, not_and]
    constructor
    · intro h v hv
      cases h with
      | array h => exact (ih v hv).1 (h v hv)
    · exact fun h => .array fun v hv => (ih v hv).2 (h v hv)
  | nothing =>
    refine iff_of_false (by rintro ⟨⟩) fun h => h ?_
    simp [parts]

/-- An operation that gives no value but definite ones. -/
def Yields (r : Result) : Prop := ∀ v, r = .ok v → v.Definite

namespace Yields

theorem ok {v : Value} (h : v.Definite) : Yields (.ok v) := by
  rintro _ ⟨⟩
  exact h

theorem error (f : Failure) : Yields (.error f) := fun _ h => nomatch h

end Yields

/-! ## Operators -/

section Operators

variable (a b : Value)

theorem yields_mismatch (op : Op) : Yields (mismatch op a b) := .error _

variable {a b} in
theorem yields_add (ha : a.Definite) (hb : b.Definite) : Yields (add a b) := by
  unfold add
  split
  · exact .ok (.number _)
  · exact .ok (.string _)
  · cases ha with
    | array hxs =>
      cases hb with
      | array hys => exact .ok (.array (List.forall_mem_append.2 ⟨hxs, hys⟩))
  · exact yields_mismatch a b _

theorem yields_subtract : Yields (subtract a b) := by
  unfold subtract
  split
  · exact .ok (.number _)
  · exact yields_mismatch a b _

theorem yields_multiply : Yields (multiply a b) := by
  unfold multiply
  split
  · exact .ok (.number _)
  · exact yields_mismatch a b _

theorem yields_divide : Yields (divide a b) := by
  unfold divide
  split
  · split
    · exact .error _
    · exact .ok (.number _)
  · exact yields_mismatch a b _

theorem yields_modulus : Yields (modulus a b) := by
  unfold modulus
  split
  · split
    · exact .error _
    · split
      · exact .ok (.number _)
      · exact .error _
  · exact yields_mismatch a b _

theorem yields_compare (limit : Nat) (op : Op) (answer : Bool → Bool) :
    Yields (compare limit op answer a b) := by
  unfold compare
  split
  · split
    · exact .ok (.boolean _)
    · exact .error _
  · exact yields_mismatch a b _

theorem yields_order (op : Op) (numbers : Number → Number → Bool) (strings : String → String → Bool) :
    Yields (order op numbers strings a b) := by
  unfold order
  split
  · exact .ok (.boolean _)
  · exact .ok (.boolean _)
  · exact yields_mismatch a b _

theorem yields_conjoin : Yields (conjoin a b) := by
  unfold conjoin
  split
  · exact .ok (.boolean _)
  · exact yields_mismatch a b _

theorem yields_disjoin : Yields (disjoin a b) := by
  unfold disjoin
  split
  · exact .ok (.boolean _)
  · exact yields_mismatch a b _

theorem yields_itemAt {items : List Value} (h : ∀ v ∈ items, v.Definite) (i : Number) :
    Yields (itemAt items i) := by
  unfold itemAt
  split
  · exact .error _
  · split
    · rename_i v hitem
      obtain ⟨place, -, hitem⟩ := Option.bind_eq_some_iff.1 hitem
      exact .ok (h v (List.mem_of_getElem? hitem))
    · exact .error _

theorem definite_of_mem_characters {s : String} : ∀ v ∈ characters s, v.Definite := by
  intro v hv
  obtain ⟨c, -, rfl⟩ := List.mem_map.1 hv
  exact .string _

variable {a} in
theorem yields_index (ha : a.Definite) : Yields (index a b) := by
  unfold index
  split
  · cases ha with
    | array h => exact yields_itemAt h _
  · exact yields_itemAt definite_of_mem_characters _
  · exact .error _
  · exact .error _
  · exact .error _

variable {a} in
theorem yields_access (ha : a.Definite) (field : String) : Yields (access a field) := by
  unfold access
  split
  · exact .ok (.number _)
  · cases ha with
    | array h =>
      split
      · rename_i hhead
        exact .ok (h _ (List.mem_of_mem_head? hhead))
      · exact .error _
  · cases ha with
    | array h =>
      split
      · rename_i hlast
        exact .ok (h _ (List.mem_of_getLast? hlast))
      · exact .error _
  · exact .ok (.number _)
  · exact .ok (.string _)
  · exact .ok (.string _)
  · exact .error _

end Operators

end Value

open Value (Yields)

theorem Op.yields_binary {op : Op} {limit : Nat} {g : Value → Value → Result} {a b : Value}
    (hop : op.binary? limit = some g) (ha : a.Definite) (hb : b.Definite) : Yields (g a b) := by
  cases op with
  | plus => cases hop; exact Value.yields_add ha hb
  | minus => cases hop; exact Value.yields_subtract a b
  | multiply => cases hop; exact Value.yields_multiply a b
  | divide => cases hop; exact Value.yields_divide a b
  | mod => cases hop; exact Value.yields_modulus a b
  | equal => cases hop; exact Value.yields_compare a b limit _ _
  | notEqual => cases hop; exact Value.yields_compare a b limit _ _
  | less => cases hop; exact Value.yields_order a b _ _ _
  | greater => cases hop; exact Value.yields_order a b _ _ _
  | lessEqual => cases hop; exact Value.yields_order a b _ _ _
  | greaterEqual => cases hop; exact Value.yields_order a b _ _ _
  | and => cases hop; exact Value.yields_conjoin a b
  | or => cases hop; exact Value.yields_disjoin a b
  | index => cases hop; exact Value.yields_index b ha
  | not => cases hop
  | field => cases hop

theorem Op.yields_unary {op : Op} {g : Value → Result} (hop : op.unary? = some g) (a : Value) :
    Yields (g a) := by
  have hnegate : Yields (Value.negate a) := by
    unfold Value.negate
    split
    · exact .ok (.number _)
    · exact .error _
  have hinvert : Yields (Value.invert a) := by
    unfold Value.invert
    split
    · exact .ok (.boolean _)
    · exact .error _
  cases op with
  | minus => cases hop; exact hnegate
  | not => cases hop; exact hinvert
  | _ => cases hop

/-! ## Functions -/

theorem Function.yields_ofOne {name : String} {f : Value → Result} (h : ∀ v, Yields (f v))
    (args : List Value) : Yields ((ofOne name f).apply args) := by
  cases args with
  | nil => exact .error _
  | cons v rest => exact h v

/-- The functions that every script has give definite values, whatever their arguments are. -/
theorem Registry.yields_standard {limit : Nat} {f : Function} (hf : f ∈ standard limit)
    (args : List Value) : Yields (f.apply args) := by
  simp only [standard, List.mem_cons, List.not_mem_nil, or_false] at hf
  rcases hf with rfl | rfl | rfl | rfl
  · refine Function.yields_ofOne (fun v => ?_) args
    split
    · exact .ok (.number _)
    · exact .error _
  · refine Function.yields_ofOne (fun v => ?_) args
    split
    · exact .ok (.string _)
    · exact .error _
  · refine Function.yields_ofOne (fun v => ?_) args
    split
    · exact .ok (.number _)
    · split
      · exact .ok (.number _)
      · exact .error _
    · exact .error _
  · exact Function.yields_ofOne (fun v => .ok (.string _)) args

theorem Registry.yields_call {limit : Nat} (name : String) (args : List Value) :
    Yields ((standard limit).call name args) := by
  unfold call
  split
  · exact .error _
  · rename_i f hfind
    split
    · split
      · rename_i v happly
        exact .ok (yields_standard (List.mem_of_find?_eq_some hfind) args v happly)
      · exact .error _
      · exact .error _
    · exact .error _

end Parlance
