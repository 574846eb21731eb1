import Parlance.Proofs.Number.ReadBack
import Parlance.Proofs.Value.Parts

/-!
# Equality of values

Equality is symmetric and transitive, and a value equals itself unless NaN occurs in it
(`same_self_iff`). Equal values have one type, one depth and one text. The operators `==` and `!=`
compare with a bound on the nesting (`sameWithin_cases`), and answer opposite things wherever they answer.
-/

namespace Parlance

namespace Number

/-! ## Equal numbers -/

theorem eq_nan_iff {x : Number} : x = Float.nan ↔ shape x = .nan := by
  have hnan : Float.nan = notANumber := by decide
  refine ⟨fun h => ?_, fun h => (eq_notANumber h).trans hnan.symm⟩
  rw [h]
  decide

-- Equal numbers are the same number, or zeros.
theorem text_of_beq {x y : Number} (h : (x == y) = true) : text x = text y := by
  have hzero : text 0 = text (-0) := by
    have hpositive : shape 0 = .finite false 0 0 := by decide
    have hnegative : shape (-0) = .finite true 0 0 := by decide
    rw [text_of_zero hpositive, text_of_zero hnegative]
  obtain ⟨-, -, rfl | ⟨rfl, rfl⟩ | ⟨rfl, rfl⟩⟩ := Float.beq_iff_ne_nan_and_eq.1 h
  · rfl
  · exact hzero
  · exact hzero.symm

end Number

namespace Value

/-! ## What equals a value -/

theorem same_boolean_iff {b : Bool} {v : Value} : same (.boolean b) v = true ↔ v = .boolean b := by
  cases v with
  | boolean c => simpa [same] using eq_comm
  | _ => simp [same]

theorem same_number_iff {x : Number} {v : Value} :
    same (.number x) v = true ↔ ∃ y, v = .number y ∧ (x == y) = true := by
  cases v <;> simp [same]

theorem same_string_iff {s : String} {v : Value} : same (.string s) v = true ↔ v = .string s := by
  cases v with
  | string t => simpa [same] using eq_comm
  | _ => simp [same]

theorem same_nothing_iff {v : Value} : same .nothing v = true ↔ v = .nothing := by
  cases v <;> simp [same]

theorem sameAll_iff {xs ys : List Value} :
    sameAll xs ys = true ↔ List.Forall₂ (fun x y => same x y = true) xs ys := by
  induction xs generalizing ys with
  | nil => cases ys <;> simp [sameAll]
  | cons x xs ih => cases ys <;> simp [sameAll, ih]

theorem same_array_iff {xs : List Value} {v : Value} : same (.array xs) v = true ↔
    ∃ ys, v = .array ys ∧ List.Forall₂ (fun x y => same x y = true) xs ys := by
  cases v <;> simp [same, sameAll_iff]

/-! ## A partial equivalence -/

theorem same_symm {a b : Value} (h : same a b = true) : same b a = true := by
  induction a using Value.induction generalizing b with
  | boolean c =>
    cases same_boolean_iff.1 h
    exact h
  | number x =>
    obtain ⟨y, rfl, hxy⟩ := same_number_iff.1 h
    exact same_number_iff.2 ⟨x, rfl, BEq.symm hxy⟩
  | string s =>
    cases same_string_iff.1 h
    exact h
  | array xs ih =>
    obtain ⟨ys, rfl, hall⟩ := same_array_iff.1 h
    have hboth := (List.forall₂_and_left xs ys).2 ⟨fun x hx => @ih x hx, hall⟩
    exact same_array_iff.2 ⟨xs, rfl, (hboth.imp fun x y hxy => hxy.1 hxy.2).flip⟩
  | nothing =>
    cases same_nothing_iff.1 h
    exact h

theorem same_trans {a b c : Value} (hab : same a b = true) (hbc : same b c = true) :
    same a c = true := by
  induction a using Value.induction generalizing b c with
  | boolean d =>
    cases same_boolean_iff.1 hab
    exact hbc
  | number x =>
    obtain ⟨y, rfl, hxy⟩ := same_number_iff.1 hab
    obtain ⟨z, rfl, hyz⟩ := same_number_iff.1 hbc
    exact same_number_iff.2 ⟨z, rfl, BEq.trans hxy hyz⟩
  | string s =>
    cases same_string_iff.1 hab
    exact hbc
  | array xs ih =>
    obtain ⟨ys, rfl, hxys⟩ := same_array_iff.1 hab
    obtain ⟨zs, rfl, hyzs⟩ := same_array_iff.1 hbc
    refine same_array_iff.2 ⟨zs, rfl, ?_⟩
    clear hab hbc
    induction hxys generalizing zs with
    | nil => exact hyzs
    | @cons x y xs ys hxy hxys ihs =>
      obtain ⟨z, zs, hyz, hrest, rfl⟩ := List.forall₂_cons_left_iff.1 hyzs
      have ⟨ihx, ihxs⟩ := List.forall_mem_cons.1 ih
      exact .cons (ihx hxy hyz) (ihs ihxs zs hrest)
  | nothing =>
    cases same_nothing_iff.1 hab
    exact hbc

theorem same_comm (a b : Value) : same a b = same b a :=
  Bool.eq_iff_iff.2 ⟨same_symm, same_symm⟩

/-- **A value equals itself exactly if there is no NaN in it.** -/
theorem same_self_iff {a : Value} :
    same a a = true ↔ ∀ x, .number x ∈ a.parts → Number.shape x ≠ .nan := by
  induction a using Value.induction with
  | boolean b => simp [same, parts]
  | number x => simp [same, parts, Number.eq_nan_iff]
  | string s => simp [same, parts]
  | array items ih =>
    have hitems : same (.array items) (.array items) = true ↔ ∀ v ∈ items, same v v = true := by
      rw [same, sameAll_iff, List.forall₂_same]
    simp only [hitems, mem_parts_array, reduceCtorEq, false_or]
    constructor
    · rintro h x ⟨v, hv, hx⟩
      exact (ih v hv).1 (h v hv) x hx
    · exact fun h v hv => (ih v hv).2 fun x hx => h x ⟨v, hv, hx⟩
  | nothing => simp [same, parts]

/-! ## What equal values share -/

theorem variant_of_same {a b : Value} (h : same a b = true) : a.variant = b.variant := by
  cases a <;> cases b <;> simp [same, variant] at h ⊢

/-- What equal items share, equal lists share item by item. -/
theorem map_of_same {α : Type} {f : Value → α} {xs ys : List Value}
    (hf : ∀ x ∈ xs, ∀ {y}, same x y = true → f x = f y)
    (h : List.Forall₂ (fun x y => same x y = true) xs ys) : xs.map f = ys.map f := by
  have hboth := (List.forall₂_and_left xs ys).2 ⟨fun x hx => @hf x hx, h⟩
  refine List.forall₂_eq_eq_eq ▸ ?_
  rw [List.forall₂_map_left_iff, List.forall₂_map_right_iff]
  exact hboth.imp fun x y hxy => hxy.1 hxy.2

theorem text_of_same {a b : Value} (h : same a b = true) : a.text = b.text := by
  induction a using Value.induction generalizing b with
  | boolean c =>
    cases same_boolean_iff.1 h
    rfl
  | number x =>
    obtain ⟨y, rfl, hxy⟩ := same_number_iff.1 h
    exact Number.text_of_beq hxy
  | string s =>
    cases same_string_iff.1 h
    rfl
  | array xs ih =>
    obtain ⟨ys, rfl, hall⟩ := same_array_iff.1 h
    rw [text, text, texts_eq_map, texts_eq_map, map_of_same ih hall]
  | nothing =>
    cases same_nothing_iff.1 h
    rfl

theorem depth_of_same {a b : Value} (h : same a b = true) : a.depth = b.depth := by
  induction a using Value.induction generalizing b with
  | array xs ih =>
    obtain ⟨ys, rfl, hall⟩ := same_array_iff.1 h
    rw [depth, depth, depths_eq_foldr, depths_eq_foldr, map_of_same ih hall]
  | _ =>
    cases b with
    | array ys => simp [same] at h
    | _ => rfl

/-! ## Equality with a bound -/

/-- A bounded comparison answers what equality says, or gives up on two values that nest deeper than its
bound. -/
def Bounded (room : Nat) (a b : Value) : Prop :=
  sameWithin room a b = some (same a b) ∨
    sameWithin room a b = none ∧ room < a.depth ∧ room < b.depth

theorem sameAllWithin_cases {room : Nat} {xs ys : List Value} (hlength : xs.length = ys.length)
    (h : ∀ x ∈ xs, ∀ y, Bounded room x y) : sameAllWithin room xs ys = some (sameAll xs ys) ∨
    sameAllWithin room xs ys = none ∧ room < depths xs ∧ room < depths ys := by
  induction xs generalizing ys with
  | nil =>
    obtain rfl := List.length_eq_zero_iff.1 hlength.symm
    exact .inl rfl
  | cons x xs ih =>
    cases ys with
    | nil => simp at hlength
    | cons y ys =>
      have ⟨hx, hxs⟩ := List.forall_mem_cons.1 h
      simp only [sameAllWithin, sameAll, depths, lt_sup_iff]
      rcases hx y with hanswer | ⟨hnone, hlt⟩
      · rw [hanswer]
        cases same x y with
        | false => exact .inl rfl
        | true =>
          rcases ih (Nat.succ.inj hlength) hxs with hrest | ⟨hrest, hlt⟩
          · exact .inl (by simpa using hrest)
          · exact .inr ⟨hrest, .inr hlt.1, .inr hlt.2⟩
      · rw [hnone]
        exact .inr ⟨rfl, .inl hlt.1, .inl hlt.2⟩

theorem bounded (room : Nat) (a b : Value) : Bounded room a b := by
  induction a using Value.induction generalizing room b with
  | array xs ih =>
    cases b with
    | array ys =>
      unfold Bounded
      by_cases hlength : xs.length = ys.length
      · cases room with
        | zero =>
          have hnone : sameWithin 0 (.array xs) (.array ys) = none := by simp [sameWithin, hlength]
          exact .inr ⟨hnone, Nat.succ_pos _, Nat.succ_pos _⟩
        | succ room =>
          have hitems : sameWithin (room + 1) (.array xs) (.array ys) = sameAllWithin room xs ys := by
            simp [sameWithin, hlength]
          rw [hitems, same, depth, depth, Nat.add_lt_add_iff_right, Nat.add_lt_add_iff_right]
          exact sameAllWithin_cases hlength fun x hx y => ih x hx room y
      · have hdiffer : sameAll xs ys = false := by
          rw [Bool.eq_false_iff, Ne, sameAll_iff]
          exact fun hall => hlength hall.length_eq
        exact .inl (by simp [sameWithin, hlength, same, hdiffer])
    | _ => exact .inl (by simp [sameWithin])
  | _ => exact .inl (by simp [sameWithin])

/-! ## The operators -/

/-- An operation fails with an error of this kind. -/
def FailsAs (kind : ErrorKind) (r : Result) : Prop :=
  ∃ cause, r = .error (.of cause) ∧ cause.kind = kind

theorem compare_of_variant {limit : Nat} {op : Op} {answer : Bool → Bool} {a b : Value}
    (h : a.variant = b.variant) : compare limit op answer a b =
      match sameWithin limit a b with
      | some eq => .ok (.boolean (answer eq))
      | none => .error .tooDeep :=
  if_pos h

theorem compare_failsAs_iff (limit : Nat) (op : Op) (answer : Bool → Bool) (a b : Value) :
    FailsAs .typeMismatch (compare limit op answer a b) ↔ a.variant ≠ b.variant := by
  constructor
  · rintro ⟨cause, hcompare, -⟩ hvariant
    rw [compare_of_variant hvariant] at hcompare
    cases hsame : sameWithin limit a b <;> simp [hsame, Failure.of] at hcompare
  · intro hvariant
    rw [compare, if_neg hvariant]
    exact ⟨_, rfl, rfl⟩

/-- **Equality is a partial equivalence that printing respects.** It is symmetric and transitive, and holds
between a value and itself exactly if NaN occurs nowhere in it. Equal values have one type and one text.
The operators `==` and `!=` refuse the same pairs, those of two types; on all others they answer
opposite things, or both give up on arrays that nest deeper than the limit. -/
theorem same_partial_equivalence :
    (∀ a b, same a b = same b a) ∧
    (∀ a b c, same a b = true → same b c = true → same a c = true) ∧
    (∀ a, same a a = true ↔ ∀ x, .number x ∈ a.parts → Number.shape x ≠ .nan) ∧
    (∀ a b, same a b = true → a.variant = b.variant ∧ a.text = b.text ∧
      ∀ limit, a.textWithin limit = b.textWithin limit) ∧
    ∀ limit a b,
      (FailsAs .typeMismatch (equal limit a b) ↔ a.variant ≠ b.variant) ∧
      (FailsAs .typeMismatch (notEqual limit a b) ↔ a.variant ≠ b.variant) ∧
      (a.variant = b.variant →
        equal limit a b = .ok (.boolean (same a b)) ∧ notEqual limit a b = .ok (.boolean !same a b) ∨
        limit < a.depth ∧ limit < b.depth ∧
          equal limit a b = .error .tooDeep ∧ notEqual limit a b = .error .tooDeep) := by
  refine ⟨same_comm, fun a b c => same_trans, fun a => same_self_iff, fun a b h => ?_,
    fun limit a b => ⟨compare_failsAs_iff .., compare_failsAs_iff .., fun h => ?_⟩⟩
  · have htext := text_of_same h
    refine ⟨variant_of_same h, htext, fun limit => ?_⟩
    rw [textWithin, textWithin, depth_of_same h, htext]
  · unfold equal notEqual
    rw [compare_of_variant h, compare_of_variant h]
    rcases bounded limit a b with hanswer | ⟨hnone, ha, hb⟩
    · rw [hanswer]
      exact .inl ⟨rfl, rfl⟩
    · rw [hnone]
      exact .inr ⟨ha, hb, rfl, rfl⟩

/-- Both zeros are one, also in an array, and print alike; an array with NaN deep in it differs from
itself. -/
theorem same_partial_equivalence_zeros_and_nan :
    let zeros (zero : Number) : Value := .array [.number zero, .array [.string "0", .number 1]]
    let odd : Value := .array [.boolean true, .array [.number Number.notANumber]]
    (same (zeros 0) (zeros (-0)) = true ∧ (zeros 0).text = (zeros (-0)).text) ∧
    (same odd odd = false ∧ equal 2 odd odd = .ok (.boolean false) ∧
      notEqual 2 odd odd = .ok (.boolean true)) := by
  intro zeros odd
  obtain ⟨-, -, hself, hshared, hoperators⟩ := same_partial_equivalence
  have hzeros : same (zeros 0) (zeros (-0)) = true := by decide
  have hodd : same odd odd = false := by
    refine Bool.eq_false_iff.2 fun h => ?_
    exact (hself odd).1 h Number.notANumber (by simp [odd, parts, allParts]) (by decide)
  refine ⟨⟨hzeros, (hshared _ _ hzeros).2.1⟩, hodd, ?_⟩
  rcases (hoperators 2 odd odd).2.2 rfl with ⟨hequal, hnotEqual⟩ | ⟨hdepth, -⟩
  · rw [hequal, hnotEqual, hodd]
    exact ⟨rfl, rfl⟩
  · exact absurd hdepth (by decide)

end Value

end Parlance
