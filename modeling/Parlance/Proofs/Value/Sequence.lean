import Parlance.Proofs.Number.Sum
import Parlance.Proofs.Value.Equality

/-!
# Sequences

Arrays and strings are sequences: of their items, and of their characters (`Value.items?`). An index is
a whole number and counts from the start, or from the end when it is negative (`itemAt_eq_ok_iff`). What
indices find in the sum of two sequences is told by `itemAt_append_start` and the three lemmas after it.
-/

namespace Parlance.Value

/-- The items of a sequence: those of an array, the characters of a string. -/
def items? : Value → Option (List Value)
  | .array items => some items
  | .string s => some (characters s)
  | _ => none

section Sequence

variable {a : Value} {xs : List Value} (ha : items? a = some xs)
include ha

theorem index_eq_itemAt (i : Number) : index a (.number i) = itemAt xs i := by
  cases a with
  | array items =>
    obtain rfl := Option.some.inj ha
    rfl
  | string s =>
    obtain rfl := Option.some.inj ha
    rfl
  | _ => nomatch ha

theorem length?_eq : length? a = some xs.length := by
  cases a with
  | array items =>
    obtain rfl := Option.some.inj ha
    rfl
  | string s =>
    obtain rfl := Option.some.inj ha
    rw [characters, List.length_map, String.length_toList]
    rfl
  | _ => nomatch ha

theorem access_length : access a "length" = .ok (ofLength xs.length) := by
  have hlength := length?_eq ha
  cases a with
  | array items =>
    rw [← Option.some.inj hlength]
    rfl
  | string s =>
    rw [← Option.some.inj hlength]
    rfl
  | _ => nomatch ha

theorem call_len (limit : Nat) : (Registry.standard limit).call "len" [a] = .ok (ofLength xs.length) := by
  refine Registry.call_of_apply (f := .len) rfl rfl ?_
  simp only [Function.len, Function.ofOne, length?_eq ha]

end Sequence

theorem characters_append (s t : String) : characters (s ++ t) = characters s ++ characters t := by
  rw [characters, String.toList_append, List.map_append]
  rfl

/-- Adding two sequences of one type puts their items one after the other. -/
theorem add_items {a b : Value} {xs ys : List Value} (hvariant : a.variant = b.variant)
    (ha : items? a = some xs) (hb : items? b = some ys) :
    ∃ c, add a b = .ok c ∧ c.variant = a.variant ∧ items? c = some (xs ++ ys) := by
  cases a with
  | array items =>
    cases b with
    | array items' =>
      obtain rfl := Option.some.inj ha
      obtain rfl := Option.some.inj hb
      exact ⟨_, rfl, rfl, rfl⟩
    | _ => nomatch hvariant
  | string s =>
    cases b with
    | string t =>
      obtain rfl := Option.some.inj ha
      obtain rfl := Option.some.inj hb
      exact ⟨_, rfl, rfl, congrArg some (characters_append s t)⟩
    | _ => nomatch hvariant
  | _ => nomatch ha

/-! ## Places -/

/-- An index that a sequence of some length has. -/
def HasIndex (length : Nat) (k : Int) : Prop := -(length : Int) ≤ k ∧ k < length

/-- The place of an index, counted from the end when it is negative. -/
def place (length : Nat) (k : Int) : Nat := (if k < 0 then length + k else k).toNat

theorem place?_of_hasIndex {length : Nat} {k : Int} (h : HasIndex length k) :
    place? length k = some (place length k) ∧ place length k < length := by
  obtain ⟨hlow, hhigh⟩ := h
  unfold place? place
  split
  · simp
    omega
  · simp
    omega

theorem place?_of_not_hasIndex {length : Nat} {k : Int} (h : ¬HasIndex length k) :
    place? length k = none := by
  unfold HasIndex at h
  unfold place?
  split <;> simp <;> omega

theorem itemAt_of_hasIndex {items : List Value} {i : Number} {k : Int} (hi : Number.toInt? i = some k)
    (h : HasIndex items.length k) :
    ∃ v, items[place items.length k]? = some v ∧ itemAt items i = .ok v := by
  obtain ⟨hplace, hlt⟩ := place?_of_hasIndex h
  refine ⟨items[place items.length k], List.getElem?_eq_getElem hlt, ?_⟩
  unfold itemAt
  rw [hi]
  dsimp only
  rw [hplace, Option.bind_some, List.getElem?_eq_getElem hlt]

theorem itemAt_failsAs {items : List Value} {i : Number}
    (h : ∀ k, Number.toInt? i = some k → ¬HasIndex items.length k) : FailsAs .shape (itemAt items i) := by
  unfold itemAt
  cases hi : Number.toInt? i with
  | none => exact ⟨_, rfl, rfl⟩
  | some k =>
    dsimp only
    rw [place?_of_not_hasIndex (h k hi), Option.bind_none]
    exact ⟨_, rfl, rfl⟩

/-- Two indices at which two sequences have the same item. -/
theorem itemAt_eq {xs ys : List Value} {i j : Number} {k l : Int} (hi : Number.toInt? i = some k)
    (hj : Number.toInt? j = some l) (hk : HasIndex xs.length k) (hl : HasIndex ys.length l)
    (h : xs[place xs.length k]? = ys[place ys.length l]?) : itemAt xs i = itemAt ys j := by
  obtain ⟨v, hv, hitem⟩ := itemAt_of_hasIndex hi hk
  obtain ⟨w, hw, hitem'⟩ := itemAt_of_hasIndex hj hl
  rw [hitem, hitem', Option.some.inj (hv.symm.trans (h.trans hw))]

theorem itemAt_eq_ok_iff {items : List Value} {i : Number} {k : Int} (hi : Number.toInt? i = some k)
    {v : Value} :
    itemAt items i = .ok v ↔ HasIndex items.length k ∧ items[place items.length k]? = some v := by
  by_cases h : HasIndex items.length k
  · obtain ⟨w, hw, hitem⟩ := itemAt_of_hasIndex hi h
    rw [hitem, hw]
    simp [h]
  · have hfails : FailsAs .shape (itemAt items i) := itemAt_failsAs fun l hl => by
      rwa [← Option.some.inj (hi.symm.trans hl)]
    obtain ⟨cause, hitem, -⟩ := hfails
    rw [hitem]
    simp [h]

/-- `.first` is the item at `0`, if there is one. -/
theorem access_first_iff {items : List Value} {i : Number} (hi : Number.toInt? i = some 0) {v : Value} :
    access (.array items) "first" = .ok v ↔ itemAt items i = .ok v := by
  rw [itemAt_eq_ok_iff hi]
  cases items with
  | nil => simp [access, HasIndex]
  | cons first rest =>
    have hindex : HasIndex (rest.length + 1) 0 := ⟨by omega, by omega⟩
    simp [access, place, hindex]

/-- `.last` is the item at `-1`, if there is one. -/
theorem access_last_iff {items : List Value} {i : Number} (hi : Number.toInt? i = some (-1))
    {v : Value} : access (.array items) "last" = .ok v ↔ itemAt items i = .ok v := by
  rw [itemAt_eq_ok_iff hi]
  have hlast : access (.array items) "last" = .ok v ↔ items[items.length - 1]? = some v := by
    rw [← List.getLast?_eq_getElem?]
    cases h : items.getLast? <;> simp [access, h]
  have hplace : place items.length (-1) = items.length - 1 := by
    unfold place
    rw [if_pos (by decide)]
    omega
  rw [hlast, hplace, iff_and_self]
  intro hv
  have := (List.getElem?_eq_some_iff.1 hv).1
  exact ⟨by omega, by omega⟩

/-! ## Two sequences as one -/

section Append

variable {xs ys : List Value} {i : Number} {k : Int} (hi : Number.toInt? i = some k)
include hi

theorem itemAt_append_start (hlow : 0 ≤ k) (hhigh : k < xs.length) :
    itemAt (xs ++ ys) i = itemAt xs i := by
  refine itemAt_eq hi hi ⟨by omega, by simp; omega⟩ ⟨by omega, hhigh⟩ ?_
  rw [place, place, if_neg (by omega), if_neg (by omega)]
  exact List.getElem?_append_left (by omega)

theorem itemAt_append_end (hlow : -(ys.length : Int) ≤ k) (hhigh : k < 0) :
    itemAt (xs ++ ys) i = itemAt ys i := by
  refine itemAt_eq hi hi ⟨by simp; omega, by omega⟩ ⟨hlow, by omega⟩ ?_
  rw [place, place, if_pos hhigh, if_pos hhigh, List.getElem?_append_right (by simp; omega)]
  congr 1
  simp
  omega

/-- Past the first sequence the index goes on in the second one, less the length of the first. -/
theorem itemAt_append_sub {j : Number} (hj : Number.toInt? j = some (k - xs.length))
    (hlow : xs.length ≤ k) (hhigh : k < xs.length + ys.length) :
    itemAt (xs ++ ys) i = itemAt ys j := by
  refine itemAt_eq hi hj ⟨by omega, by simp; omega⟩ ⟨by omega, by omega⟩ ?_
  rw [place, place, if_neg (by omega), if_neg (by omega), List.getElem?_append_right (by omega)]
  congr 1
  omega

/-- Before the second sequence the index goes on in the first one, plus the length of the second. -/
theorem itemAt_append_add {j : Number} (hj : Number.toInt? j = some (k + ys.length))
    (hlow : -((xs.length : Int) + ys.length) ≤ k) (hhigh : k < -(ys.length : Int)) :
    itemAt (xs ++ ys) i = itemAt xs j := by
  refine itemAt_eq hi hj ⟨by simp; omega, by omega⟩ ⟨by omega, by omega⟩ ?_
  rw [place, place, if_pos (by omega), if_pos (by omega), List.getElem?_append_left (by simp; omega)]
  congr 1
  simp
  omega

end Append

/-- **Indexing, fields, lengths and concatenation agree.** For two arrays or two strings with fewer than
`2 ^ 53` items each: an index finds the item at its place exactly if it is a whole number that the
sequence has, and every other number is an error of shape; `.length` and `len` tell the length; `.first`
and `.last` are the items at `0` and `-1`, and there are none where those indices fail. The sum of the two
is one sequence of all their items. Its length is the sum of the lengths, and an index on either side of
the seam finds what the script finds in the two parts, if it takes the length of the first part from the
index or adds that of the second. -/
theorem sequences_agree {a b : Value} {xs ys : List Value} (hvariant : a.variant = b.variant)
    (ha : items? a = some xs) (hb : items? b = some ys) (hxs : xs.length < 2 ^ 53)
    (hys : ys.length < 2 ^ 53) :
    (∀ i : Number,
      (∀ k : Int, Number.value? i = some (k : ℚ) → HasIndex xs.length k →
        ∃ v, xs[place xs.length k]? = some v ∧ index a (.number i) = .ok v) ∧
      ((¬∃ k : Int, Number.value? i = some (k : ℚ) ∧ HasIndex xs.length k) →
        FailsAs .shape (index a (.number i)))) ∧
    (∀ limit, (Registry.standard limit).call "len" [a] = .ok (ofLength xs.length) ∧
      access a "length" = .ok (ofLength xs.length)) ∧
    (a.variant = .array → ∀ i : Number, ∀ v,
      (Number.value? i = some 0 → (access a "first" = .ok v ↔ index a (.number i) = .ok v)) ∧
      (Number.value? i = some (-1) → (access a "last" = .ok v ↔ index a (.number i) = .ok v))) ∧
    ∃ c, add a b = .ok c ∧ c.variant = a.variant ∧ items? c = some (xs ++ ys) ∧
      add (ofLength xs.length) (ofLength ys.length) = access c "length" ∧
      ∀ (i : Number) (k : Int), Number.value? i = some (k : ℚ) →
        (0 ≤ k → k < xs.length → index c (.number i) = index a (.number i)) ∧
        (xs.length ≤ k → k < xs.length + ys.length →
          ∃ j, subtract (.number i) (ofLength xs.length) = .ok (.number j) ∧
            Number.value? j = some ((k - xs.length : Int) : ℚ) ∧
            index c (.number i) = index b (.number j)) ∧
        (-(ys.length : Int) ≤ k → k < 0 → index c (.number i) = index b (.number i)) ∧
        (-((xs.length : Int) + ys.length) ≤ k → k < -(ys.length : Int) →
          ∃ j, add (.number i) (ofLength ys.length) = .ok (.number j) ∧
            Number.value? j = some ((k + ys.length : Int) : ℚ) ∧
            index c (.number i) = index a (.number j)) := by
  have hzero (i : Number) : Number.value? i = some 0 ↔ Number.toInt? i = some 0 := by
    simpa using (Number.toInt?_eq_some_iff (x := i) (k := 0)).symm
  have hlast (i : Number) : Number.value? i = some (-1) ↔ Number.toInt? i = some (-1) := by
    simpa using (Number.toInt?_eq_some_iff (x := i) (k := -1)).symm
  simp only [hzero, hlast, ← Number.toInt?_eq_some_iff]
  refine ⟨fun i => ?_, fun limit => ⟨call_len ha limit, access_length ha⟩, fun harray i v => ?_, ?_⟩
  · rw [index_eq_itemAt ha]
    exact ⟨fun k hi => itemAt_of_hasIndex hi, fun h => itemAt_failsAs fun k hi hk => h ⟨k, hi, hk⟩⟩
  · cases a with
    | array items =>
      obtain rfl := Option.some.inj ha
      exact ⟨fun hi => access_first_iff hi, fun hi => access_last_iff hi⟩
    | _ => nomatch harray
  · obtain ⟨c, hadd, hc, hitems⟩ := add_items hvariant ha hb
    have hlength : access c "length" = .ok (ofLength (xs.length + ys.length)) := by
      rw [access_length hitems, List.length_append]
    refine ⟨c, hadd, hc, hitems, ?_, fun i k hi => ?_⟩
    · rw [hlength]
      exact congrArg (fun n => (.ok (.number n) : Result)) (Number.ofNat_add_ofNat hxs hys)
    · simp only [index_eq_itemAt ha, index_eq_itemAt hb, index_eq_itemAt hitems]
      refine ⟨itemAt_append_start hi, fun hlow hhigh => ?_, itemAt_append_end hi, fun hlow hhigh => ?_⟩
      · have hj := (Number.rounds_sub_whole hi (Number.toInt?_ofNat hxs)).toInt? (by omega)
        exact ⟨_, rfl, hj, itemAt_append_sub hi hj hlow hhigh⟩
      · have hj := (Number.rounds_add_whole hi (Number.toInt?_ofNat hys)).toInt? (by omega)
        exact ⟨_, rfl, hj, itemAt_append_add hi hj hlow hhigh⟩

/-- The third character of `né` and `€` together is the first of `€`, and the first from the end that
`€` lacks is the last of `né`. -/
theorem sequences_agree_two_words :
    ∃ c, add (.string "né") (.string "€") = .ok c ∧
      access c "length" = .ok (ofLength 3) ∧
      (∃ j, subtract (.number 2) (ofLength 2) = .ok (.number j) ∧
        Number.value? j = some 0 ∧ index c (.number 2) = index (.string "€") (.number j)) ∧
      ∃ j, add (.number (-2)) (ofLength 1) = .ok (.number j) ∧
        Number.value? j = some (-1) ∧ index c (.number (-2)) = index (.string "né") (.number j) := by
  have htwo : Number.value? 2 = some ((2 : Int) : ℚ) := Number.toInt?_eq_some_iff.1 (by decide +kernel)
  have hback : Number.value? (-2) = some ((-2 : Int) : ℚ) := Number.toInt?_eq_some_iff.1 (by decide +kernel)
  obtain ⟨-, -, -, c, hadd, -, hitems, -, hindex⟩ := sequences_agree
    (a := .string "né") (b := .string "€") rfl rfl rfl (by decide) (by decide)
  have hfirst : (characters "né").length = 2 := rfl
  have hsecond : (characters "€").length = 1 := rfl
  rw [hfirst, hsecond] at hindex
  refine ⟨c, hadd, by rw [access_length hitems, List.length_append, hfirst, hsecond], ?_, ?_⟩
  · have hseam := (hindex 2 2 htwo).2.1 (by decide) (by decide)
    norm_num at hseam
    exact hseam
  · have hseam := (hindex (-2) (-2) hback).2.2.2 (by decide) (by decide)
    norm_num at hseam
    exact hseam

end Parlance.Value
