import Parlance.Function
import Parlance.Proofs.Token.Proper

/-!
# Numbers read back

Every number is read back from its text, infinite ones and NaN too. Only negative zero, whose text shows
no sign, comes back as the other zero, which is equal to it and has the same text (`exists_read?_text`).
So `num` undoes `str`, and the scanner finds one token in the text of a number without a minus
(`number_read_back`).
-/

namespace Parlance

namespace Number

/-! ## Equal numbers -/

theorem unpacked_compare_self {u : Float.Model.UnpackedFloat} (h : u ≠ .notANumber) :
    u.compare u = some .eq := by
  cases u with
  | notANumber => exact absurd rfl h
  | infinity sign => cases sign <;> rfl
  | zero sign => rfl
  | finite sign mantissa exponent hpos =>
    cases sign <;> simp [Float.Model.UnpackedFloat.compare, Std.ReflCmp.compare_self]

theorem unpack_ne_notANumber {x : Number} (h : shape x ≠ .nan) : x.toModel.unpack ≠ .notANumber := by
  have hle := magnitude_le_of_shape h
  unfold Float.Model.unpack Float.Model.UnpackedFloat.unpack
  dsimp only
  split
  · rename_i hones
    split
    · simp
    · rename_i hmantissa
      exact absurd (mantissaPart_eq_zero hle hones) hmantissa
  · split
    · split <;> simp
    · simp

/-- A number equals itself unless it is NaN. -/
theorem beq_self {x : Number} (h : shape x ≠ .nan) : (x == x) = true := by
  show (x.toModel.unpack.compare x.toModel.unpack == some .eq) = true
  rw [unpacked_compare_self (unpack_ne_notANumber h)]
  rfl

/-! ## Reading a text -/

theorem text_of_infinite {x : Number} {negative : Bool} (h : shape x = .infinite negative) :
    text x = signed negative "inf".toList := by
  simp [text, toInt?, plain, h]

theorem text_of_nan {x : Number} (h : shape x = .nan) : text x = "nan" := by
  simp [text, toInt?, plain, h]

theorem text_of_zero {x : Number} {negative : Bool} {s : Nat} (h : shape x = .finite negative 0 s) :
    text x = "0" := by
  cases negative <;> simp [text, toInt?, h] <;> rfl

/-- **A number is read back from its text**, but for the sign of zero. -/
theorem read?_text_of_ne {x : Number} (h : shape x ≠ .finite true 0 0) : read? (text x) = some x := by
  cases hshape : shape x with
  | nan =>
    rw [text_of_nan hshape, eq_notANumber hshape]
    rfl
  | infinite negative =>
    rw [text_of_infinite hshape, eq_infinity hshape]
    cases negative <;> rfl
  | finite negative m s =>
    obtain ⟨hc, hx⟩ := eq_ofMagnitude hshape
    have hsign : (negative && m != 0) = negative := by
      cases negative with
      | false => rfl
      | true =>
        have hm : m ≠ 0 := by
          rintro rfl
          have hs : s = 0 := Nat.eq_zero_of_not_pos fun hs => absurd (hc.full hs) (by decide)
          exact h (by rw [hshape, hs])
        rw [bne_iff_ne.2 hm, Bool.and_true]
    rw [read?_text_of_finite hshape, hsign, ← hx]

/-- The number that is read from the text of `x`: it equals `x`, and its text is the same. -/
theorem exists_read?_text (x : Number) : ∃ y, read? (text x) = some y ∧
    (shape x ≠ .nan → (y == x) = true) ∧ (shape x ≠ .finite true 0 0 → y = x) ∧ text y = text x := by
  by_cases h : shape x = .finite true 0 0
  · obtain ⟨-, hx⟩ := eq_ofMagnitude h
    have hzero : shape (ofMagnitude false 0) = .finite false 0 0 := shape_ofMagnitude (Nat.zero_le _)
    refine ⟨ofMagnitude false 0, ?_, fun _ => ?_, fun hne => absurd h hne, ?_⟩
    · rw [read?_text_of_finite h]
      rfl
    · rw [hx]
      decide
    · rw [text_of_zero hzero, text_of_zero h]
  · exact ⟨x, read?_text_of_ne h, beq_self, fun _ => rfl, rfl⟩

end Number

/-! ## The functions and the scanner -/

namespace Registry

theorem call_of_apply {r : Registry} {name : String} {f : Function} {args : List Value} {v : Value}
    (hf : r.find? name = some f) (harity : f.arity.all (· == (args.length : Int)) = true)
    (h : f.apply args = .ok v) : r.call name args = .ok v := by
  unfold call
  rw [hf]
  dsimp only
  rw [if_pos harity, h]

theorem call_str_number (limit : Nat) (x : Number) :
    (standard limit).call "str" [.number x] = .ok (.string (Number.text x)) := by
  refine call_of_apply (f := .str limit) rfl rfl ?_
  have htext : (Value.number x).textWithin limit = .ok (Number.text x) := by
    simp [Value.textWithin, Value.depth, Value.text]
  simp only [Function.str, Function.ofOne, htext]

theorem call_num_string (limit : Nat) {s : String} {x : Number} (h : Number.read? s = some x) :
    (standard limit).call "num" [.string s] = .ok (.number x) := by
  refine call_of_apply (f := .num) rfl rfl ?_
  simp only [Function.num, Function.ofOne, h]

end Registry

theorem scan_number_text {x : Number} (h : x.IsPositive) :
    scan (Number.text x) =
      .ok [⟨.number, Number.text x, .number x, 1⟩, Token.endOfInput 1] := by
  obtain ⟨m, s, hshape⟩ := h
  have hscan := Token.scans_number hshape 1 [] ⟨rfl, rfl, rfl⟩
  rw [List.append_nil, Token.scanFrom_nil] at hscan
  exact hscan

/-- **Numbers are read back from their texts.** `num` takes the text that `str` gives for a number to an
equal number, to the same one unless it is negative zero, and `str` gives the same text for it; and the
scanner finds one token, with that number, in the text of a finite number without a minus. -/
theorem number_read_back (limit : Nat) (x : Number) :
    let str (v : Value) := (Registry.standard limit).call "str" [v]
    let num (v : Value) := (Registry.standard limit).call "num" [v]
    str (.number x) = .ok (.string (Number.text x)) ∧
    (∃ y, (str (.number x) >>= num) = .ok (.number y) ∧
      (Number.shape x ≠ .nan → (y == x) = true) ∧ (Number.shape x ≠ .finite true 0 0 → y = x)) ∧
    (str (.number x) >>= num >>= str) = str (.number x) ∧
    (x.IsPositive → scan (Number.text x) =
      .ok [⟨.number, Number.text x, .number x, 1⟩, Token.endOfInput 1]) := by
  intro str num
  have hstr (z : Number) : str (.number z) = .ok (.string (Number.text z)) :=
    Registry.call_str_number limit z
  obtain ⟨y, hread, hequal, hsame, htext⟩ := Number.exists_read?_text x
  have hbind (v : Value) (f : Value → Result) : ((.ok v : Result) >>= f) = f v := rfl
  have hnum : (str (.number x) >>= num) = .ok (.number y) := by
    rw [hstr, hbind]
    exact Registry.call_num_string limit hread
  refine ⟨hstr x, ⟨y, hnum, hequal, hsame⟩, ?_, scan_number_text⟩
  rw [hnum, hbind, hstr x, hstr y, htext]

/-- The least number above zero, a subnormal one with an exponent of three digits. -/
theorem number_read_back_least :
    let x := Number.ofMagnitude false 1
    Number.shape x ≠ .nan ∧ Number.shape x ≠ .finite true 0 0 ∧ x.IsPositive ∧
      (Registry.standard 400).call "str" [.number x] = .ok (.string "5e-324") ∧
      (Registry.standard 400).call "num" [.string "5e-324"] = .ok (.number x) ∧
      scan "5e-324" = .ok [⟨.number, "5e-324", .number x, 1⟩, Token.endOfInput 1] := by
  intro x
  have hshape : Number.shape x = .finite false 1 0 := Number.shape_ofMagnitude (by decide)
  have hnan : Number.shape x ≠ .nan := by simp [hshape]
  have hzero : Number.shape x ≠ .finite true 0 0 := by simp [hshape]
  have htext : Number.text x = "5e-324" := by decide +kernel
  obtain ⟨hstr, ⟨y, hnum, -, hsame⟩, -, hscan⟩ := number_read_back 400 x
  rw [hstr, hsame hzero] at hnum
  rw [htext] at hstr hnum hscan
  exact ⟨hnan, hzero, ⟨1, 0, hshape⟩, hstr, hnum, hscan ⟨1, 0, hshape⟩⟩

end Parlance
