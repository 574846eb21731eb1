import Parlance.Proofs.Token.Terminal

/-!
# Every number is a numeral

The scanner has its own rule for the text of a number, and the value comes from reading that text as a
numeral. Whatever the scanner takes for a number, in the digits of any script, can be read
(`exists_read?_of_mem_number`).
-/

open scoped Computability

namespace Parlance.Token

open Terminal Number Number.Numeral
open Number.Spelling (strip_eq_self joinDigits_eq_self span_digits map_toLower_ne)

/-! ## In the digits of ASCII -/

/-- A character of a number, which reading may write in ASCII but leaves in its place. -/
structure Narrows (c : Char) : Prop where
  ascii : c.toNat < 128 → narrow c = c
  isPadding : isPadding (narrow c) = false
  ne_underscore : narrow c ≠ '_'

theorem narrows_of_isDigit {c : Char} (h : Text.isDigit c = true) : Narrows c := by
  have hdigit := isAsciiDigit_narrow h
  have hmark : Spelling.IsMark (narrow c) := .inl hdigit
  refine ⟨fun hascii => if_pos ?_, hmark.isPadding, hmark.toNat.2.2⟩
  obtain ⟨start, hmem, hlow, hhigh, -⟩ := digit?_eq_some h
  have hstart := zeros_of_ascii start hmem (by omega)
  omega

theorem narrows_of_mem {c : Char} (h : c ∈ ['.', 'e', 'E', '+', '-']) : Narrows c := by
  obtain ⟨hlow, hpadding, hne⟩ : c.toNat < 127 ∧ isPadding c = false ∧ c ≠ '_' := by
    simp only [List.mem_cons, List.not_mem_nil, or_false] at h
    rcases h with rfl | rfl | rfl | rfl | rfl <;> decide
  have hself : narrow c = c := if_pos hlow
  exact ⟨fun _ => hself, by rwa [hself], by rwa [hself]⟩

theorem narrows_of_mem_number {w : List Char} (h : w ∈ number) : ∀ c ∈ w, Narrows c := by
  have hdigits {ds : List Char} (hds : ds ∈ digits) : ∀ c ∈ ds, Narrows c := fun c hc =>
    narrows_of_isDigit ((mem_digits.1 hds).2 c hc)
  obtain ⟨u, hu, t, ht, rfl⟩ := Language.mem_mul.1 h
  obtain ⟨whole, hwhole, f, hf, rfl⟩ := Language.mem_mul.1 hu
  intro c hc
  rcases List.mem_append.1 hc with hc | hc
  · rcases List.mem_append.1 hc with hc | hc
    · exact hdigits hwhole c hc
    · rcases mem_fraction.1 hf with rfl | ⟨ds, hds, rfl⟩
      · cases hc
      · rcases List.mem_cons.1 hc with rfl | hc
        · exact narrows_of_mem (by decide)
        · exact hdigits hds c hc
  · rcases mem_exponent.1 ht with rfl | ⟨mark, sign, ds, hmark, hsign, hds, rfl⟩
    · cases hc
    · rcases List.mem_cons.1 hc with rfl | hc
      · rcases eq_of_isMark hmark with rfl | rfl <;> exact narrows_of_mem (by decide)
      · rcases List.mem_append.1 hc with hc | hc
        · refine narrows_of_mem ?_
          rcases hsign with rfl | rfl | rfl
          · cases hc
          · simp_all
          · simp_all
        · exact hdigits hds c hc

/-- Before the sign is split off, a number is only written in ASCII. -/
theorem joinDigits_number {w : List Char} (h : ∀ c ∈ w, Narrows c) :
    joinDigits (Text.strip isPadding (toAscii w)) = some (w.map narrow) := by
  have hascii : toAscii w = w.map narrow := by
    unfold toAscii
    split
    · rename_i hall
      have hself : w.map narrow = w.map id := List.map_congr_left fun c hc =>
        (h c hc).ascii (of_decide_eq_true (List.all_eq_true.1 hall c hc))
      rw [hself, List.map_id]
    · rfl
  rw [hascii, strip_eq_self, joinDigits_eq_self]
  · simp only [List.mem_map, not_exists, not_and]
    exact fun c hc => (h c hc).ne_underscore
  · simp only [List.mem_map, forall_exists_index, and_imp, forall_apply_eq_imp_iff₂]
    exact fun c hc => (h c hc).isPadding

/-! ## The parts in ASCII -/

def AsciiDigits (ds : List Char) : Prop := ds ≠ [] ∧ ∀ c ∈ ds, isAsciiDigit c = true

def AsciiFraction (f : List Char) : Prop := f = [] ∨ ∃ ds, AsciiDigits ds ∧ f = '.' :: ds

def AsciiExponent (t : List Char) : Prop :=
  t = [] ∨ ∃ mark sign ds, isMark mark = true ∧ (sign = [] ∨ sign = ['+'] ∨ sign = ['-']) ∧
    AsciiDigits ds ∧ t = mark :: (sign ++ ds)

theorem asciiDigits_map_narrow {ds : List Char} (h : ds ∈ digits) : AsciiDigits (ds.map narrow) := by
  obtain ⟨hne, hdigits⟩ := mem_digits.1 h
  refine ⟨by simpa using hne, fun c hc => ?_⟩
  obtain ⟨d, hd, rfl⟩ := List.mem_map.1 hc
  exact isAsciiDigit_narrow (hdigits d hd)

theorem asciiFraction_map_narrow {f : List Char} (h : f ∈ fraction) :
    AsciiFraction (f.map narrow) := by
  rcases mem_fraction.1 h with rfl | ⟨ds, hds, rfl⟩
  · exact .inl rfl
  · exact .inr ⟨_, asciiDigits_map_narrow hds, rfl⟩

theorem asciiExponent_map_narrow {t : List Char} (h : t ∈ exponent) :
    AsciiExponent (t.map narrow) := by
  rcases mem_exponent.1 h with rfl | ⟨mark, sign, ds, hmark, hsign, hds, rfl⟩
  · exact .inl rfl
  · refine .inr ⟨mark, sign, ds.map narrow, hmark, hsign, asciiDigits_map_narrow hds, ?_⟩
    rcases eq_of_isMark hmark with rfl | rfl <;> rcases hsign with rfl | rfl | rfl <;> rfl

theorem AsciiExponent.head {c : Char} {cs : List Char} (h : AsciiExponent (c :: cs)) :
    c = 'e' ∨ c = 'E' := by
  rcases h with h | ⟨mark, sign, ds, hmark, -, -, h⟩
  · cases h
  · rw [(List.cons.inj h).1]
    exact eq_of_isMark hmark

/-! ## Reading -/

theorem AsciiExponent.exists_readExponent {t : List Char} (h : AsciiExponent t) :
    ∃ e, readExponent t = some e := by
  rcases h with rfl | ⟨mark, sign, ds, hmark, hsign, ⟨hne, hdigits⟩, rfl⟩
  · exact ⟨0, rfl⟩
  · obtain ⟨negative, hsplit⟩ : ∃ negative, splitSign (sign ++ ds) = (negative, ds) := by
      rcases hsign with rfl | rfl | rfl
      · obtain ⟨d, rest, rfl⟩ := List.exists_cons_of_ne_nil hne
        exact ⟨false, splitSign_of_isAsciiDigit (hdigits d (by simp)) rest⟩
      · exact ⟨false, rfl⟩
      · exact ⟨true, rfl⟩
    have hmark : (mark == 'e' || mark == 'E') = true := hmark
    have hall : (ds.isEmpty || !ds.all isAsciiDigit) = false := by
      rw [List.all_eq_true.2 hdigits]
      simpa using hne
    unfold readExponent
    simp only [hmark, if_true, hsplit, hall, Bool.false_eq_true, if_false]
    exact ⟨_, rfl⟩

theorem AsciiFraction.exists_splitFraction {f t : List Char} (hf : AsciiFraction f)
    (ht : AsciiExponent t) : ∃ ds, splitFraction (f ++ t) = (ds, t) := by
  rcases hf with rfl | ⟨ds, hds, rfl⟩
  · refine ⟨[], ?_⟩
    unfold splitFraction
    split
    · rename_i htail
      rw [List.nil_append] at htail
      subst htail
      rcases ht.head with hdot | hdot <;> cases hdot
    · rfl
  · refine ⟨ds, span_digits hds.2 ?_⟩
    rintro c cs rfl
    rcases ht.head with rfl | rfl <;> rfl

theorem span_whole {whole f t : List Char} (hwhole : AsciiDigits whole) (hf : AsciiFraction f)
    (ht : AsciiExponent t) : (whole ++ (f ++ t)).span isAsciiDigit = (whole, f ++ t) := by
  refine span_digits hwhole.2 fun c cs htail => ?_
  rcases hf with rfl | ⟨ds, -, rfl⟩
  · rw [List.nil_append] at htail
    subst htail
    rcases ht.head with rfl | rfl <;> rfl
  · rw [← (List.cons.inj htail).1]
    rfl

theorem exists_readUnsigned {whole f t : List Char} (hwhole : AsciiDigits whole)
    (hf : AsciiFraction f) (ht : AsciiExponent t) :
    ∃ numeral, readUnsigned false (whole ++ (f ++ t)) = some numeral := by
  have hspan := span_whole hwhole hf ht
  obtain ⟨ds, hsplit⟩ := hf.exists_splitFraction ht
  obtain ⟨e, he⟩ := ht.exists_readExponent
  obtain ⟨c, cs, rfl⟩ := List.exists_cons_of_ne_nil hwhole.1
  have hc := hwhole.2 c (by simp)
  unfold readUnsigned
  dsimp only
  rw [hspan, List.cons_append, if_neg (map_toLower_ne hc rfl), if_neg]
  · simp only [hsplit, he, List.isEmpty_cons, Bool.false_and, Bool.false_eq_true, if_false,
      Option.map_some]
    exact ⟨_, rfl⟩
  · rw [Bool.or_eq_true, decide_eq_true_eq, decide_eq_true_eq]
    exact fun h => h.elim (map_toLower_ne hc rfl) (map_toLower_ne hc rfl)

/-- **A number can be read.** -/
theorem exists_read?_of_mem_number {w : List Char} (h : w ∈ number) :
    ∃ x, Number.read? (String.ofList w) = some x := by
  have hjoin := joinDigits_number (narrows_of_mem_number h)
  obtain ⟨u, hu, t, ht, rfl⟩ := Language.mem_mul.1 h
  obtain ⟨whole, hwhole, f, hf, rfl⟩ := Language.mem_mul.1 hu
  have hascii := asciiDigits_map_narrow hwhole
  obtain ⟨numeral, hread⟩ :=
    exists_readUnsigned hascii (asciiFraction_map_narrow hf) (asciiExponent_map_narrow ht)
  obtain ⟨c, cs, hcs⟩ := List.exists_cons_of_ne_nil hascii.1
  have hsign : splitSign ((whole ++ f ++ t).map narrow) = (false, (whole ++ f ++ t).map narrow) := by
    have hc := hascii.2 c (by simp [hcs])
    rw [List.append_assoc, List.map_append, hcs]
    exact splitSign_of_isAsciiDigit hc _
  refine ⟨numeral.value, ?_⟩
  rw [Number.read?, Numeral.read?, String.toList_ofList, hjoin]
  show (readUnsigned (splitSign _).1 (splitSign _).2).map _ = _
  rw [hsign]
  simp only [List.append_assoc, List.map_append] at hread ⊢
  rw [hread]
  rfl

end Parlance.Token
