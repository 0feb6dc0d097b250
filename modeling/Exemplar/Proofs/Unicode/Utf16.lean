import Exemplar.Grammar.Escape

/-!
# Text in UTF-16

`Utf16.encode` writes characters as 16-bit units: a character up to U+FFFF is one unit, any other
one is a pair of surrogates. A surrogate without its other half beside it is unpaired. Every
sequence of units begins with the units of some characters, and nothing or an unpaired surrogate
follows them (`exists_encode_append`), so the sequences without unpaired surrogates are those of
characters (`exists_eq_encode_iff`).
-/

namespace Exemplar

namespace Escape

/-- The code points of first halves. -/
theorem isHighSurrogate_iff {code : Nat} :
    isHighSurrogate code = true ↔ 0xD800 ≤ code ∧ code < 0xDC00 := by
  simp [isHighSurrogate]

/-- The code points of second halves. -/
theorem isLowSurrogate_iff {code : Nat} :
    isLowSurrogate code = true ↔ 0xDC00 ≤ code ∧ code < 0xE000 := by
  simp [isLowSurrogate]

/-- A code point is not both halves. -/
theorem isLowSurrogate_of_isHighSurrogate {code : Nat} (h : isHighSurrogate code = true) :
    isLowSurrogate code = false := by
  rw [isHighSurrogate_iff] at h
  rw [Bool.eq_false_iff, Ne, isLowSurrogate_iff]
  omega

/-- A character is no half of a surrogate pair. -/
theorem not_isSurrogate_toNat (c : Char) :
    isHighSurrogate c.toNat = false ∧ isLowSurrogate c.toNat = false := by
  have hvalid : c.toNat < 0xD800 ∨ 0xDFFF < c.toNat ∧ c.toNat < 0x110000 := c.valid
  rw [Bool.eq_false_iff, Bool.eq_false_iff, Ne, Ne, isHighSurrogate_iff, isLowSurrogate_iff]
  omega

/-- A code point below 0x110000 that is no half of a surrogate pair is that of a character. -/
theorem exists_toNat_eq {code : Nat} (hhigh : isHighSurrogate code = false)
    (hlow : isLowSurrogate code = false) (hlt : code < 0x110000) :
    ∃ c : Char, c.toNat = code := by
  rw [Bool.eq_false_iff, Ne, isHighSurrogate_iff] at hhigh
  rw [Bool.eq_false_iff, Ne, isLowSurrogate_iff] at hlow
  have hvalid : code.isValidChar := by
    unfold Nat.isValidChar
    omega
  refine ⟨Char.ofNat code, ?_⟩
  rw [Char.ofNat, dif_pos hvalid]
  rfl

end Escape

namespace Utf16

open Escape

/-- The units of a character: its code point, or the two halves of a surrogate pair. -/
def encodeChar (c : Char) : List UInt16 :=
  if c.toNat < 0x10000 then [.ofNat c.toNat]
  else [.ofNat (0xD800 + (c.toNat - 0x10000) / 0x400),
    .ofNat (0xDC00 + (c.toNat - 0x10000) % 0x400)]

/-- The units of several characters. -/
def encode (chars : List Char) : List UInt16 :=
  chars.flatMap encodeChar

/-- Whether the unit with the given number is the first half of a surrogate pair. -/
def highAt (units : List UInt16) (index : Nat) : Bool :=
  units[index]?.any fun unit ↦ isHighSurrogate unit.toNat

/-- Whether the unit with the given number is the second half of a surrogate pair. -/
def lowAt (units : List UInt16) (index : Nat) : Bool :=
  units[index]?.any fun unit ↦ isLowSurrogate unit.toNat

/-- The unit with the given number is a surrogate without its other half beside it. -/
def IsUnpaired (units : List UInt16) (index : Nat) : Prop :=
  highAt units index = true ∧ lowAt units (index + 1) = false ∨
    lowAt units index = true ∧ (index = 0 ∨ highAt units (index - 1) = false)

instance (units : List UInt16) (index : Nat) : Decidable (IsUnpaired units index) :=
  inferInstanceAs (Decidable (_ ∨ _))

/-- The unit with the given number is the first unpaired surrogate. -/
structure IsFirstUnpaired (units : List UInt16) (index : Nat) : Prop where
  unpaired : IsUnpaired units index
  first : ∀ earlier < index, ¬ IsUnpaired units earlier

/-! ## The units of a character -/

/-- How a character is written: as a unit that is no surrogate, or as a surrogate pair. -/
inductive Encodes (c : Char) : List UInt16 → Prop where
  | unit {unit : UInt16} : unit.toNat = c.toNat → Encodes c [unit]
  | pair {high low : UInt16} : isHighSurrogate high.toNat = true →
      isLowSurrogate low.toNat = true →
      joinSurrogates high.toNat low.toNat = c.toNat → Encodes c [high, low]

/-- The code point of a surrogate pair has its halves back. -/
theorem eq_of_joinSurrogates {high low : Nat} (hhigh : isHighSurrogate high = true)
    (hlow : isLowSurrogate low = true) :
    0x10000 ≤ joinSurrogates high low ∧ joinSurrogates high low < 0x110000 ∧
      0xD800 + (joinSurrogates high low - 0x10000) / 0x400 = high ∧
      0xDC00 + (joinSurrogates high low - 0x10000) % 0x400 = low := by
  rw [isHighSurrogate_iff] at hhigh
  rw [isLowSurrogate_iff] at hlow
  unfold joinSurrogates
  omega

/-- A character is written in one of the two ways. -/
theorem encodes_encodeChar (c : Char) : Encodes c (encodeChar c) := by
  have hvalid : c.toNat < 0xD800 ∨ 0xDFFF < c.toNat ∧ c.toNat < 0x110000 := c.valid
  have hunit (word : Nat) (h : word < 0x10000) : (UInt16.ofNat word).toNat = word :=
    UInt16.toNat_ofNat_of_lt' h
  generalize hcode : c.toNat = code at hvalid
  unfold encodeChar
  rw [hcode]
  split
  · rename_i hlt
    exact .unit ((hunit code hlt).trans hcode.symm)
  · have hhigh := hunit (0xD800 + (code - 0x10000) / 0x400) (by omega)
    have hlow := hunit (0xDC00 + (code - 0x10000) % 0x400) (by omega)
    refine .pair ?_ ?_ ?_
    · rw [hhigh, isHighSurrogate_iff]
      omega
    · rw [hlow, isLowSurrogate_iff]
      omega
    · rw [hhigh, hlow, hcode]
      unfold joinSurrogates
      omega

/-- A character is written in one way only. -/
theorem Encodes.eq {c : Char} {units : List UInt16} (h : Encodes c units) :
    encodeChar c = units := by
  unfold encodeChar
  cases h with
  | @unit unit heq =>
    have hlt : c.toNat < 0x10000 := heq ▸ unit.toNat_lt
    rw [if_pos hlt, ← heq, UInt16.ofNat_toNat]
  | @pair high low hhigh hlow heq =>
    obtain ⟨hle, -, hfirst, hsecond⟩ := eq_of_joinSurrogates hhigh hlow
    rw [← heq, if_neg (Nat.not_lt.2 hle), hfirst, hsecond, UInt16.ofNat_toNat, UInt16.ofNat_toNat]

/-- A unit that is no surrogate is written for a character. -/
theorem exists_encodeChar_unit {unit : UInt16} (hhigh : isHighSurrogate unit.toNat = false)
    (hlow : isLowSurrogate unit.toNat = false) : ∃ c, encodeChar c = [unit] := by
  obtain ⟨c, hc⟩ := exists_toNat_eq hhigh hlow (Nat.lt_trans unit.toNat_lt (by decide))
  exact ⟨c, (Encodes.unit hc.symm).eq⟩

/-- A surrogate pair is written for a character. -/
theorem exists_encodeChar_pair {high low : UInt16} (hhigh : isHighSurrogate high.toNat = true)
    (hlow : isLowSurrogate low.toNat = true) : ∃ c, encodeChar c = [high, low] := by
  obtain ⟨hle, hlt, -, -⟩ := eq_of_joinSurrogates hhigh hlow
  obtain ⟨c, hc⟩ : ∃ c : Char, c.toNat = joinSurrogates high.toNat low.toNat := by
    refine exists_toNat_eq ?_ ?_ hlt
    · rw [Bool.eq_false_iff, Ne, isHighSurrogate_iff]
      omega
    · rw [Bool.eq_false_iff, Ne, isLowSurrogate_iff]
      omega
  exact ⟨c, (Encodes.pair hhigh hlow hc.symm).eq⟩

/-! ## Unpaired surrogates -/

section

variable {unit : UInt16} {rest : List UInt16} {index : Nat}

@[simp] theorem highAt_cons_succ : highAt (unit :: rest) (index + 1) = highAt rest index := rfl

@[simp] theorem lowAt_cons_succ : lowAt (unit :: rest) (index + 1) = lowAt rest index := rfl

@[simp] theorem highAt_cons_zero : highAt (unit :: rest) 0 = isHighSurrogate unit.toNat := rfl

@[simp] theorem lowAt_cons_zero : lowAt (unit :: rest) 0 = isLowSurrogate unit.toNat := rfl

/-- Behind a unit that is no first half, surrogates are as they are by themselves. -/
theorem isUnpaired_cons_succ (h : isHighSurrogate unit.toNat = false) :
    IsUnpaired (unit :: rest) (index + 1) ↔ IsUnpaired rest index := by
  cases index with
  | zero => simp [IsUnpaired, h]
  | succ index => simp [IsUnpaired]

end

/-- No surrogate of a character is unpaired, and those behind it are as they are by themselves. -/
theorem isUnpaired_encodeChar_append (c : Char) (rest : List UInt16) (index : Nat) :
    IsUnpaired (encodeChar c ++ rest) index ↔
      ∃ later, index = (encodeChar c).length + later ∧ IsUnpaired rest later := by
  have hencodes := encodes_encodeChar c
  generalize encodeChar c = units at hencodes
  cases hencodes with
  | @unit unit heq =>
    obtain ⟨hhigh, hlow⟩ := not_isSurrogate_toNat c
    rw [← heq] at hhigh hlow
    cases index with
    | zero => simp [IsUnpaired, hhigh, hlow, Nat.add_comm 1]
    | succ index =>
      rw [List.singleton_append, isUnpaired_cons_succ hhigh]
      simp [Nat.add_comm 1]
  | @pair high low hhigh hlow =>
    have hfirst := isLowSurrogate_of_isHighSurrogate hhigh
    have hsecond : isHighSurrogate low.toNat = false := by
      rw [Bool.eq_false_iff]
      exact fun h ↦ absurd (isLowSurrogate_of_isHighSurrogate h) (by simp [hlow])
    match index with
    | 0 => simp [IsUnpaired, hlow, hfirst, Nat.add_comm 2]
    | 1 => simp [IsUnpaired, hhigh, hsecond, Nat.add_comm 2]
    | index + 2 =>
      rw [List.cons_append, List.singleton_append]
      have hsucc : IsUnpaired (high :: low :: rest) (index + 2) ↔
          IsUnpaired (low :: rest) (index + 1) := by
        simp [IsUnpaired]
      rw [hsucc, isUnpaired_cons_succ hsecond]
      simp [Nat.add_comm 2]

/-- No surrogate of characters is unpaired, and those behind them are as they are by themselves. -/
theorem isUnpaired_encode_append (chars : List Char) (rest : List UInt16) (index : Nat) :
    IsUnpaired (encode chars ++ rest) index ↔
      ∃ later, index = (encode chars).length + later ∧ IsUnpaired rest later := by
  induction chars generalizing index with
  | nil => simp [encode]
  | cons c chars ih =>
    rw [encode, List.flatMap_cons, ← encode, List.append_assoc, isUnpaired_encodeChar_append]
    simp only [ih, List.length_append]
    constructor
    · rintro ⟨later, rfl, last, rfl, h⟩
      exact ⟨last, (Nat.add_assoc ..).symm, h⟩
    · rintro ⟨last, rfl, h⟩
      exact ⟨_, Nat.add_assoc .., last, rfl, h⟩

/-- Nothing is unpaired in the empty sequence. -/
theorem not_isUnpaired_nil (index : Nat) : ¬ IsUnpaired [] index := by
  simp [IsUnpaired, highAt, lowAt]

/-- Every sequence of units begins with the units of some characters, and nothing or an unpaired
surrogate follows them. -/
theorem exists_encode_append : (units : List UInt16) →
    ∃ chars rest, units = encode chars ++ rest ∧ (rest = [] ∨ IsUnpaired rest 0)
  | [] => ⟨[], [], rfl, .inl rfl⟩
  | unit :: units => by
    by_cases hlow : isLowSurrogate unit.toNat = true
    · exact ⟨[], unit :: units, rfl, .inr (.inr ⟨hlow, .inl rfl⟩)⟩
    · by_cases hhigh : isHighSurrogate unit.toNat = true
      · match units with
        | [] => exact ⟨[], [unit], rfl, .inr (.inl ⟨hhigh, rfl⟩)⟩
        | next :: units =>
          by_cases hnext : isLowSurrogate next.toNat = true
          · obtain ⟨c, hc⟩ := exists_encodeChar_pair hhigh hnext
            obtain ⟨chars, rest, rfl, hrest⟩ := exists_encode_append units
            exact ⟨c :: chars, rest, by simp [encode, hc], hrest⟩
          · exact ⟨[], unit :: next :: units, rfl,
              .inr (.inl ⟨hhigh, Bool.eq_false_iff.2 hnext⟩)⟩
      · obtain ⟨c, hc⟩ :=
          exists_encodeChar_unit (Bool.eq_false_iff.2 hhigh) (Bool.eq_false_iff.2 hlow)
        obtain ⟨chars, rest, rfl, hrest⟩ := exists_encode_append units
        exact ⟨c :: chars, rest, by simp [encode, hc], hrest⟩

/-- An unpaired surrogate behind characters is the first one. -/
theorem isFirstUnpaired_encode_append (chars : List Char) {rest : List UInt16}
    (h : IsUnpaired rest 0) :
    IsFirstUnpaired (encode chars ++ rest) (encode chars).length where
  unpaired := (isUnpaired_encode_append ..).2 ⟨0, rfl, h⟩
  first earlier hlt hunpaired := by
    obtain ⟨later, rfl, -⟩ := (isUnpaired_encode_append ..).1 hunpaired
    omega

/-- The sequences without unpaired surrogates are those of characters. -/
theorem exists_eq_encode_iff (units : List UInt16) :
    (∃ chars, units = encode chars) ↔ ∀ index, ¬ IsUnpaired units index := by
  constructor
  · rintro ⟨chars, rfl⟩ index hunpaired
    rw [← List.append_nil (encode chars), isUnpaired_encode_append] at hunpaired
    obtain ⟨later, -, h⟩ := hunpaired
    exact not_isUnpaired_nil later h
  · intro hnone
    obtain ⟨chars, rest, rfl, rfl | hrest⟩ := exists_encode_append units
    · exact ⟨chars, List.append_nil _⟩
    · exact absurd (isFirstUnpaired_encode_append chars hrest).unpaired (hnone _)

end Utf16

end Exemplar
