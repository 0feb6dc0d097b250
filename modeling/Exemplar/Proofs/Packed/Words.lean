import Exemplar.CharSet.Basic
import Mathlib.Data.List.Sort

/-!
# Rows of words

A row of 1024 words has one bit for every code point up to U+FFFF. The bit of a code point is in
the word whose number is the code point divided by 64, at the place that the remainder names.

The set bits of one word are found from the lowest one on: its place is the number of trailing
zeros, and the conjunction of the word and the word less one is the word without it
(`getLsbD_clearLowest`). So the places are found in increasing order, and there are as many as the
population count says (`places_eq_filter`, `length_places`). A row lists the code points of its set
bits word by word (`mem_codes`, `codes_sorted`, `length_codes`), and the search for the code point
with a number skips whole words by their counts (`nthCode?_eq_getElem?`).
-/

namespace Exemplar

/-! ## The set bits of a word -/

namespace Word

variable {word : BitVec 64} {place index : Nat}

/-- The word without its lowest set bit. -/
def clearLowest (word : BitVec 64) : BitVec 64 :=
  word &&& (word - 1)

/-- Only a bit that was set stays set. -/
theorem toNat_clearLowest_lt (h : word ≠ 0) : (clearLowest word).toNat < word.toNat := by
  have hpos : 0 < word.toNat := BitVec.toNat_pos_of_ne_zero h
  have hone : (1 : BitVec 64) ≤ word := hpos
  rw [clearLowest, BitVec.toNat_and, BitVec.toNat_sub_of_le hone]
  exact Nat.lt_of_le_of_lt Nat.and_le_right (Nat.sub_lt hpos Nat.one_pos)

/-- The places of the set bits, from the lowest one on. -/
def places (word : BitVec 64) : List Nat :=
  if word = 0 then [] else word.ctz.toNat :: places (clearLowest word)
termination_by word.toNat
decreasing_by exact toNat_clearLowest_lt ‹_›

/-- The place of the set bit with a number, counted from zero. -/
def nth? (word : BitVec 64) : Nat → Option Nat
  | 0 => if word = 0 then none else some word.ctz.toNat
  | number + 1 => if word = 0 then none else nth? (clearLowest word) number

/-- The number of set bits. -/
def count (word : BitVec 64) : Nat :=
  word.cpop.toNat

/-- One less than a number has the lowest set bit cleared and all bits below it set. -/
theorem testBit_sub_one {number : Nat} (hbelow : ∀ index < place, number.testBit index = false)
    (hset : number.testBit place = true) :
    (number - 1).testBit index =
      if index < place then true else number.testBit index && index != place := by
  obtain ⟨high, rfl⟩ : ∃ high, number = 2 ^ (place + 1) * high + 2 ^ place := by
    have hlow : number % 2 ^ (place + 1) = 2 ^ place := by
      refine Nat.eq_of_testBit_eq fun index ↦ ?_
      rw [Nat.testBit_mod_two_pow, Nat.testBit_two_pow]
      rcases Nat.lt_trichotomy index place with hlt | rfl | hlt
      · simp [hbelow index hlt, Nat.ne_of_gt hlt]
      · simp [hset]
      · simp [Nat.ne_of_lt hlt, show ¬ index < place + 1 by omega]
    exact ⟨number / 2 ^ (place + 1), by rw [← hlow, Nat.div_add_mod]⟩
  have hlt : 2 ^ place < 2 ^ (place + 1) := Nat.pow_lt_pow_right (by decide) (by omega)
  have hpos : 0 < 2 ^ place := Nat.two_pow_pos place
  rw [show 2 ^ (place + 1) * high + 2 ^ place - 1 =
    2 ^ (place + 1) * high + (2 ^ place - 1) by omega,
    Nat.testBit_two_pow_mul_add _ hlt, Nat.testBit_two_pow_mul_add _ (by omega),
    Nat.testBit_two_pow_sub_one, Nat.testBit_two_pow]
  rcases Nat.lt_trichotomy index place with hlt | rfl | hlt
  · simp [hlt, show index < place + 1 by omega]
  · simp
  · simp [Nat.ne_of_gt hlt, show ¬ index < place by omega, show ¬ index < place + 1 by omega]

/-- Clearing the lowest set bit keeps all other bits. -/
theorem getLsbD_clearLowest (h : word ≠ 0) (index : Nat) :
    (clearLowest word).getLsbD index = (word.getLsbD index && index != word.ctz.toNat) := by
  have hone : (1 : BitVec 64) ≤ word := BitVec.toNat_pos_of_ne_zero h
  have hless : (word - 1).getLsbD index = if index < word.ctz.toNat then true
      else word.getLsbD index && index != word.ctz.toNat := by
    rw [BitVec.getLsbD, BitVec.toNat_sub_of_le hone]
    exact testBit_sub_one (fun _ ↦ BitVec.getLsbD_false_of_lt_ctz)
      (BitVec.getLsbD_true_ctz_of_ne_zero h)
  rw [clearLowest, BitVec.getLsbD_and, hless]
  split
  · rename_i hlt
    rw [BitVec.getLsbD_false_of_lt_ctz hlt, Bool.false_and, Bool.false_and]
  · rw [← Bool.and_assoc, Bool.and_self]

/-- The places are those of the set bits. -/
theorem mem_places : place ∈ places word ↔ word.getLsbD place = true := by
  fun_induction places word with
  | case1 => simp
  | case2 word hzero ih =>
    rw [List.mem_cons, ih, getLsbD_clearLowest hzero, Bool.and_eq_true, bne_iff_ne]
    refine ⟨?_, fun h ↦ ?_⟩
    · rintro (rfl | ⟨h, -⟩)
      · exact BitVec.getLsbD_true_ctz_of_ne_zero hzero
      · exact h
    · exact (eq_or_ne place word.ctz.toNat).imp_right fun hne ↦ ⟨h, hne⟩

/-- A place is below the width of a word. -/
theorem lt_of_mem_places (h : place ∈ places word) : place < 64 :=
  BitVec.lt_of_getLsbD (mem_places.1 h)

/-- The places are in increasing order. -/
theorem places_sorted (word : BitVec 64) : (places word).Pairwise (· < ·) := by
  fun_induction places word with
  | case1 => exact .nil
  | case2 word hzero ih =>
    refine List.pairwise_cons.2 ⟨fun place hplace ↦ ?_, ih⟩
    rw [mem_places, getLsbD_clearLowest hzero, Bool.and_eq_true, bne_iff_ne] at hplace
    have hle : word.ctz.toNat ≤ place := Nat.le_of_not_lt fun hlt ↦ by
      rw [BitVec.getLsbD_false_of_lt_ctz hlt] at hplace
      cases hplace.1
    omega

/-- The places are found by looking at every bit. -/
theorem places_eq_filter (word : BitVec 64) :
    places word = (List.range 64).filter (word.getLsbD ·) := by
  refine (places_sorted word).eq_of_mem_iff
    (List.pairwise_lt_range.filter _) fun place ↦ ?_
  rw [mem_places, List.mem_filter, List.mem_range]
  exact ⟨fun h ↦ ⟨BitVec.lt_of_getLsbD h, h⟩, And.right⟩

/-- The population count counts the bits that are set. -/
theorem cpopNatRec_eq_length (word : BitVec 64) (width : Nat) :
    word.cpopNatRec width 0 = ((List.range width).filter (word.getLsbD ·)).length := by
  induction width with
  | zero => rfl
  | succ width ih =>
    rw [BitVec.cpopNatRec_succ, BitVec.cpopNatRec_add, ih, List.range_succ, List.filter_append,
      List.length_append]
    cases h : word.getLsbD width <;> simp [h]

/-- There are as many places as set bits. -/
theorem length_places (word : BitVec 64) : (places word).length = count word := by
  rw [places_eq_filter, count, BitVec.toNat_cpop, cpopNatRec_eq_length]

/-- The search for a number steps through the places. -/
theorem nth?_eq_getElem? (word : BitVec 64) (number : Nat) :
    nth? word number = (places word)[number]? := by
  fun_induction nth? word number with
  | case1 => rw [places, if_pos rfl, List.getElem?_nil]
  | case2 word hzero => rw [places, if_neg hzero, List.getElem?_cons_zero]
  | case3 => rw [places, if_pos rfl, List.getElem?_nil]
  | case4 word number hzero ih => rw [ih, places.eq_def word, if_neg hzero, List.getElem?_cons_succ]

end Word

/-! ## The words of a row -/

/-- A row of words with one bit for every code point up to U+FFFF. -/
abbrev Bits := Vector (BitVec 64) 1024

namespace Bits

variable {bits : Bits} {code index : Nat}

/-- The word with a number, which has no set bits behind the last word. -/
def wordAt (bits : Bits) (index : Nat) : BitVec 64 :=
  bits[index]?.getD 0

/-- The word with the bit of a code point only. -/
def mask (code : Nat) : BitVec 64 :=
  1#64 <<< (code % 64)

/-- Whether the bit of a code point is set. -/
def holds (bits : Bits) (code : Nat) : Bool :=
  bits.wordAt (code / 64) &&& mask code != 0

/-- No bit is set. -/
def zeroed : Bits :=
  Vector.replicate 1024 0

/-- Set the bit of a code point. -/
def setBit (bits : Bits) (code : Nat) : Bits :=
  bits.setIfInBounds (code / 64) (bits.wordAt (code / 64) ||| mask code)

/-- Set the bits of the code points from a first to a last one, as far as there are any. -/
def setRange (bits : Bits) (first last : Nat) : Bits :=
  (List.range' first (min last CharSet.lastCode + 1 - first)).foldl setBit bits

/-- Set the bits of several code points, as far as there are any. -/
def setAll (bits : Bits) (codes : List Nat) : Bits :=
  codes.foldl (fun bits code ↦ bits.setRange code code) bits

/-- Clear the bits of the surrogates, which fill whole words. -/
def clearSurrogates (bits : Bits) : Bits :=
  bits.mapIdx fun index word ↦ if 0xD800 / 64 ≤ index ∧ index < 0xE000 / 64 then 0 else word

/-- The number of set bits. -/
def weight (bits : Bits) : Nat :=
  Size.total (bits.toList.map Word.count)

/-- The code points of the set bits in words, of which the first has a number. -/
def codesFrom (index : Nat) : List (BitVec 64) → List Nat
  | [] => []
  | word :: words => (Word.places word).map (index * 64 + ·) ++ codesFrom (index + 1) words

/-- The code points of the set bits. -/
def codes (bits : Bits) : List Nat :=
  codesFrom 0 bits.toList

/-- The code point of the set bit with a number in words, of which the first has a number too. -/
def nthFrom? (index : Nat) : List (BitVec 64) → Nat → Option Nat
  | [], _ => none
  | word :: words, number =>
      if number < Word.count word then (Word.nth? word number).map (index * 64 + ·)
      else nthFrom? (index + 1) words (number - Word.count word)

/-- The code point of the set bit with a number. -/
def nthCode? (bits : Bits) (number : Nat) : Option Nat :=
  nthFrom? 0 bits.toList number

/-- The mask of a code point picks its bit. -/
theorem holds_eq_getLsbD (bits : Bits) (code : Nat) :
    bits.holds code = (bits.wordAt (code / 64)).getLsbD (code % 64) := by
  have hplace : code % 64 < 64 := Nat.mod_lt _ (by decide)
  have hmask (index : Nat) : (mask code).getLsbD index = decide (index = code % 64) := by
    rw [mask, ← BitVec.twoPow_eq, BitVec.getLsbD_twoPow]
    simp [hplace, eq_comm]
  have hand (index : Nat) : (bits.wordAt (code / 64) &&& mask code).getLsbD index =
      ((bits.wordAt (code / 64)).getLsbD (code % 64) && decide (index = code % 64)) := by
    rw [BitVec.getLsbD_and, hmask]
    by_cases hindex : index = code % 64 <;> simp [hindex]
  rw [holds]
  cases hbit : (bits.wordAt (code / 64)).getLsbD (code % 64) with
  | false =>
    rw [bne_eq_false_iff_eq]
    exact BitVec.eq_of_getLsbD_eq fun index _ ↦ by rw [hand, hbit]; simp
  | true =>
    rw [bne_iff_ne]
    intro hzero
    have hplaced := hand (code % 64)
    rw [hzero, hbit] at hplaced
    simp at hplaced

/-- There are no words behind the last one. -/
theorem wordAt_of_le (h : 1024 ≤ index) : bits.wordAt index = 0 := by
  rw [wordAt, Vector.getElem?_eq_none h, Option.getD_none]

/-- The bit of a code point that is set is that of a code point up to U+FFFF. -/
theorem lt_of_holds (h : bits.holds code = true) : code < 0x10000 := by
  by_contra hge
  rw [holds_eq_getLsbD, wordAt_of_le (by omega)] at h
  simp at h

/-- Rows with the same bits are equal. -/
theorem ext_of_holds {other : Bits} (h : ∀ code, bits.holds code = other.holds code) :
    bits = other := by
  refine Vector.ext fun index hindex ↦ BitVec.eq_of_getLsbD_eq fun place hplace ↦ ?_
  have hcode := h (index * 64 + place)
  rw [holds_eq_getLsbD, holds_eq_getLsbD, wordAt, wordAt,
    show (index * 64 + place) / 64 = index by omega,
    show (index * 64 + place) % 64 = place by omega,
    Vector.getElem?_eq_getElem hindex, Vector.getElem?_eq_getElem hindex] at hcode
  exact hcode

/-! ## What the operations do to the bits -/

/-- No bit of the row is set. -/
@[simp] theorem holds_zeroed (code : Nat) : zeroed.holds code = false := by
  rw [holds_eq_getLsbD, wordAt, zeroed, Vector.getElem?_replicate]
  split <;> simp

/-- Setting the bit of a code point up to U+FFFF keeps all other bits. -/
theorem holds_setBit (hcode : code < 0x10000) (other : Nat) :
    (bits.setBit code).holds other = (bits.holds other || decide (other = code)) := by
  have hword : (bits.setBit code).wordAt (other / 64) =
      if code / 64 = other / 64 then bits.wordAt (code / 64) ||| mask code
      else bits.wordAt (other / 64) := by
    rw [wordAt, setBit, Vector.getElem?_setIfInBounds, if_pos (show code / 64 < 1024 by omega)]
    split
    · rfl
    · rfl
  rw [holds_eq_getLsbD, holds_eq_getLsbD, hword]
  split
  · rename_i hsame
    have hplace : code % 64 < 64 := Nat.mod_lt _ (by decide)
    have hiff : code % 64 = other % 64 ↔ other = code := by omega
    rw [BitVec.getLsbD_or, mask, ← BitVec.twoPow_eq, BitVec.getLsbD_twoPow, hsame]
    simp [hplace, hiff]
  · have hne : other ≠ code := fun heq ↦ by simp [heq] at *
    simp [hne]

/-- Setting several bits keeps all other bits. -/
theorem holds_foldl_setBit {codes : List Nat} (hcodes : ∀ code ∈ codes, code < 0x10000)
    (bits : Bits) (other : Nat) :
    (codes.foldl setBit bits).holds other = (bits.holds other || decide (other ∈ codes)) := by
  induction codes generalizing bits with
  | nil => simp
  | cons code codes ih =>
    obtain ⟨hcode, hcodes⟩ := List.forall_mem_cons.1 hcodes
    rw [List.foldl_cons, ih hcodes, holds_setBit hcode, Bool.or_assoc]
    simp [List.mem_cons]

/-- Setting the bits of a range keeps all other bits. -/
theorem holds_setRange (bits : Bits) (first last code : Nat) :
    (bits.setRange first last).holds code = (bits.holds code ||
      (decide (first ≤ code) && decide (code ≤ last) &&
        decide (code ≤ CharSet.lastCode))) := by
  have hlast : CharSet.lastCode = 0xFFFF := rfl
  have hmem : code ∈ List.range' first (min last CharSet.lastCode + 1 - first) ↔
      (first ≤ code ∧ code ≤ last) ∧ code ≤ CharSet.lastCode := by
    rw [List.mem_range'_1]
    omega
  rw [setRange, holds_foldl_setBit fun other hother ↦ ?_]
  · rw [decide_eq_decide.2 hmem, Bool.decide_and, Bool.decide_and]
  · rw [List.mem_range'_1] at hother
    omega

/-- Setting the bits of several code points keeps all other bits. -/
theorem holds_setAll (bits : Bits) (codes : List Nat) (code : Nat) :
    (bits.setAll codes).holds code =
      (bits.holds code || (decide (code ∈ codes) && decide (code ≤ CharSet.lastCode))) := by
  induction codes generalizing bits with
  | nil => simp [setAll]
  | cons first codes ih =>
    have hone : (decide (first ≤ code) && decide (code ≤ first)) = decide (code = first) := by
      rw [← Bool.decide_and, decide_eq_decide]
      omega
    have ih := ih (bits.setRange first first)
    rw [setAll] at ih ⊢
    rw [List.foldl_cons, ih, holds_setRange, hone, Bool.or_assoc, ← Bool.and_or_distrib_right,
      ← Bool.decide_or]
    simp only [List.mem_cons]

/-- The words of two rows are put together one by one. -/
theorem holds_zipWith {op : BitVec 64 → BitVec 64 → BitVec 64} {rule : Bool → Bool → Bool}
    (hop : ∀ first second index, index < 64 → (op first second).getLsbD index =
      rule (first.getLsbD index) (second.getLsbD index))
    (first second : Bits) (hcode : code < 0x10000) :
    Bits.holds (Vector.zipWith op first second) code =
      rule (first.holds code) (second.holds code) := by
  have hindex : code / 64 < 1024 := by omega
  rw [holds_eq_getLsbD, holds_eq_getLsbD, holds_eq_getLsbD,
    ← hop _ _ _ (Nat.mod_lt _ (by decide)), wordAt, wordAt, wordAt,
    Vector.getElem?_eq_getElem hindex, Vector.getElem?_eq_getElem hindex,
    Vector.getElem?_eq_getElem hindex, Vector.getElem_zipWith]
  rfl

/-- The disjunctions of the words have the bits of both rows. -/
theorem holds_or (first second : Bits) (hcode : code < 0x10000) :
    Bits.holds (Vector.zipWith (· ||| ·) first second) code =
      (first.holds code || second.holds code) :=
  holds_zipWith (fun _ _ _ _ ↦ BitVec.getLsbD_or) first second hcode

/-- The conjunctions of the words have the bits that both rows have. -/
theorem holds_and (first second : Bits) (hcode : code < 0x10000) :
    Bits.holds (Vector.zipWith (· &&& ·) first second) code =
      (first.holds code && second.holds code) :=
  holds_zipWith (fun _ _ _ _ ↦ BitVec.getLsbD_and) first second hcode

/-- Turning every word over turns the bits of all code points up to U+FFFF over. -/
theorem holds_map_not (bits : Bits) (hcode : code < 0x10000) :
    Bits.holds (bits.map (~~~ ·)) code = !bits.holds code := by
  have hindex : code / 64 < 1024 := by omega
  rw [holds_eq_getLsbD, holds_eq_getLsbD, wordAt, wordAt, Vector.getElem?_eq_getElem hindex,
    Vector.getElem?_eq_getElem hindex, Vector.getElem_map]
  simp [Nat.mod_lt code]

/-- Clearing the bits of the surrogates keeps the bits of all characters. -/
theorem holds_clearSurrogates (bits : Bits) (code : Nat) :
    bits.clearSurrogates.holds code =
      (bits.holds code && !(decide (0xD800 ≤ code) && decide (code < 0xE000))) := by
  have hword : bits.clearSurrogates.wordAt (code / 64) =
      if 0xD800 / 64 ≤ code / 64 ∧ code / 64 < 0xE000 / 64 then 0
      else bits.wordAt (code / 64) := by
    rw [wordAt, clearSurrogates, Vector.getElem?_mapIdx, wordAt]
    cases bits[code / 64]? <;> simp
  rw [holds_eq_getLsbD, hword, holds_eq_getLsbD]
  split
  · have hin : 0xD800 ≤ code ∧ code < 0xE000 := by omega
    simp [hin]
  · have hout : ¬ (0xD800 ≤ code ∧ code < 0xE000) := by omega
    rw [← Bool.decide_and, decide_eq_false hout, Bool.not_false, Bool.and_true]

/-- Clearing the bits of the surrogates again changes nothing. -/
@[simp] theorem clearSurrogates_clearSurrogates (bits : Bits) :
    bits.clearSurrogates.clearSurrogates = bits.clearSurrogates :=
  ext_of_holds fun code ↦ by
    rw [holds_clearSurrogates, holds_clearSurrogates, Bool.and_assoc, Bool.and_self]

/-! ## The code points of the set bits -/

variable {words : List (BitVec 64)}

/-- The code points in words are those of the set bits. -/
theorem mem_codesFrom : code ∈ codesFrom index words ↔
    index ≤ code / 64 ∧ (words[code / 64 - index]?.getD 0).getLsbD (code % 64) = true := by
  induction words generalizing index with
  | nil => simp [codesFrom]
  | cons word words ih =>
    have hfirst : code ∈ (Word.places word).map (index * 64 + ·) ↔
        code / 64 = index ∧ word.getLsbD (code % 64) = true := by
      rw [List.mem_map]
      constructor
      · rintro ⟨place, hplace, rfl⟩
        have hlt := Word.lt_of_mem_places hplace
        rw [show (index * 64 + place) / 64 = index by omega,
          show (index * 64 + place) % 64 = place by omega]
        exact ⟨rfl, Word.mem_places.1 hplace⟩
      · rintro ⟨rfl, hplace⟩
        exact ⟨code % 64, Word.mem_places.2 hplace, by omega⟩
    rw [codesFrom, List.mem_append, hfirst, ih]
    rcases Nat.lt_trichotomy (code / 64) index with hlt | heq | hlt
    · simp [Nat.ne_of_lt hlt, show ¬ index ≤ code / 64 by omega,
        show ¬ index + 1 ≤ code / 64 by omega]
    · simp [heq]
    · obtain ⟨gap, hgap⟩ : ∃ gap, code / 64 = index + 1 + gap :=
        ⟨code / 64 - (index + 1), by omega⟩
      simp [hgap, show index + 1 + gap ≠ index by omega,
        show index + 1 + gap - index = gap + 1 by omega, show index ≤ index + 1 + gap by omega]

/-- The code points of a row are those of the set bits. -/
theorem mem_codes : code ∈ bits.codes ↔ bits.holds code = true := by
  rw [codes, mem_codesFrom, holds_eq_getLsbD, wordAt, Nat.sub_zero, Vector.getElem?_toList]
  exact and_iff_right (Nat.zero_le _)

/-- The code points in words are in increasing order. -/
theorem codesFrom_sorted (index : Nat) (words : List (BitVec 64)) :
    (codesFrom index words).Pairwise (· < ·) := by
  induction words generalizing index with
  | nil => exact .nil
  | cons word words ih =>
    refine List.pairwise_append.2 ⟨?_, ih (index + 1), fun code hcode next hnext ↦ ?_⟩
    · exact List.pairwise_map.2 ((Word.places_sorted word).imp fun hlt ↦ by omega)
    · obtain ⟨place, hplace, rfl⟩ := List.mem_map.1 hcode
      have hlt := Word.lt_of_mem_places hplace
      have hle := (mem_codesFrom.1 hnext).1
      omega

/-- The code points of a row are in increasing order. -/
theorem codes_sorted (bits : Bits) : bits.codes.Pairwise (· < ·) :=
  codesFrom_sorted 0 bits.toList

/-- Words have as many code points as set bits. -/
theorem length_codesFrom (index : Nat) (words : List (BitVec 64)) :
    (codesFrom index words).length = Size.total (words.map Word.count) := by
  induction words generalizing index with
  | nil => rfl
  | cons word words ih =>
    rw [codesFrom, List.length_append, List.length_map, Word.length_places, ih]
    rfl

/-- A row has as many code points as set bits. -/
theorem length_codes (bits : Bits) : bits.codes.length = bits.weight :=
  length_codesFrom 0 bits.toList

/-- The search in words finds the code point at its place in the list. -/
theorem nthFrom?_eq_getElem? (index : Nat) (words : List (BitVec 64)) (number : Nat) :
    nthFrom? index words number = (codesFrom index words)[number]? := by
  fun_induction nthFrom? index words number with
  | case1 => rfl
  | case2 index word words number hlt =>
    rw [codesFrom, List.getElem?_append_left (by rwa [List.length_map, Word.length_places]),
      List.getElem?_map, Word.nth?_eq_getElem?]
  | case3 index word words number hge ih =>
    -- The first word is skipped as a whole.
    have hle : ((Word.places word).map (index * 64 + ·)).length ≤ number := by
      rw [List.length_map, Word.length_places]
      exact Nat.not_lt.1 hge
    rw [ih, codesFrom, List.getElem?_append_right hle, List.length_map, Word.length_places]

/-- The search in a row finds the code point at its place in the list. -/
theorem nthCode?_eq_getElem? (bits : Bits) (number : Nat) :
    bits.nthCode? number = bits.codes[number]? :=
  nthFrom?_eq_getElem? 0 bits.toList number

end Bits

end Exemplar
