import Exemplar.CharSet.Narrow
import Exemplar.CharSet.Render
import Exemplar.Grammar.Escape
import Exemplar.Proofs.CharSet.Algebra
import Exemplar.Proofs.CharSet.Ranges
import Exemplar.Proofs.Packed.Words

/-!
# Packed character sets

A set of characters can be kept as a row of words with one bit for every code point, and the number
of its members beside it. In a `PackedCharSet` the bits of surrogates are clear, and its weight is
the number of its bits: every operation ends by clearing those bits and by counting the others
(`ofBits`). The questions are answered from the words. A `PackedBuilder` works on a row in which
nothing is cleared until the set is built.

`Packs` says that a packed set stands for a character set: it has the bits of the code points in
the set. Every operation keeps to it, and so does every call on a builder, hence every composition
of operations and calls evaluates to the packed form of the set that it stands for
(`SetTerm.packs_pack`). A packed set answers every question as its set does (`Packs.answers`), and
two packed sets are equal just when their sets are (`Packs.beq_eq`). So narrowing, which asks and
operates in turn, is the same on both (`Packs.narrow`).
-/

namespace Exemplar

open CharSet (canHold)
open Escape (charOf?)

/-- The forms of a character in the case maps. -/
def CaseFolding.variants (folding : CaseFolding) (c : Char) : List Nat :=
  (folding.pairs.filter fun pair ↦ pair.1 == c.toNat).map (·.2)

/-- A set of characters as a row of words, in which the bits of surrogates are clear. The number of
members is kept beside it. -/
structure PackedCharSet where
  bits : Bits
  weight : Nat
  cleared : bits.clearSurrogates = bits
  weight_eq : weight = bits.weight

namespace PackedCharSet

/-- The set of the characters whose bits are set. -/
def ofBits (bits : Bits) : PackedCharSet where
  bits := bits.clearSurrogates
  weight := bits.clearSurrogates.weight
  cleared := bits.clearSurrogates_clearSurrogates
  weight_eq := rfl

/-- The set without members. -/
def empty : PackedCharSet :=
  ofBits .zeroed

/-- The characters from `first` to `last`, as far as a set can hold them. -/
def range (first last : Char) : PackedCharSet :=
  ofBits (Bits.zeroed.setRange first.toNat last.toNat)

/-- The set of one character, and the empty set if a set cannot hold it. -/
def single (c : Char) : PackedCharSet :=
  range c c

/-- The listed characters. -/
def ofChars (chars : List Char) : PackedCharSet :=
  ofBits (Bits.zeroed.setAll (chars.map (·.toNat)))

/-- Put the words of two sets together one by one. -/
def mapWords (op : BitVec 64 → BitVec 64 → BitVec 64) (first second : PackedCharSet) :
    PackedCharSet :=
  ofBits (Vector.zipWith op first.bits second.bits)

/-- The members of either set. -/
def union (first second : PackedCharSet) : PackedCharSet :=
  mapWords (· ||| ·) first second

/-- The members of both sets. -/
def inter (first second : PackedCharSet) : PackedCharSet :=
  mapWords (· &&& ·) first second

/-- The characters of the universe that are no members. -/
def negate (set : PackedCharSet) : PackedCharSet :=
  ofBits (set.bits.map (~~~ ·))

/-- Whether there are no members. -/
def isEmpty (set : PackedCharSet) : Bool :=
  set.weight == 0

/-- Whether the character is a member. -/
def contains (set : PackedCharSet) (c : Char) : Bool :=
  canHold c && set.bits.holds c.toNat

/-- The members in the order of their code points. -/
def members (set : PackedCharSet) : List Char :=
  set.bits.codes.filterMap charOf?

/-- The member with a given number, counted from zero. -/
def nth? (set : PackedCharSet) (index : Nat) : Option Char :=
  if set.weight ≤ index then none else (set.bits.nthCode? index).bind charOf?

/-- The member whose number is the size of `seed` modulo the number of members. -/
def sample (set : PackedCharSet) (seed : Int) : Except GenerationError Char :=
  if set.weight = 0 then .error .emptyCharSet
  else match set.nth? (seed.natAbs % set.weight) with
    | some c => .ok c
    | none => .error .emptyCharSet

/-- The runs that a walk over the members finds. -/
def ranges (set : PackedCharSet) : List (Char × Char) :=
  set.members.foldl CharSet.extendRanges []

/-- The members and their other cases. -/
def foldCase (set : PackedCharSet) (folding : CaseFolding) : PackedCharSet :=
  if folding = .none then set
  else ofBits (set.bits.setAll (set.members.flatMap folding.variants))

/-- The text of the runs of a set. -/
def renderRanges (set : PackedCharSet) : List Char :=
  set.ranges.flatMap fun (first, last) ↦ CharSet.renderRange first last

/-- The bracket expression of a set. -/
def render (set : PackedCharSet) : List Char :=
  if set.weight = CharSet.fullSize then "[\\x00-\\uffff]".toList
  else if set.weight = 0 then "[^\\x00-\\uffff]".toList
  else if set.weight * 2 > CharSet.fullSize then '[' :: '^' :: set.negate.renderRanges ++ [']']
  else '[' :: set.renderRanges ++ [']']

/-- Sets are equal when their weights and their words are. -/
instance : BEq PackedCharSet where
  beq first second := first.weight == second.weight && first.bits == second.bits

end PackedCharSet

/-- A set under construction as a row of words. -/
structure PackedBuilder where
  bits : Bits
  folding : CaseFolding
  negated : Bool

namespace PackedBuilder

/-- A builder without members. -/
def start (folding : CaseFolding) : PackedBuilder :=
  ⟨.zeroed, folding, false⟩

/-- Add the members of a set as they are. -/
def addSet (builder : PackedBuilder) (set : PackedCharSet) : PackedBuilder :=
  { builder with bits := Vector.zipWith (· ||| ·) builder.bits set.bits }

/-- Keep the members that are in a set. -/
def keep (builder : PackedBuilder) (set : PackedCharSet) : PackedBuilder :=
  { builder with bits := Vector.zipWith (· &&& ·) builder.bits set.bits }

/-- Add a range of characters and their other cases. -/
def addRange (builder : PackedBuilder) (first last : Char) : PackedBuilder :=
  if builder.folding = .none then
    { builder with bits := builder.bits.setRange first.toNat last.toNat }
  else builder.addSet ((PackedCharSet.range first last).foldCase builder.folding)

/-- Add a character and its other cases. -/
def addChar (builder : PackedBuilder) (c : Char) : PackedBuilder :=
  builder.addRange c c

/-- Take the complement at the end, or no longer take it. -/
def negate (builder : PackedBuilder) : PackedBuilder :=
  { builder with negated := !builder.negated }

/-- The set that was built. -/
def build (builder : PackedBuilder) : PackedCharSet :=
  if builder.negated then (PackedCharSet.ofBits builder.bits).negate
  else PackedCharSet.ofBits builder.bits

end PackedBuilder

namespace PackedCharSet

variable {packed other : PackedCharSet} {set second : CharSet} {bits : Bits} {code : Nat} {c : Char}

/-- The packed set stands for the set: it has the bits of the code points that the set holds. -/
structure Packs (packed : PackedCharSet) (set : CharSet) : Prop where
  holds (code : Nat) : packed.bits.holds code = set.containsCode code

/-! ## What a packed set answers -/

/-- There is a character for every code point that a set holds. -/
theorem charOf?_of_containsCode (h : set.containsCode code = true) :
    charOf? code = some (Char.ofNat code) := by
  have hlt := CharSet.lt_of_containsCode h
  refine if_pos ?_
  simp only [Nat.isValidChar]
  omega

namespace Packs

/-- The code points of the bits are those of the runs. -/
theorem codes (h : packed.Packs set) : packed.bits.codes = CharSet.codes set.runs := by
  refine packed.bits.codes_sorted.eq_of_mem_iff
    (CharSet.codes_sorted (Toggles.runs_sorted set.sorted)) fun code ↦ ?_
  rw [Bits.mem_codes, CharSet.mem_codes_runs, h.holds]

/-- The weight that is kept is that of the set. -/
theorem weight (h : packed.Packs set) : packed.weight = set.weight := by
  rw [packed.weight_eq, ← Bits.length_codes, h.codes, CharSet.length_codes]
  rfl

/-- A packed set has the characters of its set: one that a set cannot hold is in neither. -/
theorem contains (h : packed.Packs set) (c : Char) : packed.contains c = set.contains c := by
  have hinside : set.contains c = true → canHold c = true := CharSet.canHold_of_mem
  rw [PackedCharSet.contains, h.holds, ← CharSet.contains]
  cases hset : set.contains c with
  | false => rw [Bool.and_false]
  | true => rw [hinside hset, Bool.and_self]

/-- A packed set is empty when its set is. -/
theorem isEmpty (h : packed.Packs set) : packed.isEmpty = set.isEmpty := by
  rw [PackedCharSet.isEmpty, h.weight, CharSet.isEmpty]

/-- The members are listed in the same order. -/
theorem members (h : packed.Packs set) : packed.members = set.toList := by
  rw [PackedCharSet.members, h.codes, CharSet.toList_eq_map_codes, ← List.filterMap_eq_map]
  exact List.filterMap_congr fun code hcode ↦
    charOf?_of_containsCode (CharSet.mem_codes_runs.1 hcode)

/-- The same member has a number. -/
theorem nth (h : packed.Packs set) (index : Nat) : packed.nth? index = set.nth? index := by
  rw [PackedCharSet.nth?, h.weight]
  split
  · rename_i hle
    rw [set.enumerated.nth_of_le index hle]
  · rw [Bits.nthCode?_eq_getElem?, h.codes, CharSet.nth?, CharSet.nthCode?_eq_getElem?]
    cases hcode : (CharSet.codes set.runs)[index]? with
    | none => rfl
    | some code =>
      exact charOf?_of_containsCode (CharSet.mem_codes_runs.1 (List.mem_of_getElem? hcode))

/-- The same member is picked by a seed. -/
theorem sample (h : packed.Packs set) (seed : Int) : packed.sample seed = set.sample seed := by
  rw [PackedCharSet.sample, h.weight]
  split
  · rename_i hzero
    rw [CharSet.sample_of_isEmpty (by rw [CharSet.isEmpty, hzero]; rfl)]
  · cases hnth : set.nth? (seed.natAbs % set.weight) <;> simp only [CharSet.sample, h.nth, hnth]

/-- The walk over the members finds the maximal runs. -/
theorem ranges (h : packed.Packs set) : packed.ranges = set.ranges := by
  rw [PackedCharSet.ranges, h.members, set.hasMaximalRuns.eq_foldl]

/-- Packed sets are equal when their sets are. -/
theorem beq_eq (h : packed.Packs set) (hother : other.Packs second) :
    (packed == other) = (set == second) := by
  have hpacked : (packed == other) = true ↔
      packed.weight = other.weight ∧ packed.bits = other.bits :=
    Bool.and_eq_true_iff.trans (and_congr beq_iff_eq beq_iff_eq)
  refine Bool.eq_iff_iff.2 (hpacked.trans (Iff.trans ⟨fun hsame ↦ ?_, ?_⟩ beq_iff_eq.symm))
  · exact CharSet.ext_of_containsCode fun code ↦ by rw [← h.holds, ← hother.holds, hsame.2]
  · rintro rfl
    exact ⟨by rw [h.weight, hother.weight],
      Bits.ext_of_holds fun code ↦ by rw [h.holds, hother.holds]⟩

end Packs

/-! ## Operations on packed sets -/

/-- The code points of the universe are those up to U+FFFF that are no surrogates. -/
theorem containsCode_any_iff : CharSet.any.containsCode code = true ↔
    code < 0x10000 ∧ ¬ (0xD800 ≤ code ∧ code < 0xE000) := by
  refine ⟨fun hcode ↦ ?_, fun hcode ↦ ?_⟩
  · have := CharSet.lt_of_containsCode hcode
    omega
  · simp only [CharSet.containsCode, CharSet.any, Toggles.holds]
    grind

/-- A row with the bits of the members, and any bits of surrogates, gives the packed form of a
set. -/
theorem packs_ofBits (h : ∀ c, canHold c = true → bits.holds c.toNat = set.contains c) :
    (ofBits bits).Packs set where
  holds code := by
    show bits.clearSurrogates.holds code = set.containsCode code
    rw [Bits.holds_clearSurrogates, ← Bool.decide_and]
    cases hcode : CharSet.any.containsCode code with
    | true =>
      -- A code point in the universe is that of a character.
      have hchar := CharSet.toNat_ofNat_of_containsCode hcode
      have hhold : canHold (Char.ofNat code) = true := by
        rwa [← CharSet.containsCode_any, hchar]
      have hsame := h _ hhold
      rw [CharSet.contains, hchar] at hsame
      rw [decide_eq_false (containsCode_any_iff.1 hcode).2, hsame, Bool.not_false, Bool.and_true]
    | false =>
      have hset : set.containsCode code = false := Bool.eq_false_iff.2 fun hin ↦ by
        rw [CharSet.containsCode_any_of_containsCode hin] at hcode
        cases hcode
      rw [hset, Bool.eq_false_iff]
      intro hbit
      rw [Bool.and_eq_true, Bool.not_eq_true', decide_eq_false_iff_not] at hbit
      rw [containsCode_any_iff.2 ⟨Bits.lt_of_holds hbit.1, hbit.2⟩] at hcode
      cases hcode

/-- The code point of a character that a set can hold has a bit. -/
theorem lt_of_canHold (h : canHold c = true) : c.toNat < 0x10000 :=
  Nat.lt_succ_of_le (of_decide_eq_true h)

/-- The empty set. -/
theorem packs_empty : empty.Packs .empty :=
  packs_ofBits fun _ _ ↦ Bits.holds_zeroed _

/-- Setting the bits of a range adds the range. -/
theorem holds_setRange (h : canHold c = true) (bits : Bits) (first last : Char) :
    (bits.setRange first.toNat last.toNat).holds c.toNat =
      (bits.holds c.toNat || (CharSet.range first last).contains c) := by
  have hle : c.toNat ≤ CharSet.lastCode := of_decide_eq_true h
  rw [Bits.holds_setRange, CharSet.contains_range, h, decide_eq_true hle]

/-- A range of characters. -/
theorem packs_range (first last : Char) : (range first last).Packs (.range first last) :=
  packs_ofBits fun c hhold ↦ by
    rw [holds_setRange hhold, Bits.holds_zeroed, Bool.false_or]

/-- A single character. -/
theorem packs_single (c : Char) : (single c).Packs (.single c) :=
  packs_range c c

/-- A list of characters. -/
theorem packs_ofChars (chars : List Char) : (ofChars chars).Packs (.ofChars chars) :=
  packs_ofBits fun c hhold ↦ by
    have hle : c.toNat ≤ CharSet.lastCode := of_decide_eq_true hhold
    have hmem : c.toNat ∈ chars.map (·.toNat) ↔ (CharSet.ofChars chars).contains c = true := by
      rw [← CharSet.mem_iff, CharSet.mem_ofChars, List.mem_map, and_iff_left hhold]
      simp only [Char.toNat_inj, exists_eq_right]
    rw [Bits.holds_setAll, Bits.holds_zeroed, decide_eq_true hle, Bool.false_or, Bool.and_true]
    exact Bool.eq_iff_iff.2 (decide_eq_true_iff.trans hmem)

namespace Packs

/-- The union of two sets. -/
theorem union (h : packed.Packs set) (hother : other.Packs second) :
    (packed.union other).Packs (set ∪ second) :=
  packs_ofBits fun c hhold ↦ by
    rw [Bits.holds_or _ _ (lt_of_canHold hhold), h.holds, hother.holds, CharSet.contains_union]
    rfl

/-- The intersection of two sets. -/
theorem inter (h : packed.Packs set) (hother : other.Packs second) :
    (packed.inter other).Packs (set ∩ second) :=
  packs_ofBits fun c hhold ↦ by
    rw [Bits.holds_and _ _ (lt_of_canHold hhold), h.holds, hother.holds, CharSet.contains_inter]
    rfl

/-- The complement of a set. -/
theorem negate (h : packed.Packs set) : packed.negate.Packs set.negate :=
  packs_ofBits fun c hhold ↦ by
    rw [Bits.holds_map_not _ (lt_of_canHold hhold), h.holds, CharSet.contains_negate, hhold,
      Bool.true_and]
    rfl

/-- The forms of the members are the characters to which the case maps take a member. -/
theorem mem_variants (h : packed.Packs set) (folding : CaseFolding) (c : Char) :
    c.toNat ∈ packed.members.flatMap folding.variants ↔
      ∃ other ∈ set, folding.Connects other c := by
  rw [h.members, List.mem_flatMap]
  refine exists_congr fun member ↦ and_congr CharSet.mem_toList ?_
  simp only [CaseFolding.variants, CaseFolding.Connects, List.mem_map, List.mem_filter, beq_iff_eq]
  constructor
  · rintro ⟨⟨code, form⟩, ⟨hpair, rfl⟩, rfl⟩
    exact hpair
  · exact fun hpair ↦ ⟨_, ⟨hpair, rfl⟩, rfl⟩

/-- The closure of a set over letter case. -/
theorem foldCase (h : packed.Packs set) (folding : CaseFolding) :
    (packed.foldCase folding).Packs (set.foldCase folding) := by
  rw [PackedCharSet.foldCase]
  split
  · rename_i hnone
    rwa [hnone, CharSet.foldCase_none]
  · refine packs_ofBits fun c hhold ↦ ?_
    have hle : c.toNat ≤ CharSet.lastCode := of_decide_eq_true hhold
    rw [Bits.holds_setAll, h.holds, decide_eq_true hle, Bool.and_true, Bool.eq_iff_iff,
      Bool.or_eq_true, decide_eq_true_iff, h.mem_variants, ← CharSet.mem_iff,
      CharSet.mem_foldCase, and_iff_left hhold]
    rfl

/-- The bracket expression is the same. -/
theorem render (h : packed.Packs set) : packed.render = set.render := by
  rw [PackedCharSet.render, CharSet.render, renderRanges, renderRanges, CharSet.renderRanges,
    CharSet.renderRanges, h.weight, h.ranges, h.negate.ranges]

end Packs

/-- What a packed set answers to the questions about the members of a set. -/
structure Answers (packed : PackedCharSet) (set : CharSet) : Prop where
  contains (c : Char) : packed.contains c = set.contains c
  weight : packed.weight = set.weight
  isEmpty : packed.isEmpty = set.isEmpty
  members : packed.members = set.toList
  nth (index : Nat) : packed.nth? index = set.nth? index
  sample (seed : Int) : packed.sample seed = set.sample seed
  ranges : packed.ranges = set.ranges
  render : packed.render = set.render

/-- A packed set answers every question as its set does. -/
theorem Packs.answers (h : packed.Packs set) : packed.Answers set where
  contains := h.contains
  weight := h.weight
  isEmpty := h.isEmpty
  members := h.members
  nth := h.nth
  sample := h.sample
  ranges := h.ranges
  render := h.render

end PackedCharSet

/-! ## Calls on a packed builder -/

namespace PackedBuilder

variable {packed : PackedBuilder} {builder : CharSet.Builder} {packedSet : PackedCharSet}
  {set : CharSet}

/-- The packed builder stands for the builder: it has the bits of its members, and perhaps bits of
surrogates. -/
structure Packs (packed : PackedBuilder) (builder : CharSet.Builder) : Prop where
  holds (c : Char) : canHold c = true → packed.bits.holds c.toNat = builder.members.contains c
  folding : packed.folding = builder.folding
  negated : packed.negated = builder.negated

/-- A builder without members. -/
theorem packs_start (folding : CaseFolding) : (start folding).Packs (.start folding) where
  holds _ _ := Bits.holds_zeroed _
  folding := rfl
  negated := rfl

namespace Packs

/-- Adding the members of a set. -/
theorem addSet (h : packed.Packs builder) (hset : packedSet.Packs set) :
    (packed.addSet packedSet).Packs (builder.addSet set) where
  holds c hhold := by
    show Bits.holds (Vector.zipWith (· ||| ·) packed.bits packedSet.bits) c.toNat =
      (builder.members ∪ set).contains c
    rw [Bits.holds_or _ _ (PackedCharSet.lt_of_canHold hhold), h.holds c hhold, hset.holds,
      CharSet.contains_union]
    rfl
  folding := h.folding
  negated := h.negated

/-- Keeping the members that are in a set. -/
theorem keep (h : packed.Packs builder) (hset : packedSet.Packs set) :
    (packed.keep packedSet).Packs (builder.keep set) where
  holds c hhold := by
    show Bits.holds (Vector.zipWith (· &&& ·) packed.bits packedSet.bits) c.toNat =
      (builder.members ∩ set).contains c
    rw [Bits.holds_and _ _ (PackedCharSet.lt_of_canHold hhold), h.holds c hhold, hset.holds,
      CharSet.contains_inter]
    rfl
  folding := h.folding
  negated := h.negated

/-- Adding a range of characters and their other cases. -/
theorem addRange (h : packed.Packs builder) (first last : Char) :
    (packed.addRange first last).Packs (builder.addRange first last) := by
  rw [PackedBuilder.addRange]
  split
  · rename_i hnone
    refine ⟨fun c hhold ↦ ?_, h.folding, h.negated⟩
    show (packed.bits.setRange first.toNat last.toNat).holds c.toNat =
      (builder.members ∪ (CharSet.range first last).foldCase builder.folding).contains c
    rw [PackedCharSet.holds_setRange hhold, h.holds c hhold, ← h.folding, hnone,
      CharSet.foldCase_none, CharSet.contains_union]
  · rw [h.folding]
    exact h.addSet ((PackedCharSet.packs_range first last).foldCase builder.folding)

/-- Adding a character and its other cases. -/
theorem addChar (h : packed.Packs builder) (c : Char) :
    (packed.addChar c).Packs (builder.addChar c) :=
  h.addRange c c

/-- Taking the complement at the end, or no longer taking it. -/
theorem negate (h : packed.Packs builder) : packed.negate.Packs builder.negate where
  holds := h.holds
  folding := h.folding
  negated := congrArg (!·) h.negated

/-- The set that was built. -/
theorem build (h : packed.Packs builder) : packed.build.Packs builder.build := by
  have hset : (PackedCharSet.ofBits packed.bits).Packs builder.members :=
    PackedCharSet.packs_ofBits h.holds
  rw [PackedBuilder.build, CharSet.Builder.build, h.negated]
  split
  · exact hset.negate
  · exact hset

end Packs

end PackedBuilder

/-! ## Compositions -/

mutual
/-- The packed set to which a composition evaluates. -/
def SetTerm.pack : SetTerm → PackedCharSet
  | .empty => .empty
  | .single c => .single c
  | .range first last => .range first last
  | .ofChars chars => .ofChars chars
  | .union first second => first.pack.union second.pack
  | .inter first second => first.pack.inter second.pack
  | .negate term => term.pack.negate
  | .foldCase term folding => term.pack.foldCase folding
  | .build builder => builder.pack.build

/-- The packed builder to which calls lead. -/
def BuilderTerm.pack : BuilderTerm → PackedBuilder
  | .start folding => .start folding
  | .addChar builder c => builder.pack.addChar c
  | .addRange builder first last => builder.pack.addRange first last
  | .addSet builder term => builder.pack.addSet term.pack
  | .keep builder term => builder.pack.keep term.pack
  | .negate builder => builder.pack.negate
end

mutual
/-- A composition evaluates to the packed form of its set. -/
theorem SetTerm.packs_pack : (term : SetTerm) → term.pack.Packs term.eval
  | .empty => PackedCharSet.packs_empty
  | .single c => PackedCharSet.packs_single c
  | .range first last => PackedCharSet.packs_range first last
  | .ofChars chars => PackedCharSet.packs_ofChars chars
  | .union first second => first.packs_pack.union second.packs_pack
  | .inter first second => first.packs_pack.inter second.packs_pack
  | .negate term => term.packs_pack.negate
  | .foldCase term folding => term.packs_pack.foldCase folding
  | .build builder => builder.packs_pack.build

/-- Calls lead to the packed form of their builder. -/
theorem BuilderTerm.packs_pack : (builder : BuilderTerm) → builder.pack.Packs builder.eval
  | .start folding => PackedBuilder.packs_start folding
  | .addChar builder c => builder.packs_pack.addChar c
  | .addRange builder first last => builder.packs_pack.addRange first last
  | .addSet builder term => builder.packs_pack.addSet term.packs_pack
  | .keep builder term => builder.packs_pack.keep term.packs_pack
  | .negate builder => builder.packs_pack.negate
end

/-- Every composition answers every question from its words as its set does, and it is equal to
another one when their sets are equal. -/
theorem SetTerm.answers_pack (term other : SetTerm) :
    term.pack.Answers term.eval ∧ (term.pack == other.pack) = (term.eval == other.eval) :=
  ⟨term.packs_pack.answers, term.packs_pack.beq_eq other.packs_pack⟩

/-! ## Narrowing -/

namespace PackedCharSet

variable {packed : PackedCharSet} {set : CharSet}

/-- The lower-case letters and the digits of ASCII. -/
def lowerAlphanumeric : PackedCharSet :=
  (((PackedBuilder.start .none).addRange '0' '9').addRange 'a' 'z').build

/-- The letters and digits of ASCII. -/
def alphanumeric : PackedCharSet :=
  ((((PackedBuilder.start .none).addRange '0' '9').addRange 'A' 'Z').addRange 'a' 'z').build

/-- What a level makes of a set, before the empty outcome is ruled out. -/
def restrict (set : PackedCharSet) : Nat → PackedCharSet
  | 0 => set.inter alphanumeric
  | 1 => set.inter lowerAlphanumeric
  | _ => match set.nth? 0 with
    | some c => single c
    | none => empty

/-- Apply one level, unless nothing would be left. -/
def narrowStep (set : PackedCharSet) (level : Nat) : PackedCharSet :=
  if (set.restrict level).isEmpty then set else set.restrict level

/-- Apply every level from the first to the given one. -/
def narrow (set : PackedCharSet) (level : Nat) : PackedCharSet :=
  (List.range (min level (CharSet.levelCount - 1) + 1)).foldl narrowStep set

/-- The lower-case letters and the digits. -/
theorem packs_lowerAlphanumeric : lowerAlphanumeric.Packs .lowerAlphanumeric := by
  have hbuild := (((PackedBuilder.packs_start .none).addRange '0' '9').addRange 'a' 'z').build
  have heq : (((CharSet.Builder.start .none).addRange '0' '9').addRange 'a' 'z').build =
      CharSet.lowerAlphanumeric := CharSet.ext_of_contains fun c ↦ by
    simp [CharSet.Builder.build, CharSet.Builder.addRange, CharSet.Builder.start,
      CharSet.lowerAlphanumeric, CharSet.digit, CharSet.lower]
  rwa [heq] at hbuild

/-- The letters and digits. -/
theorem packs_alphanumeric : alphanumeric.Packs .alphanumeric := by
  have hbuild := ((((PackedBuilder.packs_start .none).addRange '0' '9').addRange 'A' 'Z').addRange
    'a' 'z').build
  have heq : ((((CharSet.Builder.start .none).addRange '0' '9').addRange 'A' 'Z').addRange
      'a' 'z').build = CharSet.alphanumeric := CharSet.ext_of_contains fun c ↦ by
    simp [CharSet.Builder.build, CharSet.Builder.addRange, CharSet.Builder.start,
      CharSet.alphanumeric, CharSet.digit, CharSet.upper, CharSet.lower]
  rwa [heq] at hbuild

namespace Packs

/-- What a level makes of a set. -/
theorem restrict (h : packed.Packs set) (level : Nat) :
    (packed.restrict level).Packs (set.restrict level) := by
  match level with
  | 0 => exact h.inter packs_alphanumeric
  | 1 => exact h.inter packs_lowerAlphanumeric
  | level + 2 =>
    rw [PackedCharSet.restrict.eq_def, CharSet.restrict.eq_def]
    simp only [h.nth]
    cases set.nth? 0 with
    | none => exact packs_empty
    | some c => exact packs_single c

/-- One level. -/
theorem narrowStep (h : packed.Packs set) (level : Nat) :
    (packed.narrowStep level).Packs (set.narrowStep level) := by
  have hrestrict := h.restrict level
  rw [PackedCharSet.narrowStep, CharSet.narrowStep, hrestrict.isEmpty]
  split
  · exact h
  · exact hrestrict

/-- Several levels, one after the other. -/
theorem foldl_narrowStep (h : packed.Packs set) (levels : List Nat) :
    (levels.foldl PackedCharSet.narrowStep packed).Packs (levels.foldl CharSet.narrowStep set) := by
  induction levels generalizing packed set with
  | nil => exact h
  | cons level levels ih => exact ih (h.narrowStep level)

/-- Narrowing a packed set gives the packed form of the narrowed set. -/
theorem narrow (h : packed.Packs set) (level : Nat) :
    (packed.narrow level).Packs (set.narrow level) :=
  h.foldl_narrowStep _

end Packs

end PackedCharSet

end Exemplar
