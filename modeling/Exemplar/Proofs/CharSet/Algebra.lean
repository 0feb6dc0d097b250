import Exemplar.Proofs.CharSet.Equality
import Mathlib.Data.Set.Card

/-!
# The Boolean algebra of character sets

A `SetTerm` is a composition of the operations on sets, those of a builder among them, and
`SetTerm.Holds` says which characters such a composition stands for. The set that a composition
evaluates to has just these members, and it obeys the laws of the Boolean algebra of all characters
that a set can hold (`SetTerm.eval_lawful`). The weight of a set counts its members, because it
counts the code points that the set holds.
-/

namespace Exemplar

/-! ## Members -/

/-- The case maps take the one character to the other. -/
def CaseFolding.Connects (folding : CaseFolding) (c other : Char) : Prop :=
  (c.toNat, other.toNat) ∈ folding.pairs

/-- The character or one that the case maps take to it has a property. -/
def CaseFolding.Closure (folding : CaseFolding) (property : Char → Prop) (c : Char) : Prop :=
  property c ∨ (∃ other, property other ∧ folding.Connects other c) ∧
  CharSet.canHold c = true

namespace CharSet

variable {first second set : CharSet} {c : Char}

/-- A member is a character that the set contains. -/
theorem mem_iff : c ∈ set ↔ set.contains c = true :=
  Iff.rfl

/-- A character that a set can hold belongs to the full set under its code point. -/
theorem containsCode_any (c : Char) : any.containsCode c.toNat = canHold c :=
  contains_any c

/-- No character beyond the universe is a member. -/
theorem canHold_of_mem (h : c ∈ set) : canHold c = true := by
  rw [← containsCode_any]
  exact containsCode_any_of_containsCode h

/-- The members of a union are those of either set. -/
theorem mem_union : c ∈ first ∪ second ↔ c ∈ first ∨ c ∈ second := by
  show (first ∪ second).contains c = true ↔ _
  rw [contains_union, Bool.or_eq_true]
  rfl

/-- The members of an intersection are those of both sets. -/
theorem mem_inter : c ∈ first ∩ second ↔ c ∈ first ∧ c ∈ second := by
  show (first ∩ second).contains c = true ↔ _
  rw [contains_inter, Bool.and_eq_true]
  rfl

/-- The members of a complement are the characters that a set can hold and that are no members. -/
theorem mem_negate : c ∈ set.negate ↔ canHold c = true ∧ c ∉ set := by
  show set.negate.contains c = true ↔ canHold c = true ∧ ¬ set.contains c = true
  rw [contains_negate, Bool.and_eq_true, Bool.not_eq_true', Bool.not_eq_true]

/-- The members of a range are the characters from its first to its last. -/
theorem mem_range {first last : Char} :
    c ∈ range first last ↔ (first.toNat ≤ c.toNat ∧ c.toNat ≤ last.toNat) ∧
    canHold c = true := by
  rw [mem_iff, contains_range, Bool.and_eq_true, Bool.and_eq_true, decide_eq_true_eq,
    decide_eq_true_eq]

/-- The only member of a set of one character is the character, if a set can hold it. -/
theorem mem_single {other : Char} : c ∈ single other ↔ c = other ∧ canHold c = true := by
  rw [single, mem_range]
  refine and_congr_left' ⟨fun h ↦ Char.toNat_inj.1 (Nat.le_antisymm h.2 h.1), ?_⟩
  rintro rfl
  exact ⟨Nat.le_refl _, Nat.le_refl _⟩

/-- The members of a list of characters are those that a set can hold. -/
theorem mem_ofChars {chars : List Char} :
    c ∈ ofChars chars ↔ c ∈ chars ∧ canHold c = true := by
  induction chars with
  | nil => simp [mem_iff, ofChars]
  | cons other chars ih =>
    have hcons : c ∈ ofChars (other :: chars) ↔ c ∈ single other ∨ c ∈ ofChars chars :=
      mem_union
    rw [hcons, mem_single, ih, List.mem_cons, or_and_right]

/-- The members of a list of code points are the characters with these code points that a set can
hold. -/
theorem mem_ofCodes {codes : List Nat} :
    c ∈ ofCodes codes ↔ c.toNat ∈ codes ∧ canHold c = true := by
  induction codes with
  | nil => simp [mem_iff, ofCodes]
  | cons code codes ih =>
    have hcons : c ∈ ofCodes (code :: codes) ↔
        (between code (code + 1)).containsCode c.toNat = true ∨ c ∈ ofCodes codes := mem_union
    have hone : (between code (code + 1)).containsCode c.toNat = true ↔
        c.toNat = code ∧ canHold c = true := by
      rw [containsCode_between, containsCode_any, Bool.and_eq_true, Bool.and_eq_true,
        decide_eq_true_eq, decide_eq_true_eq]
      exact and_congr_left' (by omega)
    rw [hcons, hone, ih, List.mem_cons, or_and_right]

/-- Folding adds the characters to which the case maps take a member. -/
theorem mem_foldCase {folding : CaseFolding} :
    c ∈ set.foldCase folding ↔
      c ∈ set ∨ (∃ other ∈ set, folding.Connects other c) ∧ canHold c = true := by
  have hunion : c ∈ set.foldCase folding ↔ c ∈ set ∨
      c ∈ ofCodes ((folding.pairs.filter fun pair ↦ set.containsCode pair.1).map (·.2)) :=
        mem_union
  rw [hunion, mem_ofCodes]
  refine or_congr_right (and_congr_left' ?_)
  constructor
  · intro h
    obtain ⟨⟨code, form⟩, hpair, hform⟩ := List.mem_map.1 h
    obtain ⟨hpair, hcode⟩ := List.mem_filter.1 hpair
    have hform : form = c.toNat := hform
    subst hform
    -- The code point that is mapped is held by the set, so it is that of a character.
    refine ⟨Char.ofNat code, ofNat_mem hcode, ?_⟩
    show ((Char.ofNat code).toNat, c.toNat) ∈ folding.pairs
    rw [toNat_ofNat_of_containsCode hcode]
    exact hpair
  · rintro ⟨other, hother, hconnects⟩
    exact List.mem_map.2 ⟨_, List.mem_filter.2 ⟨hconnects, hother⟩, rfl⟩

/-- Folding a set closes a property that decides its members. -/
theorem mem_foldCase_iff {property : Char → Prop} (h : ∀ c, c ∈ set ↔ property c)
    (folding : CaseFolding) (c : Char) :
    c ∈ set.foldCase folding ↔ folding.Closure property c := by
  rw [mem_foldCase, CaseFolding.Closure]
  simp only [h]

/-! ## Weights -/

/-- The weight of a set is the number of its members. -/
theorem weight_eq_ncard (set : CharSet) : set.weight = {c : Char | c ∈ set}.ncard := by
  have hinjective : Function.Injective Char.toNat := fun _ _ ↦ Char.toNat_inj.1
  have himage : Char.toNat '' {c : Char | c ∈ set} =
      ((Finset.range 0x10000).filter fun code ↦ set.containsCode code = true : Finset Nat) := by
    ext code
    rw [Set.mem_image, Finset.mem_coe, Finset.mem_filter, Finset.mem_range]
    constructor
    · rintro ⟨c, hmem, rfl⟩
      have hlt := lt_of_containsCode hmem
      exact ⟨by omega, hmem⟩
    · rintro ⟨-, hcode⟩
      exact ⟨Char.ofNat code, ofNat_mem hcode, toNat_ofNat_of_containsCode hcode⟩
  rw [weight_eq_card, ← Set.ncard_coe_finset, ← himage,
    Set.ncard_image_of_injective _ hinjective]

/-- The members of a set and those of its complement are all characters that a set can hold. -/
theorem weight_negate (set : CharSet) : set.negate.weight + set.weight = fullSize := by
  have hfull : any.weight = fullSize := by decide
  have hnegate (code : Nat) : set.negate.containsCode code =
      (any.containsCode code && !set.containsCode code) :=
    containsCode_combine (fun inAny inSet ↦ inAny && !inSet) rfl any set code
  have hdisjoint :
      Disjoint ((Finset.range 0x10000).filter fun code ↦ set.negate.containsCode code = true)
      ((Finset.range 0x10000).filter fun code ↦ set.containsCode code = true) := by
    refine Finset.disjoint_left.2 fun code hleft hright ↦ ?_
    have hleft := (Finset.mem_filter.1 hleft).2
    rw [hnegate, (Finset.mem_filter.1 hright).2] at hleft
    simp at hleft
  rw [← hfull, weight_eq_card, weight_eq_card, weight_eq_card,
    ← Finset.card_union_of_disjoint hdisjoint, ← Finset.filter_or]
  refine congrArg Finset.card (Finset.filter_congr fun code _ ↦ ?_)
  rw [hnegate]
  cases hset : set.containsCode code with
  | false => simp
  | true => simp [containsCode_any_of_containsCode hset]

/-! ## The laws -/

/-- The complement of a union is the intersection of the complements. -/
theorem negate_union (first second : CharSet) :
    (first ∪ second).negate = first.negate ∩ second.negate := by
  refine ext_of_contains fun c ↦ ?_
  rw [contains_negate, contains_union, contains_inter, contains_negate, contains_negate]
  cases canHold c <;> simp

/-- The complement of an intersection is the union of the complements. -/
theorem negate_inter (first second : CharSet) :
    (first ∩ second).negate = first.negate ∪ second.negate := by
  refine ext_of_contains fun c ↦ ?_
  rw [contains_negate, contains_inter, contains_union, contains_negate, contains_negate]
  cases canHold c <;> simp

/-- What two sets owe to the Boolean algebra of all characters that a set can hold. The first set
holds no half of a surrogate pair and nothing beyond U+FFFF, its weight is the number of its
members, and it is equal to the second one when both have the same members. Unions, intersections
and complements have the members that they should have, and complements exchange unions and
intersections. The complement of the complement is the set and has the same samples, and a set and
its complement have 63488 members together. -/
structure Lawful (first second : CharSet) : Prop where
  surrogate (code : Nat) : 0xD800 ≤ code → code ≤ 0xDFFF → first.containsCode code = false
  weight : first.weight = {c : Char | first.contains c = true}.ncard
  beq : (first == second) = true ↔ ∀ c, first.contains c = second.contains c
  union (c : Char) : (first ∪ second).contains c = (first.contains c || second.contains c)
  inter (c : Char) : (first ∩ second).contains c = (first.contains c && second.contains c)
  outside (c : Char) : 0xFFFF < c.toNat → first.contains c = false
  negate (c : Char) : c.toNat ≤ 0xFFFF → first.negate.contains c = !first.contains c
  involutive : first.negate.negate = first
  sample (seed : Int) : first.negate.negate.sample seed = first.sample seed
  negate_union : (first ∪ second).negate = first.negate ∩ second.negate
  negate_inter : (first ∩ second).negate = first.negate ∪ second.negate
  weight_negate : first.negate.weight + first.weight = 63488

/-- Any two sets obey the laws. -/
theorem lawful (first second : CharSet) : Lawful first second where
  surrogate code hlow hhigh := by
    by_contra hne
    have hlt := lt_of_containsCode (Bool.eq_true_of_not_eq_false hne)
    omega
  weight := weight_eq_ncard first
  beq := by
    rw [beq_iff_eq]
    exact ⟨fun heq c ↦ heq ▸ rfl, ext_of_contains⟩
  union := contains_union first second
  inter := contains_inter first second
  outside c hlarge := by
    by_contra hne
    have hmem : c ∈ first := Bool.eq_true_of_not_eq_false hne
    have hhold := canHold_of_mem hmem
    have hle : c.toNat ≤ 0xFFFF := of_decide_eq_true hhold
    omega
  negate c hle := by
    have hhold : canHold c = true := decide_eq_true hle
    rw [contains_negate, hhold, Bool.true_and]
  involutive := negate_negate first
  sample seed := by rw [negate_negate]
  negate_union := CharSet.negate_union first second
  negate_inter := CharSet.negate_inter first second
  weight_negate := CharSet.weight_negate first

end CharSet

/-! ## Compositions -/

mutual
/-- A composition of the operations on sets, those of a builder among them. -/
inductive SetTerm where
  | empty
  | single (c : Char)
  | range (first last : Char)
  | ofChars (chars : List Char)
  | union (first second : SetTerm)
  | inter (first second : SetTerm)
  | negate (term : SetTerm)
  | foldCase (term : SetTerm) (folding : CaseFolding)
  | build (builder : BuilderTerm)

/-- A composition of the calls on a builder. -/
inductive BuilderTerm where
  | start (folding : CaseFolding)
  | addChar (builder : BuilderTerm) (c : Char)
  | addRange (builder : BuilderTerm) (first last : Char)
  | addSet (builder : BuilderTerm) (term : SetTerm)
  | keep (builder : BuilderTerm) (term : SetTerm)
  | negate (builder : BuilderTerm)
end

mutual
/-- The set to which a composition evaluates. -/
def SetTerm.eval : SetTerm → CharSet
  | .empty => .empty
  | .single c => .single c
  | .range first last => .range first last
  | .ofChars chars => .ofChars chars
  | .union first second => first.eval ∪ second.eval
  | .inter first second => first.eval ∩ second.eval
  | .negate term => term.eval.negate
  | .foldCase term folding => term.eval.foldCase folding
  | .build builder => builder.eval.build

/-- The builder to which calls lead. -/
def BuilderTerm.eval : BuilderTerm → CharSet.Builder
  | .start folding => .start folding
  | .addChar builder c => builder.eval.addChar c
  | .addRange builder first last => builder.eval.addRange first last
  | .addSet builder term => builder.eval.addSet term.eval
  | .keep builder term => builder.eval.keep term.eval
  | .negate builder => builder.eval.negate
end

/-- The case maps of a builder. -/
def BuilderTerm.folding : BuilderTerm → CaseFolding
  | .start folding => folding
  | .addChar builder _ | .addRange builder _ _ | .addSet builder _ | .keep builder _
  | .negate builder => builder.folding

/-- Whether the calls take the complement in the end: they do after an odd number of negations. -/
def BuilderTerm.isNegated : BuilderTerm → Bool
  | .start _ => false
  | .negate builder => !builder.isNegated
  | .addChar builder _ | .addRange builder _ _ | .addSet builder _ | .keep builder _ =>
      builder.isNegated

mutual
/-- A composition stands for the character. -/
def SetTerm.Holds : SetTerm → Char → Prop
  | .empty, _ => False
  | .single other, c => c = other ∧ CharSet.canHold c = true
  | .range first last, c =>
      (first.toNat ≤ c.toNat ∧ c.toNat ≤ last.toNat) ∧ CharSet.canHold c = true
  | .ofChars chars, c => c ∈ chars ∧ CharSet.canHold c = true
  | .union first second, c => first.Holds c ∨ second.Holds c
  | .inter first second, c => first.Holds c ∧ second.Holds c
  | .negate term, c => CharSet.canHold c = true ∧ ¬ term.Holds c
  | .foldCase term folding, c => folding.Closure term.Holds c
  | .build builder, c =>
      if builder.isNegated then CharSet.canHold c = true ∧ ¬ builder.Lists c else builder.Lists c

/-- The calls have listed the character, before any complement. -/
def BuilderTerm.Lists : BuilderTerm → Char → Prop
  | .start _, _ => False
  | .addChar builder other, c =>
      builder.Lists c ∨
        builder.folding.Closure (fun c ↦ c = other ∧ CharSet.canHold c = true) c
  | .addRange builder first last, c =>
      builder.Lists c ∨
        builder.folding.Closure
          (fun c ↦ (first.toNat ≤ c.toNat ∧ c.toNat ≤ last.toNat) ∧
            CharSet.canHold c = true) c
  | .addSet builder term, c => builder.Lists c ∨ term.Holds c
  | .keep builder term, c => builder.Lists c ∧ term.Holds c
  | .negate builder, c => builder.Lists c
end

/-- Calls keep the case maps of a builder. -/
theorem BuilderTerm.eval_folding :
    (builder : BuilderTerm) → builder.eval.folding = builder.folding
  | .start _ => rfl
  | .addChar builder _ => eval_folding builder
  | .addRange builder _ _ => eval_folding builder
  | .addSet builder _ => eval_folding builder
  | .keep builder _ => eval_folding builder
  | .negate builder => eval_folding builder

/-- A builder takes the complement after an odd number of negations. -/
theorem BuilderTerm.eval_negated :
    (builder : BuilderTerm) → builder.eval.negated = builder.isNegated
  | .start _ => rfl
  | .addChar builder _ => eval_negated builder
  | .addRange builder _ _ => eval_negated builder
  | .addSet builder _ => eval_negated builder
  | .keep builder _ => eval_negated builder
  | .negate builder => congrArg (!·) (eval_negated builder)

open CharSet

mutual
/-- The members of the set to which a composition evaluates are the characters that it stands
for. -/
theorem SetTerm.mem_eval (c : Char) : (term : SetTerm) → (c ∈ term.eval ↔ term.Holds c)
  | .empty => by simp [SetTerm.eval, SetTerm.Holds, mem_iff]
  | .single _ => by rw [SetTerm.eval, SetTerm.Holds, mem_single]
  | .range _ _ => by rw [SetTerm.eval, SetTerm.Holds, mem_range]
  | .ofChars _ => by rw [SetTerm.eval, SetTerm.Holds, mem_ofChars]
  | .union first second => by
      rw [SetTerm.eval, SetTerm.Holds, mem_union, first.mem_eval c, second.mem_eval c]
  | .inter first second => by
      rw [SetTerm.eval, SetTerm.Holds, mem_inter, first.mem_eval c, second.mem_eval c]
  | .negate term => by rw [SetTerm.eval, SetTerm.Holds, mem_negate, term.mem_eval c]
  | .foldCase term _ => by
      rw [SetTerm.eval, SetTerm.Holds, mem_foldCase_iff fun other ↦ term.mem_eval other]
  | .build builder => by
      have hmembers := builder.mem_eval_members c
      rw [SetTerm.eval, SetTerm.Holds, Builder.build, builder.eval_negated]
      split
      · rw [mem_negate, hmembers]
      · exact hmembers

/-- The members of the builder to which calls lead are the characters that they have listed. -/
theorem BuilderTerm.mem_eval_members (c : Char) :
    (builder : BuilderTerm) → (c ∈ builder.eval.members ↔ builder.Lists c)
  | .start _ => by simp [BuilderTerm.eval, BuilderTerm.Lists, Builder.start, mem_iff]
  | .addChar builder _ => by
      rw [BuilderTerm.eval, BuilderTerm.Lists, Builder.addChar, Builder.addRange, mem_union,
        builder.mem_eval_members c, builder.eval_folding]
      exact or_congr_right (mem_foldCase_iff (fun _ ↦ mem_single) builder.folding c)
  | .addRange builder _ _ => by
      rw [BuilderTerm.eval, BuilderTerm.Lists, Builder.addRange, mem_union,
        builder.mem_eval_members c, builder.eval_folding]
      exact or_congr_right (mem_foldCase_iff (fun _ ↦ mem_range) builder.folding c)
  | .addSet builder term => by
      rw [BuilderTerm.eval, BuilderTerm.Lists, Builder.addSet, mem_union,
        builder.mem_eval_members c, term.mem_eval c]
  | .keep builder term => by
      rw [BuilderTerm.eval, BuilderTerm.Lists, Builder.keep, mem_inter, builder.mem_eval_members c,
        term.mem_eval c]
  | .negate builder => builder.mem_eval_members c
end

/-- A composition of the operations on sets evaluates to the characters that it stands for, and it
obeys the laws of the Boolean algebra of sets together with any other composition. -/
theorem SetTerm.eval_lawful (term other : SetTerm) :
    (∀ c, c ∈ term.eval ↔ term.Holds c) ∧ Lawful term.eval other.eval :=
  ⟨fun c ↦ term.mem_eval c, lawful term.eval other.eval⟩

end Exemplar
