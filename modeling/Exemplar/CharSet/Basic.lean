import Exemplar.CharSet.Toggles
import Exemplar.Size

/-!
# Character sets

A `CharSet` is a set of characters up to U+FFFF. Surrogates are no characters, so the universe has
two parts, one below and one above them. A set is stored as the increasing list of the code points
at which membership changes. Equal lists have equal members, and the lemmas `contains_union`,
`contains_inter` and `contains_negate` say that the sets form a Boolean algebra.
-/

namespace Exemplar

/-- A set of characters up to U+FFFF. The `toggles` are the code points at which membership
changes, in increasing order, and by `inside` every member is a code point below U+10000 that is no
surrogate. -/
structure CharSet where
  toggles : List Nat
  sorted : toggles.Pairwise (· < ·)
  inside : ∀ code, Toggles.holds toggles code → Toggles.holds [0, 0xD800, 0xE000, 0x10000] code
  deriving DecidableEq

namespace CharSet

/-- The last character that a set can hold. -/
def lastCode : Nat := 0xFFFF

/-- The number of characters that a set can hold. -/
def fullSize : Nat := 0x10000 - 0x800

/-- Whether a set can hold the character. -/
def canHold (c : Char) : Bool :=
  c.toNat ≤ lastCode

/-- Whether the code point is that of a member. -/
def containsCode (set : CharSet) (code : Nat) : Bool :=
  Toggles.holds set.toggles code

/-- Whether the character is a member. -/
def contains (set : CharSet) (c : Char) : Bool :=
  set.containsCode c.toNat

instance : Membership Char CharSet where
  mem set c := set.contains c = true

instance (set : CharSet) (c : Char) : Decidable (c ∈ set) :=
  inferInstanceAs (Decidable (_ = _))

/-- The set without members. -/
def empty : CharSet where
  toggles := []
  sorted := .nil
  inside := by simp [Toggles.holds]

instance : EmptyCollection CharSet := ⟨empty⟩

instance : Inhabited CharSet := ⟨empty⟩

/-- The set of all characters that a set can hold. -/
def any : CharSet where
  toggles := [0, 0xD800, 0xE000, 0x10000]
  sorted := by decide
  inside _ h := h

/-- The set whose members are decided by membership in two sets. -/
def combine (rule : Bool → Bool → Bool) (hrule : rule false false = false)
    (first second : CharSet) : CharSet where
  toggles := Toggles.combine rule false false first.toggles second.toggles
  sorted := Toggles.combine_sorted rule false false first.sorted second.sorted
  inside code h := by
    have hcombine := Toggles.holds_combine rule false false first.sorted second.sorted code
    have hfirst := first.inside code
    have hsecond := second.inside code
    revert hcombine hfirst hsecond
    cases Toggles.holds first.toggles code <;> cases Toggles.holds second.toggles code <;>
      simp_all

/-- The members of either set. -/
def union (first second : CharSet) : CharSet :=
  combine (· || ·) rfl first second

/-- The members of both sets. -/
def inter (first second : CharSet) : CharSet :=
  combine (· && ·) rfl first second

/-- The characters of the universe that are no members. -/
def negate (set : CharSet) : CharSet :=
  combine (fun inAny inSet ↦ inAny && !inSet) rfl any set

instance : Union CharSet := ⟨union⟩

instance : Inter CharSet := ⟨inter⟩

/-- The characters from one code point up to, but without, another one. -/
def between (first stop : Nat) : CharSet :=
  if h : first < stop then
    { toggles := Toggles.combine (· && ·) false false [first, stop] any.toggles
      sorted := Toggles.combine_sorted _ _ _ (by simpa using h) any.sorted
      inside := fun code hcode ↦ by
        have := Toggles.holds_combine (· && ·) false false
          (show [first, stop].Pairwise (· < ·) by simpa using h) any.sorted code
        rw [hcode] at this
        simp only [Bool.and_self, Bool.false_bne] at this
        exact (Bool.and_eq_true_iff.1 this.symm).2 }
  else empty

/-- The characters from `first` to `last`, as far as a set can hold them. -/
def range (first last : Char) : CharSet :=
  between first.toNat (last.toNat + 1)

/-- The set of one character, and the empty set if a set cannot hold it. -/
def single (c : Char) : CharSet :=
  range c c

/-- The characters with the given code points. -/
def ofCodes (codes : List Nat) : CharSet :=
  codes.foldr (fun code set ↦ between code (code + 1) ∪ set) empty

/-- The listed characters. -/
def ofChars (chars : List Char) : CharSet :=
  chars.foldr (fun c set ↦ single c ∪ set) empty

/-- The members of any of the sets. -/
def unionAll (sets : List CharSet) : CharSet :=
  sets.foldr union empty

/-- The runs of members, each from its first code point to the one after its last. -/
def runs (set : CharSet) : List (Nat × Nat) :=
  Toggles.runs set.toggles

/-- The number of members. -/
def weight (set : CharSet) : Nat :=
  Size.total (set.runs.map fun (first, stop) ↦ stop - first)

/-- Whether there are no members. -/
def isEmpty (set : CharSet) : Bool :=
  set.weight == 0

/-- A character that is a member is one of those that a set can hold. -/
theorem containsCode_any_of_containsCode {set : CharSet} {code : Nat}
    (h : set.containsCode code = true) : any.containsCode code = true :=
  set.inside code h

/-- Membership in a combination is decided by the rule. -/
theorem containsCode_combine (rule : Bool → Bool → Bool) (hrule : rule false false = false)
    (first second : CharSet) (code : Nat) :
    (combine rule hrule first second).containsCode code =
      rule (first.containsCode code) (second.containsCode code) := by
  have h := Toggles.holds_combine rule false false first.sorted second.sorted code
  simpa [hrule, containsCode, combine] using h

/-- No character is a member of the empty set. -/
@[simp] theorem contains_empty (c : Char) : empty.contains c = false :=
  rfl

/-- A union has the members of either set. -/
@[simp] theorem contains_union (first second : CharSet) (c : Char) :
    (first ∪ second).contains c = (first.contains c || second.contains c) :=
  containsCode_combine (· || ·) rfl first second c.toNat

/-- An intersection has the members of both sets. -/
@[simp] theorem contains_inter (first second : CharSet) (c : Char) :
    (first ∩ second).contains c = (first.contains c && second.contains c) :=
  containsCode_combine (· && ·) rfl first second c.toNat

/-- The full set has every character that a set can hold. -/
@[simp] theorem contains_any (c : Char) : any.contains c = canHold c := by
  have hvalid := c.valid
  have hcode : c.toNat < 0xD800 ∨ 0xDFFF < c.toNat ∧ c.toNat < 0x110000 := hvalid
  simp only [contains, containsCode, any, canHold, lastCode, Toggles.holds]
  grind

/-- A complement has the characters of the universe that are no members. -/
@[simp] theorem contains_negate (set : CharSet) (c : Char) :
    set.negate.contains c = (canHold c && !set.contains c) := by
  rw [← contains_any]
  exact containsCode_combine (fun inAny inSet ↦ inAny && !inSet) rfl any set c.toNat

end CharSet

end Exemplar
