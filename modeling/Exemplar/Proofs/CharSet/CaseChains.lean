import Exemplar.CharSet.Folding

/-!
# Chains of case maps

A form of a character can have a form itself. Nearly always that is the character again or another
form of the character. `CaseFolding.detours` lists the others (`CaseFolding.chain_cases`): the
Kelvin sign has the lower case k, whose upper case is the letter K, and K is no form of the Kelvin
sign. The chains end there, because no form is a character at which a detour starts
(`CaseFolding.first_ne_form`).

The facts about the tables are decided for one character after the other, with its forms looked up
in a table that is packed into one number.
-/

namespace Exemplar

/-- The code points that belong to a run are listed in it. -/
theorem Unicode.Run.mem_codes {run : Unicode.Run} {code : Nat} (h : run.contains code = true) :
    code ∈ run.codes := by
  simp only [contains, Bool.and_eq_true, decide_eq_true_eq, beq_iff_eq] at h
  obtain ⟨⟨hfirst, hlast⟩, hstep⟩ := h
  refine List.mem_range'.2 ⟨(code - run.first) / run.step, ?_, ?_⟩
  · have hle : (code - run.first) / run.step ≤ (run.last - run.first) / run.step :=
      Nat.div_le_div_right (Nat.sub_le_sub_right hlast _)
    omega
  · rw [Nat.mul_div_cancel' (Nat.dvd_of_mod_eq_zero hstep), Nat.add_sub_cancel' hfirst]

namespace CaseFolding

/-- A character with a form that takes two case maps: `via` is a form of `first`, and `last` is a
form of `via` that is neither the first character nor one of its forms. -/
structure Detour where
  first : Char
  via : Char
  last : Char
  deriving DecidableEq

/-- The detours of all characters. -/
def unicodeDetours : List Detour :=
  [⟨'\u00B5', '\u039C', '\u03BC'⟩, ⟨'\u0131', '\u0049', '\u0069'⟩,
  ⟨'\u017F', '\u0053', '\u0073'⟩,
   ⟨'\u0345', '\u0399', '\u03B9'⟩, ⟨'\u03C2', '\u03A3', '\u03C3'⟩,
   ⟨'\u03D0', '\u0392', '\u03B2'⟩,
   ⟨'\u03D1', '\u0398', '\u03B8'⟩, ⟨'\u03D5', '\u03A6', '\u03C6'⟩,
   ⟨'\u03D6', '\u03A0', '\u03C0'⟩,
   ⟨'\u03F0', '\u039A', '\u03BA'⟩, ⟨'\u03F1', '\u03A1', '\u03C1'⟩,
   ⟨'\u03F4', '\u03B8', '\u0398'⟩,
   ⟨'\u03F5', '\u0395', '\u03B5'⟩, ⟨'\u1C80', '\u0412', '\u0432'⟩,
   ⟨'\u1C81', '\u0414', '\u0434'⟩,
   ⟨'\u1C82', '\u041E', '\u043E'⟩, ⟨'\u1C83', '\u0421', '\u0441'⟩,
   ⟨'\u1C84', '\u0422', '\u0442'⟩,
   ⟨'\u1C85', '\u0422', '\u0442'⟩, ⟨'\u1C86', '\u042A', '\u044A'⟩,
   ⟨'\u1C87', '\u0462', '\u0463'⟩,
   ⟨'\u1C88', '\uA64A', '\uA64B'⟩, ⟨'\u1E9B', '\u1E60', '\u1E61'⟩,
   ⟨'\u1FBE', '\u0399', '\u03B9'⟩,
   ⟨'\u2126', '\u03C9', '\u03A9'⟩, ⟨'\u212A', '\u006B', '\u004B'⟩,
   ⟨'\u212B', '\u00E5', '\u00C5'⟩]

/-- The detours of the case maps. -/
def detours : CaseFolding → List Detour
  | none | ascii => []
  | unicode => unicodeDetours

/-! ## The tables -/

/-- The characters that have a lower-case form, each with the form. -/
def lowerPairs : List (Nat × Nat) :=
  Unicode.toLower.flatMap (·.pairs)

/-- The characters that have an upper-case form, each with the form. -/
def upperPairs : List (Nat × Nat) :=
  Unicode.toUpper.flatMap (·.pairs)

/-- The title-case letters, each with its two forms, which are forms of one another. -/
def titlePairs : List (Nat × Nat) :=
  [(0x1C5, 0x1C4), (0x1C5, 0x1C6), (0x1C8, 0x1C7), (0x1C8, 0x1C9), (0x1CB, 0x1CA), (0x1CB, 0x1CC),
   (0x1F2, 0x1F1), (0x1F2, 0x1F3)]

/-- The table as one number, in which the form of a code point has sixteen bits of its own. -/
def pack (pairs : List (Nat × Nat)) : Nat :=
  pairs.foldr (fun pair table ↦ table ||| pair.2 <<< (16 * pair.1)) 0

/-- The form of a code point in a packed table. -/
def formAt (table code : Nat) : Nat :=
  (table >>> (16 * code)) % 0x10000

/-- What a form of a form of a character can be: nothing, the character, a form of a title-case
letter or the end of a detour. -/
def IsChainEnd (code last : Nat) : Prop :=
  last = 0 ∨ last = code ∨ (code, last) ∈ titlePairs ∨
    ∃ detour ∈ unicodeDetours, detour.first.toNat = code ∧ detour.last.toNat = last

instance (code last : Nat) : Decidable (IsChainEnd code last) :=
  inferInstanceAs (Decidable (_ ∨ _))

/-- What the table adds to the forms of all characters ends chains. The forms are looked up in the
packed table, which has every entry of the table. What is found for a form ends a chain, and what
is found for the start of a detour is not its end. -/
structure EndsChains (pairs : List (Nat × Nat)) : Prop where
  formAt_eq : ∀ pair ∈ pairs, formAt (pack pairs) pair.1 = pair.2
  isChainEnd : ∀ pair ∈ unicodePairs, IsChainEnd pair.1 (formAt (pack pairs) pair.2)
  formAt_ne : ∀ detour ∈ unicodeDetours,
  formAt (pack pairs) detour.first.toNat ≠ detour.last.toNat

/-- The lower-case forms end chains. -/
theorem endsChains_lowerPairs : EndsChains lowerPairs where
  formAt_eq := by decide +kernel
  isChainEnd := by decide +kernel
  formAt_ne := by decide +kernel

/-- The upper-case forms end chains. -/
theorem endsChains_upperPairs : EndsChains upperPairs where
  formAt_eq := by decide +kernel
  isChainEnd := by decide +kernel
  formAt_ne := by decide +kernel

/-- The code points at which a detour starts, as the bits of a number. -/
def detourMarks : Nat :=
  unicodeDetours.foldr (fun detour marks ↦ marks ||| 1 <<< detour.first.toNat) 0

/-- The characters and their forms are below U+10000, and no form starts a detour. -/
theorem unicodePairs_inside : ∀ pair ∈ unicodePairs,
    pair.1 ≤ 0xFFFF ∧ pair.2 ≤ 0xFFFF ∧ pair.2 ≠ 0 ∧
    detourMarks.testBit pair.2 = false := by
  decide +kernel

/-- Every start of a detour is marked. -/
theorem testBit_detourMarks :
    ∀ detour ∈ unicodeDetours, detourMarks.testBit detour.first.toNat = true := by
  decide +kernel

/-- A distance in the tables takes the one code point to the other. -/
def IsShifted (code form : Nat) : Prop :=
  ∃ shift ∈ Unicode.toLower ++ Unicode.toUpper,
    shift.run.contains code = true ∧ (code + shift.distance).toNat = form

instance (code form : Nat) : Decidable (IsShifted code form) :=
  inferInstanceAs (Decidable (∃ shift ∈ _, _))

/-- The title-case letters have their forms. -/
theorem isShifted_titlePairs : ∀ pair ∈ titlePairs, IsShifted pair.1 pair.2 := by
  decide +kernel

/-- The detours consist of distances in the tables. -/
theorem isShifted_detours : ∀ detour ∈ unicodeDetours,
    IsShifted detour.first.toNat detour.via.toNat ∧
    IsShifted detour.via.toNat detour.last.toNat := by
  decide +kernel

/-- A letter of ASCII and its other case are forms of one another only. -/
theorem asciiPairs_back : ∀ pair ∈ asciiPairs, (pair.2, pair.1) ∈ asciiPairs ∧
    ∀ next ∈ asciiPairs, next.1 = pair.2 → next.2 = pair.1 := by
  decide +kernel

/-- A distance in the tables takes a character to a form. -/
theorem mem_unicodePairs_of_isShifted {code form : Nat} (h : IsShifted code form) :
    (code, form) ∈ unicodePairs := by
  obtain ⟨shift, hshift, hrun, rfl⟩ := h
  exact List.mem_flatMap.2 ⟨shift, hshift,
    List.mem_map.2 ⟨code, Unicode.Run.mem_codes hrun, rfl⟩⟩

/-- The forms of the characters are entries of a table that ends chains. -/
theorem exists_endsChains {pair : Nat × Nat} (h : pair ∈ unicodePairs) :
    ∃ pairs, EndsChains pairs ∧ pair ∈ pairs := by
  rw [unicodePairs, List.flatMap_append, List.mem_append] at h
  rcases h with hlower | hupper
  · exact ⟨lowerPairs, endsChains_lowerPairs, hlower⟩
  · exact ⟨upperPairs, endsChains_upperPairs, hupper⟩

/-! ## Chains -/

variable {folding : CaseFolding} {code form last : Nat} {detour : Detour}

/-- A form of a form of a character is the character, a form of the character or the end of a
detour. -/
theorem chain_cases (hform : (code, form) ∈ folding.pairs)
    (hlast : (form, last) ∈ folding.pairs) :
    last = code ∨ (code, last) ∈ folding.pairs ∨
      ∃ detour ∈ folding.detours, detour.first.toNat = code ∧ detour.last.toNat = last := by
  cases folding with
  | none => cases hform
  | ascii => exact .inl ((asciiPairs_back _ hform).2 _ hlast rfl)
  | unicode =>
    obtain ⟨pairs, hpairs, hmem⟩ := exists_endsChains hlast
    have hend : IsChainEnd code (formAt (pack pairs) form) := hpairs.isChainEnd (code, form) hform
    rw [show formAt (pack pairs) form = last from hpairs.formAt_eq (form, last) hmem] at hend
    rcases hend with hzero | hback | htitle | hdetour
    · exact absurd hzero (unicodePairs_inside _ hlast).2.2.1
    · exact .inl hback
    · exact .inr (.inl (mem_unicodePairs_of_isShifted (isShifted_titlePairs _ htitle)))
    · exact .inr (.inr hdetour)

/-- There are no detours when only the letters of ASCII have two cases. -/
theorem eq_unicode_of_mem_detours (h : detour ∈ folding.detours) :
    folding = .unicode := by
  cases folding with
  | none => cases h
  | ascii => cases h
  | unicode => rfl

/-- A detour consists of two case maps. -/
theorem mem_pairs_of_detour (h : detour ∈ folding.detours) :
    (detour.first.toNat, detour.via.toNat) ∈ folding.pairs ∧
      (detour.via.toNat, detour.last.toNat) ∈ folding.pairs := by
  obtain rfl := eq_unicode_of_mem_detours h
  obtain ⟨hvia, hlast⟩ := isShifted_detours detour h
  exact ⟨mem_unicodePairs_of_isShifted hvia, mem_unicodePairs_of_isShifted hlast⟩

/-- The end of a detour is no form of its start. -/
theorem not_mem_pairs_of_detour (h : detour ∈ folding.detours) :
    (detour.first.toNat, detour.last.toNat) ∉ folding.pairs := by
  obtain rfl := eq_unicode_of_mem_detours h
  intro hmem
  obtain ⟨pairs, hpairs, hmem⟩ := exists_endsChains hmem
  exact hpairs.formAt_ne detour h (hpairs.formAt_eq _ hmem)

/-- A detour does not lead back. -/
theorem last_ne_first (h : detour ∈ folding.detours) : detour.last ≠ detour.first := by
  obtain rfl := eq_unicode_of_mem_detours h
  revert detour
  decide

/-- No detour starts at a form. -/
theorem first_ne_form (h : detour ∈ folding.detours) (hform : (code, form) ∈ folding.pairs) :
    detour.first.toNat ≠ form := by
  rintro rfl
  obtain rfl := eq_unicode_of_mem_detours h
  have hmark := testBit_detourMarks detour h
  rw [(unicodePairs_inside _ hform).2.2.2] at hmark
  cases hmark

/-- A character with a form and the form are below U+10000. -/
theorem le_of_mem_pairs (h : (code, form) ∈ folding.pairs) :
    code ≤ 0xFFFF ∧ form ≤ 0xFFFF := by
  cases folding with
  | none => cases h
  | ascii =>
    have hall : ∀ pair ∈ asciiPairs, pair.1 ≤ 0xFFFF ∧ pair.2 ≤ 0xFFFF := by decide
    exact hall _ h
  | unicode =>
    obtain ⟨hcode, hform, -⟩ := unicodePairs_inside _ h
    exact ⟨hcode, hform⟩

end CaseFolding

end Exemplar
