import Exemplar.Proofs.Grammar.Reads
import Exemplar.Proofs.Unicode.Utf16
import Exemplar.Regex.Render
import Mathlib.Data.Bool.AllAny

/-!
# Characters as they are written

`Spells reserved c text` says that the text spells a character: it is the character itself, which
then is not reserved, or an escape that is read back as the character. The texts that are written
for the characters of a literal and for the members of a set spell them (`spells_renderChar`,
`spells_renderMember`).
-/

namespace Exemplar

open Escape

namespace Reader

variable {c : Char} {rest : List Char}

/-- A code point is read as its character. -/
theorem reads_character (start : Nat) : (character c.toNat start).Reads rest c rest := by
  unfold character
  rw [charOf?_toNat]
  exact .pure

/-- Hexadecimal digits are taken one by one. -/
theorem reads_hexadecimal {digits : List Char} (h : ∀ c ∈ digits, isDigit 16 c = true)
    (rest : List Char) (start value : Nat) :
    (hexadecimal start digits.length value).Reads (digits ++ rest)
      (digits.foldl (fun value c ↦ value * 16 + (digitValue? 16 c).getD 0) value) rest := by
  induction digits generalizing value with
  | nil => exact .pure
  | cons c digits ih =>
    obtain ⟨hc, hdigits⟩ := List.forall_mem_cons.1 h
    obtain ⟨digit, hdigit⟩ := Option.isSome_iff_exists.1 hc
    rw [List.length_cons, hexadecimal]
    refine reads_next?.bind ?_
    simp only [Option.bind_some, hdigit, List.foldl_cons, Option.getD_some]
    exact ih hdigits _

/-- The digits of a code point that fit a width are read as the code point. -/
theorem reads_hexDigits {width code : Nat} (hwidth : 0 < width) (h : code < 16 ^ width)
    (start : Nat) :
    (hexadecimal start width 0).Reads (hexDigits width code ++ rest) code rest := by
  obtain ⟨hvalue, hdigits⟩ := numberOf_hexDigits width code
  have hreads := reads_hexadecimal hdigits rest start 0
  rwa [length_hexDigits hwidth h, ← numberOf, hvalue] at hreads

/-- A digit is no brace. -/
theorem head?_hexDigits_ne (width code : Nat) :
    (hexDigits width code ++ rest).head? ≠ some '{' := by
  have hdigits := (numberOf_hexDigits width code).2
  cases hhead : hexDigits width code with
  | nil =>
    have hne : hexDigits width code ≠ [] :=
      List.append_ne_nil_of_right_ne_nil _ Nat.toDigits_ne_nil
    exact absurd hhead hne
  | cons c digits =>
    rintro heq
    cases heq
    have := hdigits '{' (by simp [hhead])
    exact absurd this (by decide)

/-- Two digits behind the letter x are read as their character. -/
theorem reads_hexadecimalEscape (h : c.toNat ≤ 0xFF) (start : Nat) :
    (hexadecimalEscape start).Reads (hexDigits 2 c.toNat ++ rest) c rest := by
  refine (reads_eat_of_ne (head?_hexDigits_ne _ _)).bind ?_
  rw [if_neg (by simp)]
  exact (reads_hexDigits (by decide) (by omega) start).bind (reads_character start)

/-- Digits in braces behind the letter x are read as their character. -/
theorem reads_hexadecimalEscape_braces (start : Nat) :
    (hexadecimalEscape start).Reads ('{' :: Nat.toDigits 16 c.toNat ++ '}' :: rest) c rest := by
  obtain ⟨hvalue, hdigits⟩ := numberOf_toDigits (show 1 < 16 by decide) (Nat.le_refl 16) c.toNat
  have hle : ¬ c.toNat > 0x10FFFF := by
    have hvalid : c.toNat < 0xD800 ∨ 0xDFFF < c.toNat ∧ c.toNat < 0x110000 := c.valid
    omega
  have hne : (Nat.toDigits 16 c.toNat).isEmpty = false := by
    simp [Nat.toDigits_ne_nil]
  have hbrace : ∀ d ∈ ('}' :: rest).head?, isDigit 16 d = false := by
    rintro d hd
    cases hd
    decide
  refine reads_eat.bind ?_
  rw [if_pos rfl]
  refine (reads_takeWhile hdigits hbrace).bind ?_
  rw [hvalue, if_neg hle, if_neg (by simp [hne])]
  refine reads_next?.bind ?_
  rw [if_pos rfl]
  exact reads_character start

/-- Four digits behind the letter u are read as their character. -/
theorem reads_unicodeEscape (h : c.toNat ≤ 0xFFFF) (start : Nat) :
    (unicodeEscape start).Reads (hexDigits 4 c.toNat ++ rest) c rest := by
  have hhigh := (not_isSurrogate_toNat c).1
  refine (reads_hexDigits (by decide) (by omega) start).bind (.get fun position ↦ ?_)
  rw [hhigh]
  exact reads_character start

/-- An escape with the letter u stands for the character behind the letter. -/
theorem reads_readEscape_unicode {source : List Char} {start : Nat}
    (h : (unicodeEscape start).Reads source c rest) :
    (readEscape start 'u').Reads source (.char c) rest := by
  show (do return char (← unicodeEscape start) : Reader Escape).Reads _ _ _
  exact h.bind .pure

end Reader

/-- The characters that stand behind a backslash in a text that is written. -/
def escapeMarks : List Char :=
  Regex.operators ++ ['-', '&', 'n', 'r', 't', 'x', 'u']

/-- The text spells the character: it is the character itself, which is not reserved, or an escape
that is read back as the character. -/
inductive Spells (reserved : List Char) (c : Char) : List Char → Prop
  | plain : c ∉ reserved → Spells reserved c [c]
  | escape {mark : Char} {more : List Char} : mark ∈ escapeMarks →
      (∀ start rest, (Reader.readEscape start mark).Reads (more ++ rest) (.char c) rest) →
      Spells reserved c ('\\' :: mark :: more)

namespace Spells

variable {reserved : List Char} {c : Char}

/-- A character that is no letter and no digit may stand behind a backslash. -/
theorem self (h : c ∈ Regex.operators ++ ['-', '&']) : Spells reserved c ['\\', c] := by
  have hall : ∀ c ∈ Regex.operators ++ ['-', '&'],
      c ∈ escapeMarks ∧ controls.lookup c = none ∧ (sets.lookup c).isNone ∧
      c.isAlphanum = false ∧ c ∉ ['0', 'c', 'x', 'u', 'p', 'P', 'Q', 'N', 'G', 'X'] :=
    List.all_iff_forall_prop.1 (by decide)
  obtain ⟨hmark, hcontrol, hset, halphanum, hletter⟩ := hall c h
  refine .escape hmark fun start rest ↦ ?_
  unfold Reader.readEscape
  rw [hcontrol, Option.isNone_iff_eq_none.1 hset]
  simp only
  split
  case h_11 =>
    rw [halphanum]
    exact .pure
  all_goals simp at hletter

/-- The letters that stand for control characters. -/
theorem control {mark : Char} (hmark : mark ∈ ['n', 'r', 't'])
    (h : controls.lookup mark = some c) :
    Spells reserved c ['\\', mark] := by
  have hmarks : ['n', 'r', 't'] ⊆ escapeMarks := by decide
  refine .escape (hmarks hmark) fun start rest ↦ ?_
  unfold Reader.readEscape
  rw [h]
  exact .pure

/-- Two digits behind the letter x. -/
theorem hexadecimal (h : c.toNat ≤ 0xFF) :
    Spells reserved c ('\\' :: 'x' :: hexDigits 2 c.toNat) := by
  refine .escape (by decide) fun start rest ↦ ?_
  show (do return char (← Reader.hexadecimalEscape start) : Reader Escape).Reads _ _ _
  exact (Reader.reads_hexadecimalEscape h start).bind .pure

/-- Digits in braces behind the letter x. -/
theorem hexadecimalInBraces :
    Spells reserved c ('\\' :: 'x' :: '{' :: Nat.toDigits 16 c.toNat ++ ['}']) := by
  refine .escape (by decide) fun start rest ↦ ?_
  have hassoc : ('{' :: Nat.toDigits 16 c.toNat ++ ['}']) ++ rest =
      '{' :: Nat.toDigits 16 c.toNat ++ '}' :: rest := by simp
  show (do return char (← Reader.hexadecimalEscape start) : Reader Escape).Reads _ _ _
  exact (hassoc ▸ Reader.reads_hexadecimalEscape_braces start).bind .pure

/-- Four digits behind the letter u. -/
theorem unicode (h : c.toNat ≤ 0xFFFF) :
    Spells reserved c ('\\' :: 'u' :: hexDigits 4 c.toNat) := by
  exact .escape (by decide) fun start rest ↦
    Reader.reads_readEscape_unicode (Reader.reads_unicodeEscape h start)

end Spells

/-- The text of a character of a literal spells it. -/
theorem Regex.spells_renderChar (c : Char) : Spells operators c (renderChar c) := by
  unfold renderChar
  split
  · rename_i hoperator
    exact .self (List.mem_append_left _ hoperator)
  · rename_i hoperator
    split
    · subst c
      exact .control (by decide) rfl
    · split
      · subst c
        exact .control (by decide) rfl
      · split
        · subst c
          exact .control (by decide) rfl
        · split
          · exact .hexadecimalInBraces
          · exact .plain hoperator

namespace CharSet

/-- The characters that are escaped as members of a set. -/
def reserved : List Char := ['\\', '[', ']', '^', '-', '&']

/-- The text of a member of a set spells it. -/
theorem spells_renderMember {c : Char} (h : canHold c = true) :
    Spells reserved c (renderMember c) := by
  have hcode : c.toNat ≤ 0xFFFF := of_decide_eq_true h
  have hmarks : reserved ⊆ Regex.operators ++ ['-', '&'] := by decide
  unfold renderMember
  split
  · rename_i hreserved
    exact .self (hmarks hreserved)
  · rename_i hreserved
    split
    · subst c
      exact .control (by decide) rfl
    · split
      · subst c
        exact .control (by decide) rfl
      · split
        · subst c
          exact .control (by decide) rfl
        · split
          · exact .plain hreserved
          · split
            · rename_i hsmall
              exact .hexadecimal hsmall
            · exact .unicode hcode

end CharSet

end Exemplar
