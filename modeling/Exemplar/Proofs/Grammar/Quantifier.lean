import Exemplar.Proofs.Grammar.Reads
import Exemplar.Proofs.Grammar.Yields
import Exemplar.Proofs.Length.Bound
import Exemplar.Regex.Render

/-!
# Repetition marks and names are read back

A repetition mark writes the counts of a repetition (`Quantifier.WritesCopies`), and they are read
back from the mark (`reads_quantifier?`), as long as no other mark stands behind it. Counts that
can be written have a mark (`writesCopies_renderCounts`). The name of a group is read back too
(`reads_groupName`).
-/

namespace Exemplar

/-- The text goes on with a unit or with the end of a branch: it begins with no repetition mark and
with no quotation. -/
structure AtUnit (text : List Char) : Prop where
  unmarked : ∀ c ∈ text.head?, c ∉ ['*', '+', '?', '{']
  unquoted (more : List Char) : text ≠ '\\' :: 'Q' :: more

/-- Nothing is skipped in front of a unit, unless blanks and comments do not count. -/
theorem AtUnit.unskipped {text : List Char} (h : AtUnit text) : Cursor.Unskipped false text :=
  Cursor.unskipped_of_unquoted h.unquoted

/-! ## Counts as they are written -/

namespace Quantifier

/-- Decimal digits write a count that can be written. There is a digit, and zeros may lead. -/
structure WritesCount (digits : List Char) (count : Nat) : Prop where
  ne_nil : digits ≠ []
  isDigit : ∀ c ∈ digits, Escape.isDigit 10 c = true
  value : Escape.numberOf 10 digits = count
  le : count ≤ largestCount

/-- A repetition mark writes the counts of a repetition: any number of copies, one copy or more,
one copy or none, and in braces a given number of copies, a given number or more, or a number
between two given ones. -/
inductive WritesCopies : List Char → Nat → Bound → Prop
  | star : WritesCopies ['*'] 0 .unbounded
  | plus : WritesCopies ['+'] 1 .unbounded
  | question : WritesCopies ['?'] 0 1
  | exactly {digits : List Char} {count : Nat} : WritesCount digits count →
      WritesCopies ('{' :: digits ++ ['}']) count (.ofExact count)
  | atLeast {digits : List Char} {count : Nat} : WritesCount digits count →
      WritesCopies ('{' :: digits ++ [',', '}']) count .unbounded
  | between {digits digits' : List Char} {least most : Nat} : WritesCount digits least →
      WritesCount digits' most → least ≤ most →
      WritesCopies ('{' :: digits ++ ',' :: digits' ++ ['}']) least (.ofExact most)

/-- The digits of a number that can be written write it. -/
theorem writesCount_toDigits {number : Nat} (h : number ≤ largestCount) :
    WritesCount (Nat.toDigits 10 number) number := by
  obtain ⟨hvalue, hdigits⟩ :=
    Escape.numberOf_toDigits (show 1 < 10 by decide) (by decide) number
  exact ⟨Nat.toDigits_ne_nil, hdigits, hvalue, h⟩

/-- Counts that can be written are written by their mark. -/
theorem writesCopies_renderCounts {least : Nat} {most : Bound} (h : AreCounts least most) :
    WritesCopies (Regex.renderCounts least most) least most := by
  have hleast := writesCount_toDigits h.least_le
  unfold Regex.renderCounts
  split
  · exact .star
  · exact .plus
  · exact .question
  · exact .atLeast hleast
  · rename_i limit isSize _
    have hmost : Bound.finite limit isSize = .ofExact limit := (Bound.ofExact_of_lt isSize).symm
    have hlimit : limit ≤ largestCount := by
      rcases h.most_le with heq | ⟨other, hother, heq⟩
      · cases heq
      · rw [Bound.ofExact_of_lt (by unfold largestCount at hother; unfold Size.modulus; omega)]
          at heq
        cases heq
        exact hother
    rw [hmost]
    split
    · subst limit
      exact .exactly hleast
    · exact .between hleast (writesCount_toDigits hlimit) h.allows

end Quantifier

namespace Reader

open Escape Quantifier Regex

variable {rest : List Char}

/-- The digits of a count are read as the count. -/
theorem reads_count {digits : List Char} {number : Nat} (h : WritesCount digits number)
    (hrest : ∀ c ∈ rest.head?, isDigit 10 c = false) :
    count.Reads (digits ++ rest) (some number) rest := by
  have hsome : digits.isEmpty = false := by simp [h.ne_nil]
  refine .position fun start ↦ (reads_takeWhile h.isDigit hrest).bind ?_
  rw [h.value, if_neg (Nat.not_lt.2 h.le), hsome]
  exact .pure

/-- Without digits there is no count. -/
theorem reads_count_none (hrest : ∀ c ∈ rest.head?, isDigit 10 c = false) :
    count.Reads rest none rest := by
  refine .position fun start ↦ ?_
  have hnone : ∀ c ∈ ([] : List Char), isDigit 10 c = true := by simp
  exact (reads_takeWhile hnone hrest).bind .pure

/-- A number behind a comma is the largest count. -/
theorem reads_upperCount {digits : List Char} {most : Nat} (h : WritesCount digits most)
    (least : Nat) (hrest : ∀ c ∈ rest.head?, isDigit 10 c = false) :
    (upperCount least).Reads (',' :: digits ++ rest) (.ofExact most) rest := by
  refine reads_eat.bind ?_
  rw [if_pos rfl]
  exact (reads_count h hrest).bind .pure

/-- Behind a comma alone there is no largest count. -/
theorem reads_upperCount_unbounded (least : Nat)
    (hrest : ∀ c ∈ rest.head?, isDigit 10 c = false) :
    (upperCount least).Reads (',' :: rest) .unbounded rest := by
  refine reads_eat.bind ?_
  rw [if_pos rfl]
  exact (reads_count_none hrest).bind .pure

/-- Without a comma the least count is the largest one too. -/
theorem reads_upperCount_none (least : Nat) (hrest : rest.head? ≠ some ',') :
    (upperCount least).Reads rest (.ofExact least) rest := by
  refine (reads_eat_of_ne hrest).bind ?_
  rw [if_neg (by simp)]
  exact .pure

/-- Counts in braces are read when the least count is, when the largest one is, and when they are in
order. -/
theorem reads_counts {digits : List Char} {least : Nat} {most : Bound}
    (h : WritesCount digits least)
    (hallows : most.Allows least) {text : List Char}
      (htext : ∀ c ∈ text.head?, isDigit 10 c = false)
    (hupper : (upperCount least).Reads text most ('}' :: rest)) (start : Nat) :
    (counts start).Reads (digits ++ text) (least, most) rest := by
  refine (reads_count h htext).bind (hupper.bind (reads_eat.bind ?_))
  rw [if_pos rfl, if_pos hallows]
  exact .pure

/-- The mark of counts is read as the counts. -/
theorem reads_copies {text : List Char} {least : Nat} {most : Bound}
    (h : WritesCopies text least most) :
    ∃ mark more, text = mark :: more ∧ mark ∈ ['*', '+', '?', '{'] ∧
      ∀ start rest, (copies mark start).Reads (more ++ rest) (least, most) rest := by
  have hcomma (text : List Char) : ∀ c ∈ (',' :: text).head?, isDigit 10 c = false := by
    intro c hc
    cases hc
    decide
  have hbrace (text : List Char) : ∀ c ∈ ('}' :: text).head?, isDigit 10 c = false := by
    intro c hc
    cases hc
    decide
  cases h with
  | star => exact ⟨'*', [], rfl, by simp, fun start rest ↦ .pure⟩
  | plus => exact ⟨'+', [], rfl, by simp, fun start rest ↦ .pure⟩
  | question => exact ⟨'?', [], rfl, by simp, fun start rest ↦ .pure⟩
  | @exactly digits _ hcount =>
    refine ⟨'{', digits ++ ['}'], rfl, by simp, fun start rest ↦ ?_⟩
    have hallows := (AreCounts.ofExact (Nat.le_refl least) hcount.le).allows
    rw [List.append_assoc]
    exact reads_counts hcount hallows (hbrace rest) (reads_upperCount_none least (by simp)) start
  | @atLeast digits _ hcount =>
    refine ⟨'{', digits ++ [',', '}'], rfl, by simp, fun start rest ↦ ?_⟩
    have hallows := (AreCounts.unbounded hcount.le).allows
    rw [List.append_assoc]
    exact reads_counts hcount hallows (hcomma _)
      (reads_upperCount_unbounded least (hbrace rest)) start
  | @between digits digits' _ most hleast hmost hle =>
    refine ⟨'{', digits ++ ',' :: digits' ++ ['}'], rfl, by simp, fun start rest ↦ ?_⟩
    have hallows := (AreCounts.ofExact hle hmost.le).allows
    have hassoc : ',' :: digits' ++ (['}'] ++ rest) = ',' :: digits' ++ '}' :: rest := by simp
    rw [List.append_assoc, List.append_assoc, hassoc]
    exact reads_counts hleast hallows (hcomma _) (reads_upperCount hmost least (hbrace rest)) start

/-- The mark of a mode is read as the mode. -/
theorem reads_mode {comments : Bool} (mode : RepetitionMode)
    (hskip : Cursor.Unskipped comments rest)
    (hrest : ∀ c ∈ rest.head?, c ∉ ['*', '+', '?', '{']) :
    (Reader.mode comments).Reads (mode.mark ++ rest) mode rest := by
  have hne (c : Char) (hc : c ∈ ['*', '+', '?', '{']) : rest.head? ≠ some c :=
    fun heq ↦ hrest c heq hc
  cases mode with
  | greedy =>
    refine (reads_skip hskip).bind ((reads_eat_of_ne (hne '?' (by simp))).bind ?_)
    rw [if_neg (by simp)]
    refine (reads_eat_of_ne (hne '+' (by simp))).bind ?_
    rw [if_neg (by simp)]
    exact .pure
  | reluctant =>
    refine (reads_skip (Cursor.unskipped_cons rfl (by simp) (by simp) comments)).bind
      (reads_eat.bind ?_)
    rw [if_pos rfl]
    exact .pure
  | possessive =>
    refine (reads_skip (Cursor.unskipped_cons rfl (by simp) (by simp) comments)).bind
      ((reads_eat_of_ne (by simp)).bind ?_)
    rw [if_neg (by simp)]
    refine reads_eat.bind ?_
    rw [if_pos rfl]
    exact .pure

/-- A repetition that is written is read. -/
theorem reads_quantifier? {comments : Bool} {text : List Char} {least : Nat} {most : Bound}
    (h : WritesCopies text least most) (mode : RepetitionMode)
      (hskip : Cursor.Unskipped comments rest)
    (hrest : ∀ c ∈ rest.head?, c ∉ ['*', '+', '?', '{']) :
    (Reader.quantifier? comments).Reads (text ++ (mode.mark ++ rest))
      (some ⟨least, most, mode⟩) rest := by
  obtain ⟨mark, more, rfl, hmark, hcopies⟩ := reads_copies h
  have hcounts : ∀ mark ∈ ['*', '+', '?', '{'], Cursor.isBlank mark = false ∧ mark ≠ '#' ∧
      mark ≠ '\\' := by
    simp [Cursor.isBlank]
  obtain ⟨hblank, hcomment, hquoted⟩ := hcounts mark hmark
  have hskip' : Cursor.Unskipped comments (mark :: (more ++ (mode.mark ++ rest))) :=
    Cursor.unskipped_cons hblank hcomment (fun _ heq ↦ hquoted (List.cons.inj heq).1) comments
  rw [List.cons_append]
  refine (reads_skip hskip').bind (.position fun start ↦ reads_peek?.bind ?_)
  simp only [List.head?_cons, if_pos hmark]
  refine (reads_drop _ 1).bind (.bind ?_ .pure)
  exact (hcopies start _).bind ((reads_mode mode hskip hrest).bind .pure)

/-- No repetition is read where none is written. -/
theorem reads_quantifier?_none {comments : Bool} (hskip : Cursor.Unskipped comments rest)
    (hrest : ∀ c ∈ rest.head?, c ∉ ['*', '+', '?', '{']) :
    (Reader.quantifier? comments).Reads rest none rest := by
  refine (reads_skip hskip).bind (.position fun start ↦ reads_peek?.bind ?_)
  split
  · exact .pure
  · rename_i mark hmark
    rw [if_neg (hrest mark hmark)]
    exact .pure

/-- The name of a group is read back up to its bracket. -/
theorem reads_groupName {name : String} (h : IsGroupName name) (rest : List Char) :
    groupName.Reads (name.toList ++ '>' :: rest) name rest := by
  have hbracket : ∀ c ∈ ('>' :: rest).head?, c.isAlphanum = false := by
    rintro c hc
    cases hc
    decide
  refine .position fun start ↦ (reads_takeWhile h.alphanumeric hbracket).bind ?_
  rw [if_neg (by simp [h.letter])]
  refine .position fun stop ↦ reads_next?.bind ?_
  rw [String.ofList_toList]
  exact .pure

end Reader

end Exemplar
