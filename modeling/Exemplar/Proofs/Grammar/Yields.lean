import Exemplar.Grammar.Groups
import Exemplar.Grammar.Quantifier
import Mathlib.Data.List.TakeWhile

/-!
# What readers yield

`reader.Yields property` says that every result of a reader has a property, and holds of a compound
reader when it holds of its last part. Counts that are read are in order and can be written
(`yields_quantifier`), and so can the names of groups (`yields_groupName`).
-/

namespace Exemplar

/-- The counts of a repetition that can be written in a pattern: they are in order, and the numbers
among them are no larger than the largest count. -/
structure Quantifier.AreCounts (least : Nat) (most : Bound) : Prop where
  allows : most.Allows least
  least_le : least ≤ largestCount
  most_le : most = .unbounded ∨ ∃ limit ≤ largestCount, most = .ofExact limit

/-- The name of a group that can be written in a pattern: letters and digits behind a letter. -/
structure IsGroupName (name : String) : Prop where
  letter : name.toList.head?.any Char.isAlpha = true
  alphanumeric : ∀ c ∈ name.toList, c.isAlphanum = true

namespace Quantifier.AreCounts

/-- Counts that can be written are sizes. -/
theorem least_lt {least : Nat} {most : Bound} (h : AreCounts least most) :
    least < Size.modulus := by
  have hleast := h.least_le
  unfold largestCount at hleast
  unfold Size.modulus
  omega

/-- A number that can be written, up to one that can. -/
theorem ofExact {least most : Nat} (hle : least ≤ most) (hmost : most ≤ largestCount) :
    AreCounts least (.ofExact most) where
  allows := by
    unfold Bound.ofExact
    split
    · exact hle
    · exact trivial
  least_le := Nat.le_trans hle hmost
  most_le := .inr ⟨most, hmost, rfl⟩

/-- A number that can be written, and more. -/
theorem unbounded {least : Nat} (h : least ≤ largestCount) : AreCounts least .unbounded where
  allows := trivial
  least_le := h
  most_le := .inl rfl

end Quantifier.AreCounts

namespace Reader

open Quantifier

variable {α β : Type}

/-- Every result of the reader has the property. -/
def Yields (reader : Reader α) (property : α → Prop) : Prop :=
  ∀ ⦃cursor next value⦄, reader.run cursor = .ok (value, next) → property value

namespace Yields

variable {property : β → Prop} {other : α → Prop}

/-- A result is yielded. -/
theorem pure {value : β} (h : property value) : Yields (Pure.pure value) property := by
  intro cursor next result hrun
  cases hrun
  exact h

/-- A refusal yields nothing. -/
theorem fail (fault : Fault) (position : Nat) : Yields (Reader.fail fault position) property := by
  intro cursor next result hrun
  cases hrun

/-- A reader yields what it yields behind another reader. -/
theorem bind {reader : Reader α} {continuation : α → Reader β} (hreader : reader.Yields other)
    (h : ∀ value, other value → (continuation value).Yields property) :
    (reader >>= continuation).Yields property := by
  intro cursor next value hrun
  rw [StateT.run_bind] at hrun
  cases hfirst : reader.run cursor with
  | error located => simp [hfirst, Bind.bind, Except.bind] at hrun
  | ok outcome =>
    simp only [hfirst, Bind.bind, Except.bind] at hrun
    exact h outcome.1 (hreader hfirst) hrun

/-- A reader yields what it yields behind another reader, whatever that one yields. -/
theorem after {reader : Reader α} {continuation : α → Reader β}
    (h : ∀ value, (continuation value).Yields property) :
    (reader >>= continuation).Yields property :=
  bind (fun _ _ _ _ ↦ trivial) fun value (_ : True) ↦ h value

end Yields

/-- Characters that are taken have the property by which they are taken. -/
theorem yields_takeWhile (accepts : Char → Bool) :
    (takeWhile accepts).Yields fun taken ↦ ∀ c ∈ taken, accepts c = true := by
  intro cursor next value hrun
  cases hrun
  exact fun c hc ↦ List.mem_takeWhile_imp hc

/-- A count that is read can be written. -/
theorem yields_count :
    Reader.count.Yields fun count? ↦ ∀ count ∈ count?, count ≤ largestCount := by
  refine .after fun start ↦ .after fun digits ↦ ?_
  split
  · exact .fail ..
  · rename_i hle
    split
    · exact .pure (by simp)
    · exact .pure (by simpa using hle)

/-- A largest count that is read can be written. -/
theorem yields_upperCount {least : Nat} (h : least ≤ largestCount) :
    (upperCount least).Yields fun most ↦
      most = .unbounded ∨ ∃ limit ≤ largestCount, most = .ofExact limit := by
  refine .after fun comma ↦ ?_
  split
  · refine yields_count.bind fun count? hcount ↦ ?_
    split
    · exact .pure (.inr ⟨_, hcount _ rfl, rfl⟩)
    · exact .pure (.inl rfl)
  · exact .pure (.inr ⟨least, h, rfl⟩)

/-- Counts in braces are in order and can be written. -/
theorem yields_counts (start : Nat) :
    (counts start).Yields fun range ↦ AreCounts range.1 range.2 := by
  refine yields_count.bind fun count? hcount ↦ ?_
  split
  · exact .fail ..
  · rename_i least
    have hleast : least ≤ largestCount := hcount least rfl
    refine (yields_upperCount hleast).bind fun most hmost ↦ .after fun brace ↦ ?_
    split
    · split
      · rename_i hallows
        exact .pure ⟨hallows, hleast, hmost⟩
      · exact .fail ..
    · exact .after fun _ ↦ .fail ..

/-- The counts of a repetition mark are in order and can be written. -/
theorem yields_copies (mark : Char) (start : Nat) :
    (copies mark start).Yields fun range ↦ AreCounts range.1 range.2 := by
  unfold copies
  split
  · exact .pure (.unbounded (by decide))
  · exact .pure (.unbounded (by decide))
  · exact .pure (.ofExact (show 0 ≤ 1 by decide) (by decide))
  · exact yields_counts start

/-- A repetition that is read has counts that are in order and can be written. -/
theorem yields_quantifier (comments : Bool) (mark : Char) (start : Nat) :
    (quantifier comments mark start).Yields fun quantifier ↦
      AreCounts quantifier.least quantifier.most :=
  (yields_copies mark start).bind fun _ hcounts ↦ .after fun _ ↦ .pure hcounts

/-- A repetition that may be read has counts that are in order and can be written. -/
theorem yields_quantifier? (comments : Bool) :
    (quantifier? comments).Yields fun quantifier? ↦
      ∀ quantifier ∈ quantifier?, AreCounts quantifier.least quantifier.most := by
  refine .after fun _ ↦ .after fun start ↦ .after fun mark ↦ ?_
  split
  · exact .pure (by simp)
  · split
    · refine .after fun _ ↦ (yields_quantifier ..).bind fun quantifier hcounts ↦ .pure ?_
      simpa using hcounts
    · exact .pure (by simp)

/-- The name of a group that is read can be written. -/
theorem yields_groupName : groupName.Yields IsGroupName := by
  refine .after fun start ↦ (yields_takeWhile _).bind fun name hname ↦ ?_
  split
  · exact .fail ..
  · rename_i hletter
    refine .after fun stop ↦ .after fun c ↦ ?_
    split
    · refine .pure ⟨?_, ?_⟩
      · simpa using hletter
      · simpa using hname
    · exact .fail ..
    · exact .fail ..

end Reader

end Exemplar
