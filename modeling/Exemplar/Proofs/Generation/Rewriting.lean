import Exemplar.Proofs.Emission.Sizing
import Exemplar.Proofs.Generation.Safety
import Exemplar.Proofs.Regex.Simplify

/-!
# Rewriting keeps a tree safe

Simplification and sizing leave a safe tree safe (`Safe.simplify`, `Safe.sized`): they only regroup
or drop parts, and what stands before a part emits no more than it did.
-/

namespace Exemplar.Regex

open List (Forall₂)

variable {before : Captures}

/-! ## Simplification -/

/-- A row with a tree in front is safe when the tree is and, behind it, the row. -/
theorem safeAll_prepend (tree : Regex) (rest : List Regex) :
    SafeAll (prepend tree rest) before ↔
      tree.Safe before ∧ tree.Emits.Always (SafeAll rest) before := by
  induction tree generalizing rest before with
  | empty => simp [prepend, Safe, Emits]
  | sequence parts ih =>
    rw [prepend, prependAll_eq_foldr, Safe, Emits]
    induction parts generalizing before with
    | nil => simp [SafeAll, EmitsAll]
    | cons head parts ihparts =>
      have hparts : SafeAll (parts.foldr prepend rest) = fun middle ↦
          SafeAll parts middle ∧ (EmitsAll parts).Always (SafeAll rest) middle :=
        funext fun middle ↦ propext (ihparts fun part hpart ↦
          ih part (List.mem_cons_of_mem _ hpart))
      rw [List.foldr_cons, ih head (by simp), SafeAll, EmitsAll, Emission.always_andThen, and_assoc,
        ← Emission.always_and, hparts]
  | literal text ignoreCase =>
    rcases prepend_literal_eq text ignoreCase rest with ⟨next, rest', rfl, heq⟩ | heq
    · simp [heq, SafeAll, Safe, Emits]
    · rw [heq, SafeAll]
  | set members => rfl
  | choice options ih => rfl
  | repetition body least most mode ih => rfl
  | group kind body ih => rfl
  | backref id extent => rfl

/-- Parts in a row are joined to a safe tree when the row is safe. -/
theorem safe_joinParts {parts : List Regex} (h : SafeAll parts before) :
    (joinParts parts).Safe before := by
  unfold joinParts
  split
  · exact h.1
  · cases parts with
    | nil => exact trivial
    | cons part parts => exact h

/-- Safe options are joined to a safe tree. -/
theorem safe_joinOptions {options : List Regex} (h : ∀ option ∈ options, option.Safe before) :
    (joinOptions options).Safe before := by
  unfold joinOptions
  split
  · exact h _ (by simp)
  · cases options with
    | nil => exact trivial
    | cons option options => exact safeEach_iff.2 h

/-- A safe tree contributes safe options. -/
theorem safe_of_mem_asOptions {tree option : Regex} (h : tree.Safe before)
    (hoption : option ∈ asOptions tree) : option.Safe before := by
  unfold asOptions at hoption
  split at hoption
  · exact safeEach_iff.1 h option hoption
  · rwa [List.mem_singleton.1 hoption]

/-- Copies of a body are safe when the repetition is. -/
theorem safe_joinCopies {body : Regex} {least : Nat} {most : Bound} {mode : RepetitionMode}
    (hmost : most.Allows least) (h : (repetition body least most mode).Safe before) :
    (joinCopies body least most mode).Safe before := by
  unfold joinCopies
  split
  · exact trivial
  · split
    · rename_i hone
      obtain ⟨-, rfl⟩ := hone
      exact (Emission.always_ofText []).1 (h 0 (Nat.le_refl 1))
    · rw [repeated, Bound.raise_of_allows hmost]
      exact h

/-- The normal form of a safe tree is safe. -/
theorem Safe.simplify {tree : Regex} (hwell : tree.WellFormed) (h : tree.Safe before) :
    tree.simplify.Safe before := by
  induction tree generalizing before with
  | empty => exact h
  | literal text ignoreCase => exact h
  | set members => exact h
  | sequence parts ih =>
    rw [wellFormed_sequence] at hwell
    rw [Regex.simplify, simplifyAll_eq_map]
    refine safe_joinParts ((safeAll_prepend (sequence (parts.map Regex.simplify)) []).2
      ⟨?_, fun _ _ _ ↦ trivial⟩)
    rw [Safe] at h ⊢
    induction parts generalizing before with
    | nil => exact trivial
    | cons part parts ihparts =>
      refine ⟨ih part (by simp) (hwell part (by simp)) h.1, ?_⟩
      -- The simplified part emits what the part emits, so the rest is behind the same captures.
      rw [emits_simplify (hwell part (by simp))]
      exact h.2.mono le_rfl fun after hafter ↦ ihparts
        (fun other hother ↦ ih other (List.mem_cons_of_mem _ hother))
        (fun other hother ↦ hwell other (List.mem_cons_of_mem _ hother)) hafter
  | choice options ih =>
    rw [wellFormed_choice] at hwell
    rw [Regex.simplify, simplifyAll_eq_map]
    refine safe_joinOptions fun option hoption ↦ ?_
    obtain ⟨tree, htree, hoption⟩ := List.mem_flatMap.1 hoption
    obtain ⟨original, horiginal, rfl⟩ := List.mem_map.1 htree
    exact safe_of_mem_asOptions (ih original horiginal (hwell.2 original horiginal)
      (safeEach_iff.1 h original horiginal)) hoption
  | repetition body least most mode ih =>
    rw [wellFormed_repetition] at hwell
    refine safe_joinCopies hwell.1.1 fun done hdone ↦ ?_
    rw [emits_simplify hwell.2]
    exact (h done hdone).mono le_rfl fun after hafter ↦ ih hwell.2 hafter
  | group kind body ih =>
    rw [wellFormed_group] at hwell
    cases kind with
    | capturing number name => exact ih hwell h
    | plain => exact ih hwell h
    | atomic => exact ih hwell h
    | lookahead negated => exact trivial
    | lookbehind negated => exact trivial
  | backref id extent => exact h

/-! ## Sizing -/

/-- What sizing makes of a safe tree is safe. -/
theorem IsSizing.safe {caps : GroupId → Option Nat} {tree result : Regex}
    (h : IsSizing caps tree result) (hwell : tree.WellFormed) (hsafe : tree.Safe before) :
    result.Safe before := by
  induction tree generalizing result before with
  | empty => exact h.eq_empty ▸ hsafe
  | literal text ignoreCase => exact h.eq_literal ▸ hsafe
  | set members => exact h.eq_set ▸ hsafe
  | sequence parts ih =>
    rw [wellFormed_sequence] at hwell
    obtain ⟨parts', rfl, hparts⟩ := h.exists_parts
    rw [Safe] at hsafe ⊢
    clear h
    induction hparts generalizing before with
    | nil => exact trivial
    | @cons part part' parts parts' hpart hparts ihparts =>
      refine ⟨ih part (by simp) hpart (hwell part (by simp)) hsafe.1, ?_⟩
      exact hsafe.2.mono (hpart.emits_le (hwell part (by simp))) fun after hafter ↦ ihparts
        (fun other hother ↦ ih other (List.mem_cons_of_mem _ hother))
        (fun other hother ↦ hwell other (List.mem_cons_of_mem _ hother)) hafter
  | choice options ih =>
    rw [wellFormed_choice] at hwell
    obtain ⟨kept, options', rfl, hsub, -, hoptions⟩ := h.exists_options
    refine safeEach_iff.2 fun option' hoption' ↦ ?_
    obtain ⟨option, hoption, hsizing⟩ := exists_of_forall₂ hoptions hoption'
    have hoption := hsub option hoption
    exact ih option hoption hsizing (hwell.2 option hoption) (safeEach_iff.1 hsafe option hoption)
  | repetition body least most mode ih =>
    rw [wellFormed_repetition] at hwell
    obtain ⟨body', count, rfl, hbody, hallows⟩ := h.exists_body
    intro done hdone
    -- The copies before the next one are copies of the original body, behind which it is safe.
    have hcopies := Emission.copies_mono (hbody.emits_le hwell.2) done
    exact (hsafe done (hallows hwell.1.1 hwell.1.2 _ hdone)).mono hcopies fun after hafter ↦
      ih hbody hwell.2 hafter
  | group kind body ih =>
    rw [wellFormed_group] at hwell
    obtain ⟨body', rfl, hbody, hsame⟩ := h.exists_group
    cases kind with
    | capturing number name => exact (ih (hbody rfl) hwell hsafe : body'.Safe before)
    | plain => exact (ih (hbody rfl) hwell hsafe : body'.Safe before)
    | atomic => exact (ih (hbody rfl) hwell hsafe : body'.Safe before)
    | lookahead negated => exact trivial
    | lookbehind negated => exact trivial
  | backref id extent =>
    obtain ⟨extent', rfl⟩ := h.exists_backref
    exact hsafe

/-- A safe tree that was sized for a target is safe. -/
theorem Safe.sized {tree : Regex} (hwell : tree.WellFormed) (h : tree.Safe before) (target : Nat) :
    (tree.sized target).Safe before := by
  obtain ⟨caps, hsizing⟩ := isSizing_sized tree target
  exact hsizing.safe hwell h

/-- A well-formed tree is well-formed towards any target. -/
theorem WellFormed.towards {tree : Regex} (h : tree.WellFormed) (target : Option Nat) :
    (tree.towards target).WellFormed := by
  cases target with
  | none => exact h
  | some target => exact h.sized target

/-- Towards a target, a well-formed tree emits nothing that it does not emit. -/
theorem emits_towards_le {tree : Regex} (h : tree.WellFormed) (target : Option Nat) :
    (tree.towards target).Emits ≤ tree.Emits := by
  cases target with
  | none => exact le_rfl
  | some target => exact emits_sized_le h target

/-- A safe tree is safe towards any target. -/
theorem Safe.towards {tree : Regex} (hwell : tree.WellFormed) (h : tree.Safe before)
    (target : Option Nat) : (tree.towards target).Safe before := by
  cases target with
  | none => exact h
  | some target => exact h.sized hwell target

end Exemplar.Regex
