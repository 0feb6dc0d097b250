import Exemplar.Proofs.Checked.Counts
import Exemplar.Proofs.Pattern.Sized

/-!
# Generation without faults

With checked arithmetic a string of a pattern is generated without a fault when the numbers that
are computed for the copies of each repetition in the sized pattern are sizes
(`generateFrom_faultless`). Without a target they always are. For a target below the largest size
they are if the backreferences have the extents of their groups and no least length in the sized
pattern was cut off (`generateFrom_faultless_of_lt`).

The largest size has no number behind it. A repetition with that many copies at most is a fault,
and the program ends there. With wrapped arithmetic no copies would be drawn for it
(`generateFrom_faulty_letters`).
-/

namespace Exemplar

/-- The counts of a repetition that can be written in a pattern. -/
theorem Groups.Fits.hasCounts {groups : Groups} {node : Regex} (h : groups.Fits node) :
    node.HasCounts := by
  cases node with
  | repetition body least most mode => exact h
  | _ => exact trivial

namespace Pattern

variable {text : String} {flags : Flags} {pattern : Pattern}
variable {σ : Type} [RandomSource σ]

/-- The counts of every repetition in a pattern that compiles can be written. -/
theorem hasCounts_of_compile (h : compile text flags = .ok pattern) :
    ∀ node ∈ pattern.root.visible, node.HasCounts := by
  obtain ⟨tree, hparse, rfl⟩ := compile_eq_ok h
  obtain ⟨groups, hfits⟩ := Regex.exists_fits_of_parse hparse
  have hread := (groups.stable_fits.simplify hfits).1
  exact fun node hnode ↦ (hread.of_mem_visible hnode).here.hasCounts

variable [RandomSource.Lawful σ]

/-- A string is generated for a target without a fault when a size covers the target and the sized
pattern. -/
theorem generateFrom?_eq_of_le (h : compile text flags = .ok pattern) {target limit : Nat}
    (htarget : target ≤ limit) (hlimit : limit < Size.modulus)
    (hcopies : ∀ node ∈ (pattern.sized target).root.visible,
      node.minLength ≤ limit ∧ node.CopiesFit (some limit)) (source : σ) :
    pattern.generateFrom? source (some target) =
      some (pattern.generateFrom source (some target)) := by
  have hvalid := valid_of_compile h
  refine Regex.generate?_eq hvalid ((wellFormed_of_compile h).towards (some target))
    (fun node hnode ↦ ?_) (.some htarget) source
  obtain ⟨hleast, hfit⟩ := hcopies node hnode
  refine ⟨Regex.valid_sized hvalid target node hnode, fun largest hlargest ↦ ?_, hfit⟩
  cases hlargest
  exact ⟨hleast, hlimit⟩

/-- A string of a pattern that compiles is generated without a fault, whatever the source is, if
there is no target. With a target there is no fault if some size is at least the target and the
least lengths in the sized pattern, and for this size as the budget the largest number of copies of
each repetition has a number behind it, and all of these copies have a least length that is a
size. -/
theorem generateFrom_faultless (h : compile text flags = .ok pattern) {target : Option Nat}
    (hcopies : ∀ length ∈ target, ∃ limit, length ≤ limit ∧ limit < Size.modulus ∧
      ∀ node ∈ (pattern.sized length).root.visible, node.minLength ≤ limit ∧
        node.CopiesFit (some limit))
    (source : σ) :
    pattern.generateFrom? source target = some (pattern.generateFrom source target) := by
  cases target with
  | some length =>
    obtain ⟨limit, hlength, hlimit, hnodes⟩ := hcopies length rfl
    exact generateFrom?_eq_of_le h hlength hlimit hnodes source
  | none =>
    refine Regex.generate?_eq (valid_of_compile h) ((wellFormed_of_compile h).towards none)
      (fun node hnode ↦ ?_) .none source
    exact ⟨valid_of_compile h node hnode, fun limit hlimit ↦ (nomatch hlimit),
      (hasCounts_of_compile h node hnode).copiesFit⟩

/-- A pattern with backreferences is generated for nine characters without a fault. -/
theorem generateFrom_faultless_echoes : compile echoes.source .none = .ok echoes ∧
    (∀ node ∈ (echoes.sized 9).root.visible, node.minLength ≤ 9 ∧
      node.CopiesFit (some 9)) ∧
    ∀ source : Lcg, echoes.generateFrom? source (some 9) =
      some (echoes.generateFrom source (some 9)) := by
  have hnodes : ∀ node ∈ (echoes.sized 9).root.visible, node.minLength ≤ 9 ∧
      node.CopiesFit (some 9) := by
    decide +kernel
  refine ⟨compile_echoes, hnodes,
    generateFrom_faultless compile_echoes fun length hlength ↦ ?_⟩
  cases hlength
  exact ⟨9, Nat.le_refl 9, by decide, hnodes⟩

/-- A pattern of letters without a limit. -/
def letters : Pattern where
  source := "a*"
  flags := .none
  root := .repetition (.literal ['a'] false) 0 .unbounded .greedy

/-- The pattern compiles. -/
theorem compile_letters : compile letters.source .none = .ok letters := by
  decide +kernel

/-- A pattern that compiles meets a fault for the largest size as the target, where wrapped
arithmetic gives the empty string without a draw. -/
theorem generateFrom_faulty_letters : compile letters.source .none = .ok letters ∧
    letters.generateFrom? (Lcg.ofSeed 173290665556413) (some Size.largest) = none ∧
    letters.generateFrom (Lcg.ofSeed 173290665556413) (some Size.largest) =
      .ok ("", Lcg.ofSeed 173290665556413) := by
  refine ⟨compile_letters, ?_⟩
  decide +kernel

/-- A string of a pattern that compiles is generated without a fault for a target below the largest
size, if the backreferences have the extents of their groups and no least length in the sized
pattern was cut off. -/
theorem generateFrom_faultless_of_lt (h : compile text flags = .ok pattern)
    (hmatch : pattern.root.HasMatchingReferences) {target : Nat} (htarget : target < Size.largest)
    (hexact : (pattern.sized target).root.IsExact) (source : σ) :
    pattern.generateFrom? source (some target) =
      some (pattern.generateFrom source (some target)) := by
  refine generateFrom?_eq_of_le h (Nat.le_of_lt_succ htarget)
    (by decide : Regex.largestBudget < Size.modulus)
    (fun node hnode ↦ ⟨Nat.le_of_lt_succ (hexact node hnode), ?_⟩) source
  exact Regex.copiesFit_sized (hasCounts_of_compile h) (canRepeat_of_compile h)
    (valid_of_compile h) hmatch htarget hexact node hnode

example (source : Lcg) : letters.generateFrom? source (some Regex.largestBudget) =
    some (letters.generateFrom source (some Regex.largestBudget)) :=
  generateFrom_faultless_of_lt compile_letters (by decide +kernel) (by decide)
    (by decide +kernel) source

end Pattern

end Exemplar
