import Exemplar.Pattern
import Exemplar.Proofs.Generation.Rewriting
import Exemplar.Proofs.Grammar.Certainty
import Exemplar.Proofs.Length.Emission

/-!
# The strings of a pattern

A pattern that compiles has a string for every lawful source and every target
(`exists_generateFrom`). The string is one that the tree of the pattern emits, as the tree was read
and before it was simplified or sized (`exists_emits_of_generateFrom`), and it is no shorter than
the least length of the pattern and no longer than its bound (`length_bounds_of_generateFrom`).
-/

namespace Exemplar

/-- Results are equal when both are the same value or both are the same error. -/
instance decidableEqExcept {ε α : Type} [DecidableEq ε]
    [DecidableEq α] : DecidableEq (Except ε α)
  | .ok first, .ok second => decidable_of_iff (first = second) (by simp)
  | .error first, .error second => decidable_of_iff (first = second) (by simp)
  | .ok _, .error _ => isFalse (by simp)
  | .error _, .ok _ => isFalse (by simp)

/-- The extent on record for a group, and that of the empty string if there is none. -/
def Groups.sizeOf (groups : Groups) (id : GroupId) : Extent :=
  ((groups.number? id).bind fun number ↦ groups.closed.lookup number).getD .zero

/-- What fits the groups is measured by their extents. -/
theorem Groups.Fits.isMeasured {groups : Groups} {node : Regex} (h : groups.Fits node) :
    node.IsMeasured groups.sizeOf := by
  cases node with
  | group kind body =>
    cases kind with
    | capturing number name =>
      obtain ⟨hnames, extent, hclosed, hwithin⟩ := h
      intro id hid
      rw [sizeOf, hnames.number?_eq hid, Option.bind_some, hclosed]
      exact hwithin
    | plain => exact trivial
    | atomic => exact trivial
    | lookahead negated => exact trivial
    | lookbehind negated => exact trivial
  | backref id extent =>
    obtain ⟨number, hnumber, hclosed⟩ := h
    show (groups.sizeOf id).Within extent
    rw [sizeOf, hnumber, Option.bind_some, hclosed]
    exact .refl _
  | empty => exact trivial
  | literal text ignoreCase => exact trivial
  | set members => exact trivial
  | sequence parts => exact trivial
  | choice options => exact trivial
  | repetition body least most mode => exact trivial

/-- A tree that was read is well-formed. -/
theorem Regex.wellFormed_of_parse {pattern : List Char} {flags : Flags} {tree : Regex}
    (h : parse pattern flags = .ok tree) : tree.WellFormed := by
  obtain ⟨groups, hfits⟩ := exists_fits_of_parse h
  exact groups.stable_fits.wellFormed hfits

namespace Pattern

variable {text : String} {flags : Flags} {pattern : Pattern}

/-- A pattern that compiles has the normal form of the tree that was read. -/
theorem compile_eq_ok (h : compile text flags = .ok pattern) :
    ∃ tree, Regex.parse text.toList flags = .ok tree ∧
      pattern = ⟨text, flags, tree.simplify⟩ := by
  unfold compile at h
  split at h
  · rename_i tree hparse
    cases h
    exact ⟨tree, hparse, rfl⟩
  · cases h

/-- A pattern compiles when the tree that is read needs no group in front of it and is possible. -/
theorem compile_of_run {chars : List Char} {tree : Regex} {groups : Groups}
    (hliteral : flags.literal = false) (hrun : (Reading.start chars flags).run = .ok (tree, groups))
    (hneeded : tree.certainty.needed = []) (hpossible : tree.Possible) :
    compile (.ofList chars) flags = .ok ⟨.ofList chars, flags, tree.simplify⟩ := by
  rw [compile, String.toList_ofList, Regex.parse_of_run hliteral hrun hneeded hpossible]

/-- The tree of a pattern that compiles is well-formed. -/
theorem wellFormed_of_compile (h : compile text flags = .ok pattern) : pattern.root.WellFormed := by
  obtain ⟨tree, hparse, rfl⟩ := compile_eq_ok h
  exact (Regex.wellFormed_of_parse hparse).simplify

/-- The tree of a pattern that compiles is safe before anything was captured. -/
theorem safe_of_compile (h : compile text flags = .ok pattern) : pattern.root.Safe [] := by
  obtain ⟨tree, hparse, rfl⟩ := compile_eq_ok h
  exact (Regex.safe_of_parse hparse).simplify (Regex.wellFormed_of_parse hparse)

/-- The tree of a pattern that compiles is measured by the extents of its groups. -/
theorem exists_isMeasured_of_compile (h : compile text flags = .ok pattern) :
    ∃ sizeOf, pattern.root.Everywhere (·.IsMeasured sizeOf) := by
  obtain ⟨tree, hparse, rfl⟩ := compile_eq_ok h
  obtain ⟨groups, hfits⟩ := Regex.exists_fits_of_parse hparse
  exact ⟨_, (groups.stable_fits.simplify hfits).1.mono fun _ ↦ Groups.Fits.isMeasured⟩

/-- The string of a seed is generated from its source. -/
theorem generate_eq_ok {seed : Int} {target : Option Nat} {value : String} :
    pattern.generate seed target = .ok value ↔
      ∃ next, pattern.generateFrom (Lcg.ofSeed seed) target = .ok (value, next) := by
  rw [generate]
  cases pattern.generateFrom (Lcg.ofSeed seed) target with
  | ok result =>
    obtain ⟨value', next⟩ := result
    simp [Except.map]
  | error error => simp [Except.map]

/-- The error of a seed is that of its source. -/
theorem generate_eq_error {seed : Int} {target : Option Nat} {error : GenerationError} :
    pattern.generate seed target = .error error ↔
      pattern.generateFrom (Lcg.ofSeed seed) target = .error error := by
  rw [generate]
  cases pattern.generateFrom (Lcg.ofSeed seed) target <;> simp [Except.map]

/-- A pattern with an impossible option and with backreferences to a group by its number and, under
a repetition, by its name. -/
def echoes : Pattern where
  source := "(?<word>[ab]+|c)(d|[a&&b])\\k<word>\x7b2,\x7d\\2"
  flags := .none
  root := .sequence
    [.group (.capturing 1 (some "word"))
      (.choice [.repetition (.set (.range 'a' 'b')) 1 .unbounded .greedy, .literal ['c'] false]),
     .group (.capturing 2 none) (.literal ['d'] false),
     .repetition (.backref (.name "word") (.between 1 .unbounded)) 2 .unbounded .greedy,
     .backref (.index 2) (.ofLength 1)]

/-- The pattern compiles, without its impossible option. -/
theorem compile_echoes : compile echoes.source .none = .ok echoes := by
  decide +kernel

/-- A string of the pattern for a target. -/
theorem generateFrom_echoes : echoes.generateFrom (Lcg.ofSeed 5) (some 9) =
    .ok ("cdccd", ⟨205623065021011, by decide⟩) := by
  decide +kernel

variable {σ : Type} [RandomSource σ] [RandomSource.Lawful σ]

/-- A pattern that compiles has a string for every lawful source and every target. -/
theorem exists_generateFrom (h : compile text flags = .ok pattern) (source : σ)
    (target : Option Nat) :
    ∃ value next, pattern.generateFrom source target = .ok (value, next) := by
  have hroot := wellFormed_of_compile h
  obtain ⟨tree, hparse, rfl⟩ := compile_eq_ok h
  have hsafe := (Regex.safe_of_parse hparse).simplify (Regex.wellFormed_of_parse hparse)
  exact Regex.exists_generate (hroot.towards target) (hsafe.towards hroot target) source

/-- A pattern with backreferences has a string for a target below its least length. -/
theorem exists_generateFrom_echoes : compile echoes.source .none = .ok echoes ∧
    ∃ value next, echoes.generateFrom (Lcg.ofSeed 5) (some 3) = .ok (value, next) :=
  ⟨compile_echoes, exists_generateFrom compile_echoes (Lcg.ofSeed 5) (some 3)⟩

/-- A string that was generated is one that the simplified tree emits. -/
theorem root_emits_of_generateFrom (h : compile text flags = .ok pattern) {source next : σ}
    {target : Option Nat} {value : String}
    (hgenerate : pattern.generateFrom source target = .ok (value, next)) :
    ∃ after, pattern.root.Emits [] value.toList after := by
  have hroot := wellFormed_of_compile h
  obtain ⟨after, hemits⟩ := Regex.emits_of_generate (hroot.towards target) hgenerate
  exact ⟨after, Regex.emits_towards_le hroot target _ _ _ hemits⟩

/-- A string that was generated is one that the tree emits as it was read, before anything was
captured. -/
theorem exists_emits_of_generateFrom (h : compile text flags = .ok pattern) {source next : σ}
    {target : Option Nat} {value : String}
    (hgenerate : pattern.generateFrom source target = .ok (value, next)) :
    ∃ tree after, Regex.parse text.toList flags = .ok tree ∧
      tree.Emits [] value.toList after := by
  obtain ⟨after, hemits⟩ := root_emits_of_generateFrom h hgenerate
  obtain ⟨tree, hparse, rfl⟩ := compile_eq_ok h
  rw [Regex.emits_simplify (Regex.wellFormed_of_parse hparse)] at hemits
  exact ⟨tree, after, hparse, hemits⟩

/-- A string in which a word is repeated is emitted by the tree with the repeated word. -/
theorem exists_emits_echoes : compile echoes.source .none = .ok echoes ∧
    echoes.generateFrom (Lcg.ofSeed 5) (some 9) =
      .ok ("cdccd", ⟨205623065021011, by decide⟩) ∧
    ∃ tree after, Regex.parse echoes.source.toList .none = .ok tree ∧
      tree.Emits [] "cdccd".toList after :=
  ⟨compile_echoes, generateFrom_echoes,
    exists_emits_of_generateFrom compile_echoes generateFrom_echoes⟩

/-- A string that was generated is no shorter than the least length of the pattern and no longer
than its bound. -/
theorem length_bounds_of_generateFrom (h : compile text flags = .ok pattern) {source next : σ}
    {target : Option Nat} {value : String}
    (hgenerate : pattern.generateFrom source target = .ok (value, next)) :
    pattern.minLength ≤ value.length ∧ pattern.maxLength.Allows value.length := by
  obtain ⟨after, hemits⟩ := root_emits_of_generateFrom h hgenerate
  obtain ⟨tree, hparse, rfl⟩ := compile_eq_ok h
  obtain ⟨groups, hfits⟩ := Regex.exists_fits_of_parse hparse
  have hmeasured := (groups.stable_fits.simplify hfits).1.mono fun _ ↦ Groups.Fits.isMeasured
  exact hemits.length_mem_extent hmeasured

/-- A string with two repeated groups has at least the least length of its pattern. -/
theorem length_bounds_echoes : compile echoes.source .none = .ok echoes ∧
    echoes.generateFrom (Lcg.ofSeed 5) (some 9) =
      .ok ("cdccd", ⟨205623065021011, by decide⟩) ∧
    echoes.minLength ≤ "cdccd".length ∧ echoes.maxLength.Allows "cdccd".length :=
  ⟨compile_echoes, generateFrom_echoes,
    length_bounds_of_generateFrom compile_echoes generateFrom_echoes⟩

end Pattern

end Exemplar
