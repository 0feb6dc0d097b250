import Exemplar.Proofs.Generation.Wrapping
import Exemplar.Proofs.Grammar.Numbering
import Exemplar.Proofs.Length.Measured
import Exemplar.Proofs.Pattern.Strings

/-!
# Patterns in wrappings without effect

A seed has the same string in a pattern, in one copy of it, and in the pattern with the empty
string in front or behind, with and without a target (`generate_wrapped`). No least length in the
pattern may reach the largest size, at which least lengths are cut off: the copies of a repetition
with such a least length get different budgets from targets that do not exceed it. And a string has
a length that is a size, which the theorem has to say because the strings of Lean are not limited
in this way.
-/

namespace Exemplar

/-- The groups of a tree that was read have different numbers after it was pruned. -/
theorem Regex.groupNumbers_nodup_of_parse {pattern : List Char} {flags : Flags} {tree : Regex}
    (h : parse pattern flags = .ok tree) : tree.groupNumbers.Nodup :=
  (groupNumbers_pairwise_of_parse h).imp Nat.ne_of_lt

/-- What fits the groups refers to a group under its number only. -/
theorem Groups.Fits.isNumbered {groups : Groups} {node : Regex} (h : groups.Fits node) :
    node.IsNumbered groups.number? := by
  cases node with
  | group kind body =>
    cases kind with
    | capturing number name => exact fun id hid ↦ h.1.number?_eq hid
    | plain => exact trivial
    | atomic => exact trivial
    | lookahead negated => exact trivial
    | lookbehind negated => exact trivial
  | empty => exact trivial
  | literal text ignoreCase => exact trivial
  | set members => exact trivial
  | sequence parts => exact trivial
  | choice options => exact trivial
  | repetition body least most mode => exact trivial
  | backref id extent => exact trivial

namespace Pattern

variable {text : String} {flags : Flags} {pattern : Pattern}

/-- A pattern has a string for every seed and every target, and it is also the string of one copy
of the pattern and of the pattern with the empty string in front or behind, if no least length in
the pattern reaches the largest size. Towards a target, the string has to have a size as its
length. -/
theorem generate_wrapped (h : compile text flags = .ok pattern)
    (hsize : ∀ node ∈ pattern.root.visible, node.minLength < Size.largest)
    (mode : RepetitionMode) (seed : Int) (target : Option Nat)
    (htarget : ∀ limit, target = some limit → limit < Size.modulus) :
    ∃ value, pattern.generate seed target = .ok value ∧
      ((target.isSome = true → value.length < Size.modulus) →
        (ofTree (pattern.root.repeated 1 1 mode)).generate seed target = .ok value ∧
        (ofTree (.inSequence [.empty, pattern.root])).generate seed target = .ok value ∧
        (ofTree (.inSequence [pattern.root, .empty])).generate seed target = .ok value) := by
  have hwell := wellFormed_of_compile h
  obtain ⟨tree, hparse, rfl⟩ := compile_eq_ok h
  obtain ⟨groups, hfits⟩ := Regex.exists_fits_of_parse hparse
  have hread := groups.stable_fits.wellFormed hfits
  have hnormal := tree.isNormal_simplify
  have hsafe := (Regex.safe_of_parse hparse).simplify hread
  have hfits := (groups.stable_fits.simplify hfits).1
  have hmeasured := hfits.mono fun _ ↦ Groups.Fits.isMeasured
  have hvalid (node : Regex) (hnode : node ∈ tree.simplify.visible) : node.extent.Valid :=
    Regex.valid_of_safe hnormal hwell hmeasured .nil hsafe hnode
  have hrepeat := Regex.canRepeat_of_safe hnormal hwell hmeasured .nil hsafe
  have hnodup := (Regex.groupNumbers_nodup_of_parse hparse).sublist
    (Regex.groupNumbers_simplify_sublist tree)
  obtain ⟨value, next, hgenerate⟩ := Regex.exists_generate (hwell.towards target)
    (hsafe.towards hwell target) (Lcg.ofSeed seed)
  refine ⟨value, generate_eq_ok.2 ⟨next, hgenerate⟩, fun hlength ↦ ?_⟩
  have hwrap {wrap : Regex → Regex} (htransparent : Regex.IsTransparent wrap) :
      (ofTree (wrap tree.simplify)).generate seed target = .ok value :=
    generate_eq_ok.2 <| htransparent.exists_generate hwell hsafe
      (hvalid _ (Regex.mem_visible_self _))
      (fun target inner ↦ Regex.sized_eq_of_interchangeable hrepeat hvalid
        (fun node hnode ↦ (hmeasured.of_mem_visible hnode).here) hsize hsafe)
      (Regex.exists_isMeasured_sized hwell hsafe hrepeat
        (fun node hnode ↦ (hfits.of_mem_visible hnode).here.isNumbered) hnodup)
      hgenerate (fun limit heq ↦ ⟨htarget limit heq, hlength (heq ▸ rfl)⟩)
  have honce := hwrap (Regex.isTransparent_repeated mode)
  have hfront := hwrap Regex.isTransparent_empty_cons
  have hbehind := hwrap Regex.isTransparent_append_empty
  exact ⟨honce, hfront, hbehind⟩

/-- A pattern with backreferences has the same string for a target below its least length in all
three wrappings. -/
theorem generate_wrapped_echoes : compile echoes.source .none = .ok echoes ∧
    (∀ node ∈ echoes.root.visible, node.minLength < Size.largest) ∧
    (∀ limit, some 3 = some limit → limit < Size.modulus) ∧
    echoes.generate 5 (some 3) = .ok "cdccd" ∧
    (ofTree (echoes.root.repeated 1 1 .greedy)).generate 5 (some 3) = .ok "cdccd" ∧
    (ofTree (.inSequence [.empty, echoes.root])).generate 5 (some 3) = .ok "cdccd" ∧
    (ofTree (.inSequence [echoes.root, .empty])).generate 5 (some 3) = .ok "cdccd" := by
  have hsize : ∀ node ∈ echoes.root.visible, node.minLength < Size.largest := by decide +kernel
  have htarget : ∀ limit, some 3 = some limit → limit < Size.modulus := by
    rintro _ ⟨⟩
    decide
  have hstring : echoes.generate 5 (some 3) = .ok "cdccd" := by decide +kernel
  obtain ⟨value, hvalue, hwrapped⟩ :=
    generate_wrapped compile_echoes hsize .greedy 5 (some 3) htarget
  rw [hstring] at hvalue
  cases hvalue
  exact ⟨compile_echoes, hsize, htarget, hstring, hwrapped fun _ ↦ by decide⟩

end Pattern

end Exemplar
