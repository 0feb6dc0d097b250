import Exemplar.Proofs.Grammar.Records
import Exemplar.Proofs.Pattern.Sized

/-!
# The lengths of backreferences

A backreference takes the extent of its group when it is read, and keeps it while the impossible
parts of the group are removed. So it has the extent of its group in the compiled pattern if
pruning did not change the extent of the group (`hasMatchingReferences_of_compile`), and only a
wider one otherwise (`not_hasMatchingReferences_prunedEcho`).
-/

namespace Exemplar

namespace Regex

/-- Removing the impossible parts of the first tree changes the extent of no group to which a
backreference of the second tree leads. -/
def KeepsReferredExtents (read root : Regex) : Prop :=
  ∀ reference ∈ root.visible, ∀ other ∈ read.visible, reference.refersTo other = true →
    ∀ left ∈ other.prune, left.extent = other.extent

instance (read root : Regex) : Decidable (read.KeepsReferredExtents root) :=
  inferInstanceAs (Decidable (∀ reference ∈ root.visible, ∀ other ∈ read.visible, _))

/-- A tree leads to another one when it is a backreference and the other one is a group that is
referred to in this way. -/
theorem refersTo_eq_true {reference other : Regex} :
    reference.refersTo other = true ↔
      ∃ id extent number name body, reference = backref id extent ∧
      other = group (.capturing number name) body ∧ id ∈ groupIds number name := by
  constructor
  · intro h
    unfold refersTo at h
    split at h
    · exact ⟨_, _, _, _, _, rfl, rfl, List.contains_iff_mem.1 h⟩
    · cases h
  · rintro ⟨id, extent, number, name, body, rfl, rfl, hid⟩
    exact List.contains_iff_mem.2 hid

/-- A backreference leads to a group that is referred to in its way. -/
theorem IsGroupOf.refersTo {node : Regex} {id : GroupId} (h : node.IsGroupOf id) (extent : Extent) :
    (backref id extent).refersTo node = true := by
  cases node with
  | group kind body =>
    cases kind with
    | capturing number name => exact List.contains_iff_mem.2 h
    | plain => cases h
    | atomic => cases h
    | lookahead negated => cases h
    | lookbehind negated => cases h
  | empty => cases h
  | literal text ignoreCase => cases h
  | set members => cases h
  | sequence parts => cases h
  | choice options => cases h
  | repetition body least most mode => cases h
  | backref other extent => cases h

end Regex

namespace Pattern

variable {text : String} {flags : Flags} {pattern : Pattern}

/-- Every backreference of a pattern outside of assertions leads to a group of the pattern. -/
theorem exists_refersTo_of_compile (h : compile text flags = .ok pattern) {reference : Regex}
    (hreference : reference ∈ pattern.root.visible) (hbackref : reference.isBackref = true) :
    ∃ other ∈ pattern.root.visible, reference.refersTo other = true := by
  have hwell := wellFormed_of_compile h
  obtain ⟨tree, hparse, rfl⟩ := compile_eq_ok h
  have htree := Regex.wellFormed_of_parse hparse
  have hsafe := (Regex.safe_of_parse hparse).simplify htree
  cases reference with
  | backref id extent =>
    obtain ⟨other, hother, hgroup⟩ :=
      Regex.exists_group_of_backref tree.isNormal_simplify hwell hsafe hreference
    exact ⟨other, hother, hgroup.refersTo extent⟩
  | empty => cases hbackref
  | literal text ignoreCase => cases hbackref
  | set members => cases hbackref
  | sequence parts => cases hbackref
  | choice options => cases hbackref
  | repetition body least most mode => cases hbackref
  | group kind body => cases hbackref

/-- A backreference of a pattern has the extent that its group had when it was read, and the body
of the group is what pruning and simplification left of the body that was read. -/
theorem exists_read_of_refersTo (h : compile text flags = .ok pattern) {id : GroupId}
    {extent : Extent} {number : Nat} {name : Option String} {body : Regex}
    (hid : id ∈ groupIds number name)
    (hreference : Regex.backref id extent ∈ pattern.root.visible)
    (hgroup : Regex.group (.capturing number name) body ∈ pattern.root.visible) :
    ∃ read groups body' left, (Reading.start text.toList flags).run = .ok (read, groups) ∧
      Regex.group (.capturing number name) body' ∈ read.visible ∧ body'.prune = some left ∧
      extent = body'.extent ∧ body.extent = left.extent := by
  obtain ⟨tree, hparse, rfl⟩ := compile_eq_ok h
  rcases Regex.parse_eq_ok hparse with rfl | ⟨read, groups, hrun, -, hprune⟩
  · -- A text has no backreferences.
    cases htext : text.toList <;>
      simp [htext, Regex.ofText, Regex.simplify, Regex.visible] at hreference
  · have hread := (Reading.Sound.start text.toList flags).run hrun
    have hreadWell := groups.stable_fits.wellFormed hread
    have hfits := (groups.stable_fits.simplify (groups.stable_fits.prune hread hprune).1).1
    obtain ⟨left, hleft, rfl⟩ := Regex.hasGroups_simplify tree hgroup
    obtain ⟨body', hbody, hleft⟩ := Regex.exists_group_of_prune hprune hleft
    -- The backreference copied the extent from the record of the group.
    obtain ⟨referred, hreferred, hlookup⟩ := hfits.of_mem_visible hreference
    obtain ⟨hnames, -⟩ := (hfits.of_mem_visible hgroup).here
    have hnumber : referred = number :=
      Option.some.inj (hreferred.symm.trans (hnames.number?_eq hid))
    have hextent : extent = body'.extent := Option.some.inj <| hlookup.symm.trans <|
      hnumber ▸ Reading.lookup_closed_of_run hrun hbody
    have hleftWell := (Regex.stable_isBuilt.prune (hreadWell.of_mem_visible hbody).2 hleft).1
    exact ⟨read, groups, body', left, hrun, hbody, hleft, hextent,
      Regex.extent_simplify hleftWell⟩

/-- Every backreference of a pattern outside of assertions leads to a group of the pattern. If
pruning kept the extents of such groups, each backreference has exactly the extent of its group. -/
theorem hasMatchingReferences_of_compile (h : compile text flags = .ok pattern)
    (hkeeps : ∀ read groups, (Reading.start text.toList flags).run = .ok (read, groups) →
      read.KeepsReferredExtents pattern.root) :
    (∀ reference ∈ pattern.root.visible, reference.isBackref = true →
      ∃ other ∈ pattern.root.visible, reference.refersTo other = true) ∧
      pattern.root.HasMatchingReferences := by
  refine ⟨fun reference ↦ exists_refersTo_of_compile h, ?_⟩
  intro reference hreference other hother hrefers
  obtain ⟨id, extent, number, name, body, rfl, rfl, hid⟩ := Regex.refersTo_eq_true.1 hrefers
  obtain ⟨read, groups, body', left, hrun, hbody, hleft, hextent, hbodyLeft⟩ :=
    exists_read_of_refersTo h hid hreference hother
  -- What is left of the group that was read has its extent.
  have hkept : left.extent = body'.extent := hkeeps read groups hrun _ hreference _ hbody
    (Regex.refersTo_eq_true.2 ⟨id, extent, number, name, body', rfl, rfl, hid⟩)
    (.group (.capturing number name) left)
    (Regex.prune_group_eq_some.2 (.inr ⟨rfl, left, hleft, rfl⟩))
  show extent = body.extent
  rw [hextent, hbodyLeft, hkept]

/-- The backreferences of a pattern with an impossible option match their groups, which do not get
longer or shorter without the option. -/
theorem hasMatchingReferences_echoes : compile echoes.source .none = .ok echoes ∧
    (∀ read groups, (Reading.start echoes.source.toList .none).run = .ok (read, groups) →
      read.KeepsReferredExtents echoes.root) ∧
    (∀ reference ∈ echoes.root.visible, reference.isBackref = true →
      ∃ other ∈ echoes.root.visible, reference.refersTo other = true) ∧
    echoes.root.HasMatchingReferences := by
  have hkeeps : ∀ read groups, (Reading.start echoes.source.toList .none).run =
      .ok (read, groups) → read.KeepsReferredExtents echoes.root := by
    intro read groups hrun
    have hread : (match (Reading.start echoes.source.toList .none).run with
        | .ok (read, _) => decide (read.KeepsReferredExtents echoes.root)
        | .error _ => false) = true := by
      decide +kernel
    rw [hrun] at hread
    exact of_decide_eq_true hread
  exact ⟨compile_echoes, hkeeps, hasMatchingReferences_of_compile compile_echoes hkeeps⟩

/-- A pattern with a backreference to a group that loses its shorter option. -/
def prunedEcho : Pattern where
  source := "(ab|[a&&b])\\1"
  flags := .none
  root := .sequence
    [.group (.capturing 1 none) (.literal ['a', 'b'] false),
     .backref (.index 1) (.between 1 (.ofExact 2))]

/-- A backreference of a pattern may allow for shorter texts than its group has. -/
theorem not_hasMatchingReferences_prunedEcho : compile prunedEcho.source .none = .ok prunedEcho ∧
    ¬ prunedEcho.root.HasMatchingReferences := by
  decide +kernel

end Pattern

end Exemplar
