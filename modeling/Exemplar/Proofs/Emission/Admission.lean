import Exemplar.Proofs.Grammar.References
import Exemplar.Proofs.Regex.Possible

/-!
# Pruning is exact

`tree.Admits before text after` is the emission relation that takes assertions seriously as far as
generation can: an assertion that its body is present holds when the body admits a text behind some
captures, and an assertion that it is absent always holds. A set without members admits nothing, so
a tree may admit nothing at all.

Pruning gives up exactly on those trees, and what is left of another tree admits the same texts
with the same captures (`prune_exact`). One direction is a law for each kind of tree, which says
what becomes of an emission when a part admits nothing (`admits_prune`). The other one finds a text
for every possible tree (`Possible.exists_admits`).
-/

namespace Exemplar

namespace Emission

/-- Writing nothing at all, not even the empty text. -/
def never : Emission := fun _ _ _ ↦ False

/-- Writing the empty text where a body is asserted. If the body must be present, it must have a
text behind some captures. -/
def asserting (negated : Bool) (body : Emission) : Emission := fun before text after ↦
  (negated = true ∨ ∃ captures written later, body captures written later) ∧
    ofText [] before text after

variable {first second body : Emission}

/-- Nothing is written behind a failure. -/
@[simp] theorem never_andThen (second : Emission) : never.andThen second = never := by
  funext before text after
  refine propext ⟨?_, False.elim⟩
  rintro ⟨_, _, _, h, -⟩
  exact h

/-- Nothing is written where the rest fails. -/
@[simp] theorem andThen_never (first : Emission) : first.andThen never = never := by
  funext before text after
  refine propext ⟨?_, False.elim⟩
  rintro ⟨_, _, _, -, h, -⟩
  exact h

/-- A body that fails is captured by no group. -/
@[simp] theorem capturing_never (ids : List GroupId) : never.capturing ids = never := by
  funext before text after
  refine propext ⟨?_, False.elim⟩
  rintro ⟨_, h, -⟩
  exact h

/-- Copies of a failure fail, unless there are none. -/
theorem copies_never_succ (count : Nat) : never.copies (count + 1) = never :=
  never_andThen _

/-- A body that fails is never present. -/
@[simp] theorem asserting_never : asserting false never = never := by
  funext before text after
  refine propext ⟨?_, False.elim⟩
  rintro ⟨h | ⟨_, _, _, h⟩, -⟩
  · cases h
  · exact h

end Emission

namespace Regex

mutual
/-- What a tree may emit when every assertion that a body is present holds. -/
def Admits : Regex → Emission
  | empty => .ofText []
  | literal text _ => .ofText text
  | set members => fun before text after ↦ ∃ c ∈ members, text = [c] ∧ after = before
  | sequence parts => AdmitsAll parts
  | choice options => AdmitsAny options
  | repetition body least most _ => fun before text after ↦
      ∃ count, least ≤ count ∧ most.Allows count ∧
        (Admits body).copies count before text after
  | group (.capturing number name) body => (Admits body).capturing (groupIds number name)
  | group .plain body => Admits body
  | group .atomic body => Admits body
  | group (.lookahead negated) body => (Admits body).asserting negated
  | group (.lookbehind negated) body => (Admits body).asserting negated
  | backref id _ => fun before text after ↦ before.find? id = some text ∧ after = before

/-- What several trees in a row may emit when their assertions hold. -/
def AdmitsAll : List Regex → Emission
  | [] => .ofText []
  | part :: parts => (Admits part).andThen (AdmitsAll parts)

/-- What one of several trees may emit when its assertions hold. -/
def AdmitsAny : List Regex → Emission
  | [] => .never
  | option :: options => fun before text after ↦
      Admits option before text after ∨ AdmitsAny options before text after
end

/-- A tree of parts in a row admits what the parts admit. -/
@[simp] theorem admits_inSequence (parts : List Regex) :
    (inSequence parts).Admits = AdmitsAll parts := by
  cases parts <;> rfl

/-- A group admits the same when its body does. -/
theorem admits_group_congr {kind : GroupKind} {body body' : Regex}
    (h : body.Admits = body'.Admits) :
    (group kind body).Admits = (group kind body').Admits := by
  cases kind <;> simp only [Admits, h]

/-- A group whose body must be there fails with the body. -/
theorem admits_group_never {kind : GroupKind} {body : Regex} (hkind : kind.isNegated = false)
    (h : body.Admits = .never) : (group kind body).Admits = .never := by
  cases kind with
  | capturing number name => rw [Admits, h, Emission.capturing_never]
  | plain => exact h
  | atomic => exact h
  | lookahead negated =>
    cases hkind
    rw [Admits, h, Emission.asserting_never]
  | lookbehind negated =>
    cases hkind
    rw [Admits, h, Emission.asserting_never]

/-- A repetition of a body that fails has no copies. -/
theorem admits_repetition_never {body : Regex} {least : Nat} {most : Bound} {mode : RepetitionMode}
    (h : body.Admits = .never) :
    (repetition body least most mode).Admits = if least = 0 then .ofText [] else .never := by
  funext before text after
  refine propext ?_
  rw [Admits, h]
  constructor
  · rintro ⟨count, hleast, -, hcopies⟩
    cases count with
    | zero =>
      rw [if_pos (Nat.le_zero.1 hleast)]
      exact hcopies
    | succ count =>
      rw [Emission.copies_never_succ] at hcopies
      exact hcopies.elim
  · intro hempty
    split at hempty
    · rename_i hleast
      exact ⟨0, Nat.le_of_eq hleast, Bound.allows_zero _, hempty⟩
    · exact hempty.elim

/-- What is left of parts in a row admits what the parts admit when this holds of each part. -/
theorem admitsAll_pruneEach {parts : List Regex}
    (h : ∀ part ∈ parts, part.prune.elim .never Admits = part.Admits) :
    (pruneEach parts).elim .never AdmitsAll = AdmitsAll parts := by
  induction parts with
  | nil => rfl
  | cons part parts ih =>
    obtain ⟨hpart, hparts⟩ := List.forall_mem_cons.1 h
    rw [AdmitsAll, ← hpart, ← ih hparts, pruneEach]
    cases part.prune <;> cases pruneEach parts <;> simp [AdmitsAll]

/-- The options that are left admit what all options admit when this holds of each option. -/
theorem admitsAny_filterMap_prune {options : List Regex}
    (h : ∀ option ∈ options, option.prune.elim .never Admits = option.Admits) :
    AdmitsAny (options.filterMap prune) = AdmitsAny options := by
  induction options with
  | nil => rfl
  | cons option options ih =>
    obtain ⟨hoption, hoptions⟩ := List.forall_mem_cons.1 h
    rw [AdmitsAny, ← hoption, ← ih hoptions, List.filterMap_cons]
    cases option.prune with
    | none => simp [Emission.never]
    | some rest => rfl

/-- What is left of a tree admits what the tree admits, and a tree of which nothing is left admits
nothing. -/
theorem admits_prune {tree : Regex} (h : tree.WellFormed) :
    tree.prune.elim .never Admits = tree.Admits := by
  induction tree with
  | empty => rfl
  | literal text ignoreCase => rfl
  | set members =>
    rw [prune]
    split
    · rename_i hempty
      funext before text after
      refine propext ⟨False.elim, ?_⟩
      rintro ⟨c, hc, -⟩
      have hsome : members.isEmpty = false := CharSet.isEmpty_eq_false_iff.2 ⟨c, hc⟩
      rw [hsome] at hempty
      cases hempty
    · rfl
  | sequence parts ih =>
    rw [wellFormed_sequence] at h
    rw [Admits, ← admitsAll_pruneEach fun part hpart ↦ ih part hpart (h part hpart), prune]
    cases pruneEach parts <;> simp
  | choice options ih =>
    rw [wellFormed_choice] at h
    rw [Admits, ← admitsAny_filterMap_prune fun option hoption ↦
      ih option hoption (h.2 option hoption), prune, pruneAny_eq_filterMap]
    cases options.filterMap prune <;> rfl
  | repetition body least most mode ih =>
    rw [wellFormed_repetition] at h
    have hbody := ih h.2
    rw [prune]
    cases hprune : body.prune with
    | some rest =>
      rw [hprune] at hbody
      have hrest : rest.Admits = body.Admits := hbody
      simp only [Option.elim_some, repeated, Bound.raise_of_allows h.1.1, Admits, hrest]
    | none =>
      rw [hprune] at hbody
      rw [admits_repetition_never hbody.symm]
      by_cases hleast : least = 0
      · simp [hleast, Admits]
      · simp [hleast]
  | group kind body ih =>
    rw [wellFormed_group] at h
    have hbody := ih h
    rw [prune]
    cases hkind : kind.isNegated with
    | true => rfl
    | false =>
      cases hprune : body.prune with
      | some rest =>
        rw [hprune] at hbody
        exact admits_group_congr hbody
      | none =>
        rw [hprune] at hbody
        exact (admits_group_never hkind hbody.symm).symm
  | backref id extent => rfl

/-! ## Possible trees admit something -/

/-- A backreference has a text among the captures. -/
def HasText (captures : Captures) : Regex → Prop
  | backref id _ => (captures.find? id).isSome = true
  | _ => True

/-- What has a text keeps one as long as no group loses its text. -/
theorem Everywhere.keeps {tree : Regex} {captures later : Captures}
    (h : tree.Everywhere (HasText captures)) (hkeeps : later.Keeps captures) :
    tree.Everywhere (HasText later) := by
  refine h.mono fun node hnode ↦ ?_
  cases node with
  | backref id extent => exact hkeeps id hnode
  | empty => exact trivial
  | literal text ignoreCase => exact trivial
  | set members => exact trivial
  | sequence parts => exact trivial
  | choice options => exact trivial
  | repetition body least most mode => exact trivial
  | group kind body => exact trivial

/-- There are captures that have a text for every backreference of a tree, and for whatever had one
before. -/
theorem exists_hasText (tree : Regex) (before : Captures) :
    ∃ after : Captures, after.Keeps before ∧ tree.Everywhere (HasText after) := by
  -- The texts for several trees are found one tree after the other.
  have hlist (trees : List Regex) (ih : ∀ tree ∈ trees, ∀ before, ∃ after : Captures,
      after.Keeps before ∧ tree.Everywhere (HasText after)) (before : Captures) :
      ∃ after : Captures, after.Keeps before ∧ ∀ tree ∈ trees,
        tree.Everywhere (HasText after) := by
    induction trees generalizing before with
    | nil => exact ⟨before, .refl before, by simp⟩
    | cons head trees ihtrees =>
      obtain ⟨middle, hmiddle, hhead⟩ := ih head (by simp) before
      obtain ⟨after, hafter, htrees⟩ :=
        ihtrees (fun other hother ↦ ih other (List.mem_cons_of_mem _ hother)) middle
      exact ⟨after, hafter.trans hmiddle,
        List.forall_mem_cons.2 ⟨hhead.keeps hafter, htrees⟩⟩
  induction tree generalizing before with
  | empty => exact ⟨before, .refl before, trivial⟩
  | literal text ignoreCase => exact ⟨before, .refl before, trivial⟩
  | set members => exact ⟨before, .refl before, trivial⟩
  | sequence parts ih =>
    obtain ⟨after, hkeeps, hparts⟩ := hlist parts ih before
    exact ⟨after, hkeeps, everywhere_sequence.2 ⟨trivial, hparts⟩⟩
  | choice options ih =>
    obtain ⟨after, hkeeps, hoptions⟩ := hlist options ih before
    exact ⟨after, hkeeps, everywhere_choice.2 ⟨trivial, hoptions⟩⟩
  | repetition body least most mode ih =>
    obtain ⟨after, hkeeps, hbody⟩ := ih before
    exact ⟨after, hkeeps, everywhere_repetition.2 ⟨trivial, hbody⟩⟩
  | group kind body ih =>
    obtain ⟨after, hkeeps, hbody⟩ := ih before
    exact ⟨after, hkeeps, everywhere_group.2 ⟨trivial, hbody⟩⟩
  | backref id extent =>
    refine ⟨before.record id [], fun _ ↦ Captures.isSome_find?_record, ?_⟩
    show ((before.record id []).find? id).isSome = true
    rw [Captures.find?_record_self]
    rfl

/-- As many copies as are wanted are admitted when a copy is admitted behind all captures that keep
the texts which it needs. -/
theorem exists_copies {body : Emission} {before : Captures}
    (h : ∀ captures : Captures, captures.Keeps before →
      ∃ text after, body captures text after ∧ after.Keeps captures) (count : Nat) :
    ∃ text after, body.copies count before text after ∧ after.Keeps before := by
  suffices hall : ∀ captures : Captures, captures.Keeps before →
      ∃ text after, body.copies count captures text after ∧ after.Keeps captures from
    hall before (.refl before)
  induction count with
  | zero => exact fun captures _ ↦ ⟨[], captures, ⟨rfl, rfl⟩, .refl captures⟩
  | succ count ih =>
    intro captures hkeeps
    obtain ⟨left, middle, hleft, hmiddle⟩ := h captures hkeeps
    obtain ⟨right, after, hright, hafter⟩ := ih middle (hmiddle.trans hkeeps)
    exact ⟨left ++ right, after, ⟨left, middle, right, hleft, hright, rfl⟩,
      hafter.trans hmiddle⟩

/-- Parts in a row admit something, and no group loses its text, when this holds of each part whose
backreferences have texts. -/
theorem exists_admitsAll {parts : List Regex}
    (h : ∀ part ∈ parts, ∀ {before : Captures}, part.Everywhere (HasText before) →
      ∃ text after, part.Admits before text after ∧ after.Keeps before)
    {before : Captures} (htext : ∀ part ∈ parts, part.Everywhere (HasText before)) :
    ∃ text after, AdmitsAll parts before text after ∧ after.Keeps before := by
  induction parts generalizing before with
  | nil => exact ⟨[], before, ⟨rfl, rfl⟩, .refl before⟩
  | cons part parts ih =>
    obtain ⟨hpart, hparts⟩ := List.forall_mem_cons.1 htext
    obtain ⟨left, middle, hleft, hmiddle⟩ := h part (by simp) hpart
    obtain ⟨right, after, hright, hafter⟩ :=
      ih (fun other hother ↦ h other (List.mem_cons_of_mem _ hother))
      fun other hother ↦ (hparts other hother).keeps hmiddle
    exact ⟨left ++ right, after, ⟨left, middle, right, hleft, hright, rfl⟩,
      hafter.trans hmiddle⟩

/-- An assertion admits the empty text when its body is admitted, or has to be absent. -/
theorem exists_asserting {body : Emission} {before : Captures} {negated : Bool}
    (h : negated = false → ∃ text after, body before text after) :
    ∃ text after, body.asserting negated before text after ∧ after.Keeps before := by
  refine ⟨[], before, ⟨?_, rfl, rfl⟩, .refl before⟩
  cases negated with
  | true => exact .inl rfl
  | false => exact .inr ⟨before, h rfl⟩

/-- A possible tree whose backreferences have texts admits something, and no group loses its
text. -/
theorem Possible.exists_admits_from {tree : Regex} (h : tree.Possible) {before : Captures}
    (htext : tree.Everywhere (HasText before)) :
    ∃ text after, tree.Admits before text after ∧ after.Keeps before := by
  induction tree generalizing before with
  | empty => exact ⟨[], before, ⟨rfl, rfl⟩, .refl before⟩
  | literal text ignoreCase => exact ⟨text, before, ⟨rfl, rfl⟩, .refl before⟩
  | set members =>
    obtain ⟨c, hc⟩ := CharSet.isEmpty_eq_false_iff.1 h
    exact ⟨[c], before, ⟨c, hc, rfl, rfl⟩, .refl before⟩
  | sequence parts ih =>
    obtain ⟨-, hparts⟩ := possible_sequence.1 h
    exact exists_admitsAll (fun part hpart _ ↦ ih part hpart (hparts part hpart))
      (everywhere_sequence.1 htext).2
  | choice options ih =>
    obtain ⟨hsome, hoptions⟩ := possible_choice.1 h
    replace htext := (everywhere_choice.1 htext).2
    cases options with
    | nil => exact absurd rfl hsome
    | cons option options =>
      obtain ⟨text, after, hadmits, hkeeps⟩ :=
        ih option (by simp) (hoptions option (by simp)) (htext option (by simp))
      exact ⟨text, after, .inl hadmits, hkeeps⟩
  | repetition body least most mode ih =>
    obtain ⟨hallows, hbody⟩ := h
    replace htext := (everywhere_repetition.1 htext).2
    obtain ⟨text, after, hcopies, hkeeps⟩ :=
      exists_copies (fun captures hkeeps ↦ ih hbody (htext.keeps hkeeps)) least
    exact ⟨text, after, ⟨least, Nat.le_refl least, hallows, hcopies⟩, hkeeps⟩
  | group kind body ih =>
    replace htext := (everywhere_group.1 htext).2
    have hassert (negated : Bool) (h : negated = false → body.Possible) :
        ∃ text after, body.Admits.asserting negated before text after ∧ after.Keeps before :=
      exists_asserting fun hnegated ↦
        (ih (h hnegated) htext).imp fun _ ↦ .imp fun _ hadmits ↦ hadmits.1
    cases kind with
    | capturing number name =>
      obtain ⟨text, inner, hadmits, hkeeps⟩ := ih (h rfl) htext
      exact ⟨text, _, ⟨inner, hadmits, rfl⟩, fun id hfound ↦
        Captures.isSome_find?_recordAll (hkeeps id hfound)⟩
    | plain => exact ih (h rfl) htext
    | atomic => exact ih (h rfl) htext
    | lookahead negated => exact hassert negated h
    | lookbehind negated => exact hassert negated h
  | backref id extent =>
    obtain ⟨text, hfind⟩ := Option.isSome_iff_exists.1 htext
    exact ⟨text, before, ⟨hfind, rfl⟩, .refl before⟩

/-- A possible tree admits something behind some captures. -/
theorem Possible.exists_admits {tree : Regex} (h : tree.Possible) :
    ∃ before text after, tree.Admits before text after := by
  obtain ⟨before, -, htext⟩ := exists_hasText tree []
  obtain ⟨text, after, hadmits, -⟩ := h.exists_admits_from htext
  exact ⟨before, text, after, hadmits⟩

/-- Pruning gives up on a tree exactly when the tree admits nothing behind any captures. What is
left of another tree admits the same texts with the same captures, needs no member of an empty set,
and its lengths lie within those of the tree. -/
theorem prune_exact {tree : Regex} (h : tree.WellFormed) :
    (tree.prune = none ↔ ∀ before text after, ¬ tree.Admits before text after) ∧
      ∀ pruned, tree.prune = some pruned →
        (∀ before text after, pruned.Admits before text after ↔
          tree.Admits before text after) ∧ pruned.Possible ∧
          tree.minLength ≤ pruned.minLength ∧ pruned.maxLength ≤ tree.maxLength := by
  have hadmits := admits_prune h
  refine ⟨⟨fun hprune before text after ↦ ?_, fun hnever ↦ ?_⟩,
    fun pruned hprune ↦ ?_⟩
  · rw [← hadmits, hprune]
    exact id
  · cases hprune : tree.prune with
    | none => rfl
    | some pruned =>
      obtain ⟨before, text, after, hpruned⟩ := (possible_of_prune hprune).exists_admits
      rw [hprune] at hadmits
      have hsame : pruned.Admits = tree.Admits := hadmits
      exact absurd (hsame ▸ hpruned) (hnever before text after)
  · rw [hprune] at hadmits
    have hsame : pruned.Admits = tree.Admits := hadmits
    have hwithin := (stable_isBuilt.prune h hprune).2
    exact ⟨fun before text after ↦ by rw [hsame], possible_of_prune hprune, hwithin.floor_le,
      hwithin.ceiling_le⟩

/-- A tree with an impossible option, copies of an impossible body, an assertion that holds because
its body is impossible, and one that may hold. -/
def partlyImpossible : Regex :=
  .sequence
    [.group (.capturing 1 none) (.choice [.literal ['a', 'b'] false, .set .empty]),
     .repetition (.set .empty) 0 .unbounded .greedy,
     .group (.lookahead true) (.set .empty),
     .group (.lookbehind false) (.choice [.set .empty, .backref (.index 2) .zero]),
     .backref (.index 1) (.between 1 (.ofExact 2))]

/-- The parts that are removed from the tree change none of its texts. -/
theorem prune_partlyImpossible : partlyImpossible.WellFormed ∧
    partlyImpossible.prune = some (.sequence
      [.group (.capturing 1 none) (.choice [.literal ['a', 'b'] false]),
       .empty,
       .group (.lookahead true) (.set .empty),
       .group (.lookbehind false) (.choice [.backref (.index 2) .zero]),
       .backref (.index 1) (.between 1 (.ofExact 2))]) ∧
    (partlyImpossible.prune = none ↔
      ∀ before text after, ¬ partlyImpossible.Admits before text after) ∧
    ∀ pruned, partlyImpossible.prune = some pruned →
      (∀ before text after, pruned.Admits before text after ↔
        partlyImpossible.Admits before text after) ∧
      pruned.Possible ∧ partlyImpossible.minLength ≤ pruned.minLength ∧
      pruned.maxLength ≤ partlyImpossible.maxLength := by
  have hwell : partlyImpossible.WellFormed := by
    simp [partlyImpossible, Size.zero_lt_modulus]
  exact ⟨hwell, by decide, prune_exact hwell⟩

end Regex

end Exemplar
