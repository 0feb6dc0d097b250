import Exemplar.Proofs.Generation.Safety
import Exemplar.Proofs.Grammar.Reading

/-!
# Certain captures are captured

`ReferenceCheck.certain` is sound: behind every string of a tree, the groups that it computes have
a text under their numbers and under their names, and no backreference in the tree lacks one
(`certain_sound`). This is said of the tree without its impossible parts, because the check comes
first: an impossible option is checked too, and the groups that are certain behind a choice are
those behind every option, so dropping one loses nothing. A tree that passes the check is therefore
safe (`Regex.safe_of_parse`).
-/

namespace Exemplar

/-- A negated assertion is an assertion. -/
theorem GroupKind.isLookaround_of_isNegated {kind : GroupKind} (h : kind.isNegated = true) :
    kind.isLookaround = true := by
  cases kind with
  | lookahead negated => rfl
  | lookbehind negated => rfl
  | capturing number name => cases h
  | plain => cases h
  | atomic => cases h

namespace Captures

/-- What a group captured may be replaced but is not lost when another text is recorded. -/
theorem isSome_find?_record {captures : Captures} {id other : GroupId} {text : List Char}
    (h : (captures.find? other).isSome = true) :
    ((captures.record id text).find? other).isSome = true := by
  by_cases hid : other = id
  · subst hid
    rw [find?_record_self]
    rfl
  · rwa [find?_record_of_ne hid]

/-- What a group captured is not lost when a text is recorded for several groups. -/
theorem isSome_find?_recordAll {captures : Captures} {ids : List GroupId} {other : GroupId}
    {text : List Char} (h : (captures.find? other).isSome = true) :
    ((captures.recordAll ids text).find? other).isSome = true := by
  induction ids generalizing captures with
  | nil => exact h
  | cons id ids ih => exact ih (isSome_find?_record h)

/-- Every group for which a text is recorded has one. -/
theorem isSome_find?_recordAll_of_mem {captures : Captures} {ids : List GroupId} {id : GroupId}
    {text : List Char} (h : id ∈ ids) :
    ((captures.recordAll ids text).find? id).isSome = true := by
  induction ids generalizing captures with
  | nil => cases h
  | cons head ids ih =>
    rcases List.mem_cons.1 h with rfl | h
    · show (((captures.record id text).recordAll ids text).find? id).isSome = true
      refine isSome_find?_recordAll ?_
      rw [find?_record_self]
      rfl
    · exact ih h

/-- `later.Keeps captures` says that no group has lost its text. -/
def Keeps (later captures : Captures) : Prop :=
  ∀ id, (captures.find? id).isSome = true → (later.find? id).isSome = true

/-- Nothing is lost when nothing happens. -/
theorem Keeps.refl (captures : Captures) : captures.Keeps captures :=
  fun _ h ↦ h

/-- Nothing is lost when nothing is lost twice. -/
theorem Keeps.trans {latest later captures : Captures} (h : latest.Keeps later)
    (hlater : later.Keeps captures) : latest.Keeps captures :=
  fun id hfound ↦ h id (hlater id hfound)

end Captures

namespace Regex

/-- A number of copies loses no text when the body loses none. -/
theorem keeps_of_copies {body : Emission}
    (h : ∀ ⦃before text after⦄, body before text after → after.Keeps before) {count : Nat}
    {before after : Captures} {text : List Char} (hcopies : body.copies count before text after) :
    after.Keeps before := by
  induction count generalizing before text with
  | zero => exact hcopies.2 ▸ .refl _
  | succ count ih =>
    obtain ⟨left, middle, right, hleft, hright, rfl⟩ := hcopies
    exact (ih hright).trans (h hleft)

/-- Emitting a text loses no text of a group. -/
theorem Emits.keeps {tree : Regex} {before after : Captures} {text : List Char}
    (h : tree.Emits before text after) : after.Keeps before := by
  induction tree generalizing before text after with
  | empty => exact h.2 ▸ .refl _
  | literal text ignoreCase => exact h.2 ▸ .refl _
  | set members =>
    obtain ⟨c, -, -, rfl⟩ := h
    exact .refl _
  | sequence parts ih =>
    rw [Emits] at h
    induction parts generalizing before text with
    | nil => exact h.2 ▸ .refl _
    | cons part parts ihparts =>
      obtain ⟨left, middle, right, hleft, hright, rfl⟩ := h
      have hrest := ihparts (fun other hother ↦ ih other (List.mem_cons_of_mem _ hother)) hright
      exact hrest.trans (ih part (by simp) hleft)
  | choice options ih =>
    obtain ⟨option, hoption, hemits⟩ := emitsAny_iff.1 h
    exact ih option hoption hemits
  | repetition body least most mode ih =>
    obtain ⟨count, -, -, hcopies⟩ := h
    exact keeps_of_copies (fun _ _ _ ↦ ih) hcopies
  | group kind body ih =>
    cases kind with
    | capturing number name =>
      obtain ⟨inner, hbody, rfl⟩ := h
      exact fun id hfound ↦ Captures.isSome_find?_recordAll (ih hbody id hfound)
    | plain => exact ih h
    | atomic => exact ih h
    | lookahead negated => exact h.2 ▸ .refl _
    | lookbehind negated => exact h.2 ▸ .refl _
  | backref id extent => exact h.2 ▸ .refl _

end Regex

namespace Groups

/-- The groups of the given numbers have a text, under every reference that leads to them. -/
def Covers (groups : Groups) (captured : List Nat) (captures : Captures) : Prop :=
  ∀ ⦃id number⦄, groups.number? id = some number → number ∈ captured →
    (captures.find? id).isSome = true

namespace Covers

variable {groups : Groups} {captured captured' : List Nat} {captures later : Captures}

/-- Fewer groups have a text too. -/
theorem subset (h : groups.Covers captured captures)
    (hsubset : ∀ number ∈ captured', number ∈ captured) : groups.Covers captured' captures :=
  fun _ _ hid hnumber ↦ h hid (hsubset _ hnumber)

/-- The groups have a text later too. -/
theorem keeps (h : groups.Covers captured captures) (hkeeps : later.Keeps captures) :
    groups.Covers captured later :=
  fun id _ hid hnumber ↦ hkeeps id (h hid hnumber)

/-- A group that captures has a text, under its number and under its name. -/
theorem recordAll (h : groups.Covers captured captures) {number : Nat} {name : Option String}
    (hnames : groups.Names number name) (text : List Char) :
    groups.Covers (number :: captured) (captures.recordAll (groupIds number name) text) := by
  intro id found hid hfound
  rcases List.mem_cons.1 hfound with rfl | hfound
  · exact Captures.isSome_find?_recordAll_of_mem (hnames.number?_eq_iff.1 hid)
  · exact Captures.isSome_find?_recordAll (h hid hfound)

end Covers

end Groups

namespace ReferenceCheck

/-- A check in two parts succeeds when the first part does and the second one does from there. -/
theorem bind_run_eq_ok {α β : Type} {step : ReferenceCheck α} {next : α → ReferenceCheck β}
    {before after : List Nat} {value : β} :
    (step >>= next).run before = .ok (value, after) ↔
      ∃ result middle, step.run before = .ok (result, middle) ∧
        (next result).run middle = .ok (value, after) := by
  rw [StateT.run_bind]
  cases step.run before with
  | error located => simp [Bind.bind, Except.bind]
  | ok outcome =>
    constructor
    · exact fun h ↦ ⟨outcome.1, outcome.2, rfl, h⟩
    · rintro ⟨result, middle, ⟨⟩, h⟩
      exact h

/-- A check that finds nothing succeeds and stays where it is. -/
theorem pure_run_eq_ok {α : Type} {value result : α} {before after : List Nat} :
    (pure value : ReferenceCheck α).run before = .ok (result, after) ↔
      result = value ∧ after = before := by
  constructor
  · rintro ⟨⟩
    exact ⟨rfl, rfl⟩
  · rintro ⟨rfl, rfl⟩
    rfl

/-- What the check says of a tree: behind captures that cover the groups before it, the tree is
safe, and the captures behind it cover the groups that the check computes. -/
def Sound (groups : Groups) (captured captured' : List Nat) (tree : Regex) : Prop :=
  ∀ ⦃before⦄, groups.Covers captured before →
    tree.Safe before ∧ tree.Emits.Always (groups.Covers captured') before

variable {groups : Groups} {captured captured' : List Nat} {positions positions' : List Nat}

/-- A tree that captures nothing and may not fail leaves certain what was certain. -/
theorem Sound.of_safe {tree : Regex} (h : ∀ before, tree.Safe before) :
    Sound groups captured captured tree :=
  fun before hcovers ↦ ⟨h before, fun _ _ hemits ↦ hcovers.keeps hemits.keeps⟩

/-- Copies of a body are sound: each copy finds certain what was certain before the first, and if
there is a copy, what is certain behind the body is certain behind all of them. -/
theorem Sound.repeated {body : Regex} (h : Sound groups captured captured' body) {least : Nat}
    {most : Bound} (hmost : most.Allows least) (mode : RepetitionMode) :
    Sound groups captured (if least = 0 then captured else captured')
      (body.repeated least most mode) := by
  rw [Regex.repeated, Bound.raise_of_allows hmost]
  intro before hcovers
  refine ⟨fun done _ text middle hcopies ↦ ?_, ?_⟩
  · exact (h (hcovers.keeps (Regex.keeps_of_copies (fun _ _ _ ↦ Regex.Emits.keeps) hcopies))).1
  · rintro text after ⟨count, hcount, -, hcopies⟩
    split
    · exact hcovers.keeps (Regex.keeps_of_copies (fun _ _ _ ↦ Regex.Emits.keeps) hcopies)
    · cases count with
      | zero => omega
      | succ count =>
        obtain ⟨left, middle, right, hleft, hright, rfl⟩ := hcopies
        have hmiddle := (h hcovers).2 hleft
        exact hmiddle.keeps (Regex.keeps_of_copies (fun _ _ _ ↦ Regex.Emits.keeps) hright)

/-- The options of a choice that are possible are sound, and what is certain behind the choice is
certain behind each of them. -/
theorem certainOfAny_sound {options : List Regex}
    (ih : ∀ option ∈ options, ∀ {captured captured' positions positions' pruned},
      (certain groups option captured).run positions = .ok (captured', positions') →
      option.prune = some pruned → Sound groups captured captured' pruned)
    (h : (certainOfAny groups options captured).run positions = .ok (captured', positions'))
    {pruned : Regex} (hpruned : pruned ∈ options.filterMap Regex.prune) :
    Sound groups captured captured' pruned := by
  induction options generalizing captured' positions positions' with
  | nil => simp at hpruned
  | cons option options ihoptions =>
    obtain ⟨original, horiginal, hprune⟩ := List.mem_filterMap.1 hpruned
    cases options with
    | nil =>
      rw [List.mem_singleton.1 horiginal] at hprune
      exact ih option (by simp) h hprune
    | cons other options =>
      obtain ⟨first, middle, hfirst, h⟩ := bind_run_eq_ok.1 h
      obtain ⟨rest, last, hrest, h⟩ := bind_run_eq_ok.1 h
      obtain ⟨rfl, rfl⟩ := pure_run_eq_ok.1 h
      -- Behind the choice only those groups are certain that are certain behind the first option
      -- and behind the others.
      intro before hcovers
      rcases List.mem_cons.1 horiginal with rfl | horiginal
      · obtain ⟨hsafe, hafter⟩ := ih original (by simp) hfirst hprune hcovers
        refine ⟨hsafe, hafter.mono le_rfl fun after hcovered ↦ hcovered.subset ?_⟩
        exact fun number hnumber ↦ (List.mem_filter.1 hnumber).1
      · have hlater :=
          ihoptions (fun option hoption ↦ ih option (List.mem_cons_of_mem _ hoption))
          hrest (List.mem_filterMap.2 ⟨original, horiginal, hprune⟩)
        obtain ⟨hsafe, hafter⟩ := hlater hcovers
        refine ⟨hsafe, hafter.mono le_rfl fun after hcovered ↦ hcovered.subset ?_⟩
        intro number hnumber
        simpa using (List.mem_filter.1 hnumber).2

/-- The parts of a sequence are sound one after the other. -/
theorem certainAfter_sound {parts pruned : List Regex}
    (ih : ∀ part ∈ parts, ∀ {captured captured' positions positions' pruned},
      (certain groups part captured).run positions = .ok (captured', positions') →
      part.prune = some pruned → Sound groups captured captured' pruned)
    (h : (certainAfter groups parts captured).run positions = .ok (captured', positions'))
    (hprune : Regex.pruneEach parts = some pruned) :
    Sound groups captured captured' (.inSequence pruned) := by
  suffices hall : ∀ ⦃before⦄, groups.Covers captured before →
      Regex.SafeAll pruned before ∧
        (Regex.EmitsAll pruned).Always (groups.Covers captured') before by
    intro before hcovers
    rw [Regex.emits_inSequence]
    refine ⟨?_, (hall hcovers).2⟩
    cases pruned with
    | nil => exact trivial
    | cons part parts => exact (hall hcovers).1
  induction parts generalizing captured positions pruned with
  | nil =>
    cases hprune
    obtain ⟨rfl, -⟩ := pure_run_eq_ok.1 h
    exact fun before hcovers ↦ ⟨trivial, (Emission.always_ofText []).2 hcovers⟩
  | cons part parts ihparts =>
    obtain ⟨middle, between, hfirst, h⟩ := bind_run_eq_ok.1 h
    obtain ⟨first, rest, hpart, hparts, rfl⟩ := Regex.pruneEach_cons_eq_some.1 hprune
    have hrest := ihparts (fun other hother ↦ ih other (List.mem_cons_of_mem _ hother)) h hparts
    intro before hcovers
    obtain ⟨hsafe, hafter⟩ := ih part (by simp) hfirst hpart hcovers
    refine ⟨⟨hsafe, hafter.mono le_rfl fun after hcovered ↦ (hrest hcovered).1⟩, ?_⟩
    exact Emission.always_andThen.2 (hafter.mono le_rfl fun after hcovered ↦ (hrest hcovered).2)

/-- The check of a reference takes its position, and passes it when its group has captured. -/
theorem certain_backref_run (id : GroupId) (extent : Extent) (captured positions : List Nat) :
    (certain groups (.backref id extent) captured).run positions =
      if (groups.number? id).any (captured.contains ·) then .ok (captured, positions.drop 1)
      else .error ⟨.uncertainGroup id, positions.headD 0⟩ := by
  unfold certain
  cases positions <;> split <;> rfl

/-- The check of an assertion passes its references, and leaves certain what was certain. -/
theorem certain_assertion_run {kind : GroupKind} (hkind : kind.isLookaround = true) (body : Regex)
    (captured positions : List Nat) :
    (certain groups (.group kind body) captured).run positions =
      .ok (captured, positions.drop body.referenceCount) := by
  cases kind with
  | lookahead negated => rfl
  | lookbehind negated => rfl
  | capturing number name => cases hkind
  | plain => cases hkind
  | atomic => cases hkind

/-- The check lets a reference pass only when its group is among those that are certain. -/
theorem Sound.backref {id : GroupId} {extent : Extent}
    (h : (certain groups (.backref id extent) captured).run positions =
      .ok (captured', positions')) :
    Sound groups captured captured' (.backref id extent) := by
  rw [certain_backref_run] at h
  split at h
  · rename_i hcaptured
    cases h
    obtain ⟨number, hnumber, hmem⟩ := (Option.any_eq_true ..).1 hcaptured
    intro before hcovers
    have hsafe : (Regex.backref id extent).Safe before :=
      hcovers hnumber (List.contains_iff_mem.1 hmem)
    exact ⟨hsafe, fun _ _ hemits ↦ hcovers.keeps hemits.keeps⟩
  · cases h

/-- An assertion is written as nothing, whatever is left of its body. -/
theorem Sound.assertion {kind : GroupKind} (hkind : kind.isLookaround = true) (body : Regex) :
    Sound groups captured captured (.group kind body) := by
  cases kind with
  | lookahead negated => exact .of_safe fun _ ↦ trivial
  | lookbehind negated => exact .of_safe fun _ ↦ trivial
  | capturing number name => cases hkind
  | plain => cases hkind
  | atomic => cases hkind

/-- Behind a group that captures, the group is certain too. -/
theorem Sound.capturing {number : Nat} {name : Option String} {body : Regex}
    (h : Sound groups captured captured' body) (hnames : groups.Names number name) :
    Sound groups captured (number :: captured') (.group (.capturing number name) body) := by
  intro before hcovers
  obtain ⟨hsafe, hafter⟩ := h hcovers
  refine ⟨hsafe, ?_⟩
  rintro text _ ⟨inner, hemits, rfl⟩
  exact (hafter hemits).recordAll hnames text

/-- The check is sound: without its impossible parts, a tree that passes it is safe behind captures
that cover the groups before it, and covers the groups behind it. -/
theorem certain_sound {tree pruned : Regex} (hfits : tree.Everywhere groups.Fits)
    (h : (certain groups tree captured).run positions = .ok (captured', positions'))
    (hprune : tree.prune = some pruned) : Sound groups captured captured' pruned := by
  induction tree generalizing captured captured' positions positions' pruned with
  | empty =>
    cases hprune
    obtain ⟨rfl, -⟩ := pure_run_eq_ok.1 h
    exact .of_safe fun _ ↦ trivial
  | literal text ignoreCase =>
    cases hprune
    obtain ⟨rfl, -⟩ := pure_run_eq_ok.1 h
    exact .of_safe fun _ ↦ trivial
  | set members =>
    obtain ⟨rfl, -⟩ := pure_run_eq_ok.1 h
    rw [Regex.prune] at hprune
    split at hprune
    · cases hprune
    · rename_i hsome
      cases hprune
      exact .of_safe fun _ ↦ by simpa [Regex.Safe] using hsome
  | sequence parts ih =>
    rw [Regex.everywhere_sequence] at hfits
    obtain ⟨rest, hrest, rfl⟩ := Regex.prune_sequence_eq_some.1 hprune
    exact certainAfter_sound (fun part hpart ↦ ih part hpart (hfits.2 part hpart)) h hrest
  | choice options ih =>
    rw [Regex.everywhere_choice] at hfits
    obtain ⟨-, rfl⟩ := Regex.prune_choice_eq_some.1 hprune
    have heach {pruned : Regex} (hpruned : pruned ∈ options.filterMap Regex.prune) :
        Sound groups captured captured' pruned :=
      certainOfAny_sound (fun option hoption ↦
        ih option hoption (hfits.2 option hoption)) h hpruned
    intro before hcovers
    refine ⟨Regex.safeEach_iff.2 fun option hoption ↦ (heach hoption hcovers).1, ?_⟩
    intro text after hemits
    obtain ⟨option, hoption, hemits⟩ := Regex.emitsAny_iff.1 hemits
    exact (heach hoption hcovers).2 hemits
  | repetition body least most mode ih =>
    rw [Regex.everywhere_repetition] at hfits
    obtain ⟨after, last, hbody, h⟩ := bind_run_eq_ok.1 h
    obtain ⟨rfl, rfl⟩ := pure_run_eq_ok.1 h
    -- A body that may be left out makes nothing certain, so only the groups before it count.
    rcases Regex.prune_repetition_eq_some.1 hprune with ⟨rest, hrest, rfl⟩ | ⟨-, rfl, rfl⟩
    · exact (ih hfits.2 hbody hrest).repeated hfits.1.allows mode
    · rw [if_pos rfl]
      exact .of_safe fun _ ↦ trivial
  | group kind body ih =>
    rw [Regex.everywhere_group] at hfits
    cases hkind : kind.isLookaround with
    | true =>
      rw [certain_assertion_run hkind] at h
      cases h
      rcases Regex.prune_group_eq_some.1 hprune with ⟨-, rfl⟩ | ⟨-, rest, -, rfl⟩
      · exact .assertion hkind body
      · exact .assertion hkind rest
    | false =>
      obtain ⟨rest, hrest, rfl⟩ :
        ∃ rest, body.prune = some rest ∧ pruned = .group kind rest := by
        rcases Regex.prune_group_eq_some.1 hprune with ⟨hnegated, -⟩ | ⟨-, rest, hrest, rfl⟩
        · rw [GroupKind.isLookaround_of_isNegated hnegated] at hkind
          cases hkind
        · exact ⟨rest, hrest, rfl⟩
      cases kind with
      | capturing number name =>
        obtain ⟨after, last, hbody, h⟩ := bind_run_eq_ok.1 h
        obtain ⟨rfl, rfl⟩ := pure_run_eq_ok.1 h
        exact (ih hfits.2 hbody hrest).capturing hfits.1.1
      | plain => exact (ih hfits.2 h hrest : Sound groups captured captured' rest)
      | atomic => exact (ih hfits.2 h hrest : Sound groups captured captured' rest)
      | lookahead negated => cases hkind
      | lookbehind negated => cases hkind
  | backref id extent =>
    cases hprune
    exact .backref h

end ReferenceCheck

/-- The tree of a pattern that is accepted is safe before anything was captured. -/
theorem Regex.safe_of_parse {pattern : List Char} {flags : Flags} {tree : Regex}
    (h : parse pattern flags = .ok tree) : tree.Safe [] := by
  rcases parse_eq_ok h with rfl | ⟨read, groups, hrun, hcheck, hprune⟩
  · cases pattern <;> exact trivial
  · have hread := (Reading.Sound.start pattern flags).run hrun
    unfold Groups.check at hcheck
    cases hcertain : (ReferenceCheck.certain groups read []).run groups.references.reverse with
    | error located => rw [hcertain] at hcheck; cases hcheck
    | ok outcome =>
      exact (ReferenceCheck.certain_sound hread hcertain hprune fun _ _ _ hnumber ↦
        (List.not_mem_nil hnumber).elim).1

end Exemplar
