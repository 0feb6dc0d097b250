import Exemplar.Proofs.Grammar.Effects

/-!
# What reading guarantees of a tree

While a pattern is read, every tree on a level fits the groups read so far, and the groups that are
open have their numbers and names on record but not their extents (`Reading.Sound`). Every effect
of a step keeps this (`Sound.of_effect`), so a tree that was read fits the groups of its pattern
(`Sound.run`).

The same holds when the impossible parts of the tree are removed (`Regex.exists_fits_of_parse`). The
text of a pattern without a language of its own gives a tree that fits any groups.
-/

namespace Exemplar

open Regex (Everywhere)

namespace Level

/-- All trees of a level fit the groups, those of the complete branches and the units of the
current one. -/
structure Fits (level : Level) (groups : Groups) : Prop where
  branches : ∀ branch ∈ level.branches, branch.Everywhere groups.Fits
  units : ∀ unit ∈ level.units, unit.Everywhere groups.Fits

namespace Fits

variable {level : Level} {groups later : Groups}

/-- A level without trees fits. -/
theorem empty (groups : Groups) : Fits {} groups :=
  ⟨by simp, by simp⟩

/-- A level fits later groups too. -/
theorem grows (h : level.Fits groups) (hgrows : groups.Grows later) : level.Fits later where
  branches branch hbranch := (h.branches branch hbranch).mono fun _ hfits ↦ hfits.grows hgrows
  units unit hunit := (h.units unit hunit).mono fun _ hfits ↦ hfits.grows hgrows

/-- A unit that fits may be added. -/
theorem add (h : level.Fits groups) {unit : Regex} (hunit : unit.Everywhere groups.Fits) :
    (level.add unit).Fits groups :=
  ⟨h.branches, List.forall_mem_cons.2 ⟨hunit, h.units⟩⟩

/-- The current branch fits. -/
theorem branch (h : level.Fits groups) : level.branch.Everywhere groups.Fits :=
  groups.stable_fits.inSequence (by simpa using h.units)

/-- Another branch may begin. -/
theorem nextBranch (h : level.Fits groups) : level.nextBranch.Fits groups :=
  ⟨List.forall_mem_cons.2 ⟨h.branch, h.branches⟩, by simp [Level.nextBranch]⟩

/-- The tree of all branches fits. -/
theorem tree (h : level.Fits groups) : level.tree.Everywhere groups.Fits := by
  unfold Level.tree
  split
  · exact h.branch
  · refine groups.stable_fits.anyOf ?_
    intro branch hbranch
    rcases List.mem_cons.1 (List.mem_reverse.1 hbranch) with rfl | hbranch
    · exact h.branch
    · exact h.branches branch hbranch

end Fits

end Level

namespace Frame

/-- The number of the group, if it captures. -/
def number? (frame : Frame) : Option Nat :=
  match frame.kind with
  | .capturing number _ => some number
  | _ => none

/-- A capturing group has its number. -/
theorem number?_eq {frame : Frame} {number : Nat} {name : Option String}
    (h : frame.kind = .capturing number name) : frame.number? = some number := by
  rw [number?, h]

/-- The group of a frame is open: what stands around it fits the groups, and a capturing group has
its number and its name on record but no extent. -/
structure IsOpen (frame : Frame) (groups : Groups) : Prop where
  level : frame.level.Fits groups
  names {number : Nat} {name : Option String} :
    frame.kind = .capturing number name → groups.Names number name
  lookup_closed {number : Nat} : frame.number? = some number → groups.closed.lookup number = none

/-- A group stays open when more becomes known, as long as it is not closed. -/
theorem IsOpen.grows {frame : Frame} {groups later : Groups} (h : frame.IsOpen groups)
    (hgrows : groups.Grows later)
    (hopen : ∀ number, frame.number? = some number →
      later.closed.lookup number = groups.closed.lookup number) : frame.IsOpen later where
  level := h.level.grows hgrows
  names hkind := (h.names hkind).grows hgrows
  lookup_closed hnumber := (hopen _ hnumber).trans (h.lookup_closed hnumber)

end Frame

namespace Reading

/-- A step that leads on goes on after the next character that counts. -/
theorem exists_advance_of_step {reading next : Reading} (h : reading.step = .ok (.more next)) :
    ∃ c rest, (reading.cursor.skip reading.flags.comments).rest = c :: rest ∧
      reading.advance c (reading.cursor.skip reading.flags.comments).position
        ⟨rest, (reading.cursor.skip reading.flags.comments).position + 1⟩ = .ok next := by
  unfold Reading.step at h
  simp only at h
  split at h
  · split at h <;> cases h
  · rename_i c rest hrest
    cases hadvance : reading.advance c (reading.cursor.skip reading.flags.comments).position
        ⟨rest, (reading.cursor.skip reading.flags.comments).position + 1⟩ with
    | error located => rw [hadvance] at h; cases h
    | ok after =>
      rw [hadvance] at h
      cases h
      exact ⟨c, rest, hrest, hadvance⟩

/-- A step that leads on goes on after some character. -/
theorem step_eq_more {reading next : Reading} (h : reading.step = .ok (.more next)) :
    ∃ c start cursor, reading.advance c start cursor = .ok next := by
  obtain ⟨c, rest, -, hadvance⟩ := exists_advance_of_step h
  exact ⟨c, _, _, hadvance⟩

/-- A step that ends the pattern leaves the tree of the outermost level. -/
theorem step_eq_done {reading : Reading} {tree : Regex} {groups : Groups}
    (h : reading.step = .ok (.done tree groups)) :
    reading.frames = [] ∧ tree = reading.level.tree ∧ groups = reading.groups := by
  unfold Reading.step at h
  simp only at h
  split at h
  · split at h
    · rename_i hframes
      cases h
      exact ⟨List.isEmpty_iff.1 hframes, rfl, rfl⟩
    · cases h
  · cases hadvance : reading.advance _ _ _ with
    | error located => rw [hadvance] at h; cases h
    | ok next => rw [hadvance] at h; cases h

/-- What every step keeps holds at the end of a pattern, where no group is open. -/
theorem exists_last_of_run (invariant : Reading → Prop)
    (hadvance : ∀ {reading next : Reading} {c : Char} {start : Nat} {cursor : Cursor},
      invariant reading → reading.advance c start cursor = .ok next → invariant next)
    {reading : Reading} (h : invariant reading) {tree : Regex} {groups : Groups}
    (hrun : reading.run = .ok (tree, groups)) :
    ∃ last, invariant last ∧ last.frames = [] ∧ tree = last.level.tree ∧
      groups = last.groups := by
  fun_induction Reading.run reading with
  | case1 reading located hstep => cases hrun
  | case2 reading tree' groups' hstep =>
    cases hrun
    exact ⟨reading, h, step_eq_done hstep⟩
  | case3 reading next hstep ih =>
    obtain ⟨c, start, cursor, hnext⟩ := step_eq_more hstep
    exact ih (hadvance h hnext) hrun

/-- What holds of a pattern that is being read. The record belongs to groups that were opened, the
trees of the innermost level fit, and the groups around it are open and have different numbers. -/
structure Sound (reading : Reading) : Prop where
  counted : reading.groups.Counted
  level : reading.level.Fits reading.groups
  frames : ∀ frame ∈ reading.frames, frame.IsOpen reading.groups
  distinct : (reading.frames.filterMap Frame.number?).Nodup

namespace Sound

variable {reading next : Reading}

/-- Nothing was read at the start. -/
theorem start (pattern : List Char) (flags : Flags) : (Reading.start pattern flags).Sound where
  counted := ⟨fun hlookup ↦ (by cases hlookup), fun hlookup ↦ (by cases hlookup)⟩
  level := .empty _
  frames := by simp [Reading.start]
  distinct := by simp [Reading.start]

/-- What is known of groups may grow outside the record of groups. -/
theorem withGroups (h : reading.Sound) {groups : Groups}
    (heq : groups.count = reading.groups.count ∧ groups.names = reading.groups.names ∧
      groups.closed = reading.groups.closed) : { reading with groups }.Sound := by
  obtain ⟨hcount, hnames, hclosed⟩ := heq
  have hgrows : reading.groups.Grows groups := .of_eq hcount hnames hclosed
  exact {
    counted := h.counted.of_eq hcount hnames hclosed
    level := h.level.grows hgrows
    frames := fun frame hframe ↦ (h.frames frame hframe).grows hgrows fun _ _ ↦ by rw [hclosed]
    distinct := h.distinct }

/-- A unit that fits may be added. -/
theorem addUnit (h : reading.Sound) {unit : Regex} (hunit : unit.Everywhere reading.groups.Fits)
    (cursor : Cursor) : { reading with cursor, level := reading.level.add unit }.Sound :=
  ⟨h.counted, h.level.add hunit, h.frames, h.distinct⟩

/-- Reading goes on inside a group that captures nothing. -/
theorem enter (h : reading.Sound) {kind : GroupKind}
    (hkind : ∀ number name, kind ≠ .capturing number name) (start : Nat) (cursor : Cursor) :
    (reading.enter kind start cursor).Sound where
  counted := h.counted
  level := .empty _
  frames := List.forall_mem_cons.2
    ⟨⟨h.level, fun heq ↦ absurd heq (hkind _ _), fun hnumber ↦ by
      unfold Frame.number? at hnumber
      split at hnumber
      · exact absurd ‹_› (hkind _ _)
      · cases hnumber⟩, h.frames⟩
  distinct := by
    have hnone : (Frame.mk kind start reading.flags reading.level).number? = none := by
      unfold Frame.number?
      split
      · exact absurd ‹_› (hkind _ _)
      · rfl
    rw [Reading.enter, List.filterMap_cons_none hnone]
    exact h.distinct

/-- Reading goes on inside the next capturing group, which gets a number that no open group has. -/
theorem capture (h : reading.Sound) {name : Option String}
    (hname : ∀ other, name = some other → IsGroupName other) {start : Nat} {kind : GroupKind}
    {groups : Groups} (hopen : reading.groups.openCapture name start = .ok (kind, groups))
    (cursor : Cursor) : ({ reading with groups }.enter kind start cursor).Sound := by
  have hgrows := Groups.Grows.openCapture hopen
  have hsame := Groups.closed_openCapture hopen
  obtain ⟨rfl, hnames, hclosed⟩ := Groups.openCapture_names h.counted hname hopen
  have hframes : ∀ frame ∈ reading.frames, frame.IsOpen groups := fun frame hframe ↦
    (h.frames frame hframe).grows hgrows fun _ _ ↦ by rw [hsame]
  refine ⟨h.counted.openCapture hopen, .empty _, List.forall_mem_cons.2 ⟨?_, hframes⟩, ?_⟩
  · exact ⟨h.level.grows hgrows, fun hkind ↦ by cases hkind; exact hnames,
      fun hnumber ↦ by cases hnumber; exact hclosed⟩
  · refine List.nodup_cons.2 ⟨fun hmem ↦ ?_, h.distinct⟩
    obtain ⟨frame, hframe, hnumber⟩ := List.mem_filterMap.1 hmem
    unfold Frame.number? at hnumber
    split at hnumber
    · rename_i number name' hkind
      cases hnumber
      have := ((h.frames frame hframe).names hkind).opened
      omega
    · cases hnumber

/-- The innermost group may be closed. Its extent goes on record, and no other open group has its
number. -/
theorem close (h : reading.Sound) {frame : Frame} {frames : List Frame}
    (hframes : reading.frames = frame :: frames) :
    { reading with
      flags := frame.flags
      groups := reading.groups.close frame.kind reading.level.tree.extent
      level := frame.level
      frames }.Sound := by
  obtain ⟨hopen, hrest⟩ := List.forall_mem_cons.1 (hframes ▸ h.frames)
  have hdistinct := h.distinct
  rw [hframes] at hdistinct
  have hgrows : reading.groups.Grows (reading.groups.close frame.kind reading.level.tree.extent) :=
    .close _ fun number name hkind ↦ hopen.lookup_closed (Frame.number?_eq hkind)
  -- The other open groups have other numbers, so their extents are as unknown as before.
  have hothers : ∀ other ∈ frames, other.IsOpen
      (reading.groups.close frame.kind reading.level.tree.extent) := by
    refine fun other hother ↦ (hrest other hother).grows hgrows fun number hnumber ↦ ?_
    unfold Groups.close
    split
    · rename_i closing name hkind
      rw [List.filterMap_cons_some (Frame.number?_eq hkind)] at hdistinct
      refine lookup_cons_of_ne (fun heq ↦ (List.nodup_cons.1 hdistinct).1 ?_) _ _
      exact heq ▸ List.mem_filterMap.2 ⟨other, hother, hnumber⟩
    · rfl
  exact {
    counted := h.counted.close _ fun number name hkind ↦ (hopen.names hkind).opened
    level := hopen.level.grows hgrows
    frames := hothers
    distinct := hdistinct.sublist (.filterMap _ (List.sublist_cons_self ..)) }

/-- The innermost group fits when it is closed, if it is bounded where it has to be. -/
theorem fits_group (h : reading.Sound) {frame : Frame} {frames : List Frame}
    (hframes : reading.frames = frame :: frames)
    (hbounded : ¬ (frame.kind.isLookaround = true ∧ reading.level.tree.maxLength = .unbounded)) :
    (Regex.group frame.kind reading.level.tree).Everywhere
      (reading.groups.close frame.kind reading.level.tree.extent).Fits := by
  obtain ⟨hopen, -⟩ := List.forall_mem_cons.1 (hframes ▸ h.frames)
  have hgrows : reading.groups.Grows (reading.groups.close frame.kind reading.level.tree.extent) :=
    .close _ fun number name hkind ↦ hopen.lookup_closed (Frame.number?_eq hkind)
  refine Regex.everywhere_group.2 ⟨?_, h.level.tree.mono fun _ hfits ↦ hfits.grows hgrows⟩
  generalize hkind : frame.kind = kind at hbounded hgrows ⊢
  cases kind with
  | capturing number name =>
    exact ⟨(hopen.names hkind).grows hgrows, _, List.lookup_cons_self, .refl _⟩
  | plain => exact fun hlookaround ↦ nomatch hlookaround
  | atomic => exact fun hlookaround ↦ nomatch hlookaround
  | lookahead negated => exact fun hlookaround hmax ↦ hbounded ⟨hlookaround, hmax⟩
  | lookbehind negated => exact fun hlookaround hmax ↦ hbounded ⟨hlookaround, hmax⟩

/-- Every effect of a step keeps what holds of the pattern. -/
theorem of_effect (h : reading.Sound) {c : Char} {start : Nat}
    (heffect : reading.Effect c start next) :
    next.Sound := by
  cases heffect with
  | unit hplain hunit => exact h.addUnit (hunit.fits (hplain.fits _)) _
  | @reference id number extent unit' cursor hmark hnumber hextent hunit =>
    have hgroups : { reading with groups :=
        { reading.groups with references := start :: reading.groups.references } }.Sound :=
      h.withGroups ⟨rfl, rfl, rfl⟩
    exact hgroups.addUnit (hunit.fits ⟨number, hnumber, hextent⟩) _
  | bracket hmark hunit =>
    exact (h.withGroups (Groups.noteSet_eq ..)).addUnit (hunit.fits (Groups.fits_set ..)) _
  | branch => exact ⟨h.counted, h.level.nextBranch, h.frames, h.distinct⟩
  | @enter kind opening flags cursor hkind =>
    have hinside := h.enter hkind opening cursor
    exact ⟨hinside.counted, hinside.level, hinside.frames, hinside.distinct⟩
  | capture hname hopen => exact h.capture hname hopen _
  | switch => exact ⟨h.counted, h.level, h.frames, h.distinct⟩
  | close hframes hbounded hunit =>
    exact (h.close hframes).addUnit (hunit.fits (h.fits_group hframes hbounded)) _

/-- Whatever is read next keeps what holds of the pattern. -/
theorem advance (h : reading.Sound) {c : Char} {start : Nat} {cursor : Cursor}
    (hadvance : reading.advance c start cursor = .ok next) : next.Sound :=
  h.of_effect (effect_of_advance hadvance)

/-- A tree that was read to its end fits the groups of its pattern. -/
theorem run (h : reading.Sound) {tree : Regex} {groups : Groups}
    (hrun : reading.run = .ok (tree, groups)) : tree.Everywhere groups.Fits := by
  obtain ⟨last, hlast, -, rfl, rfl⟩ :=
    exists_last_of_run Sound (fun h hadvance ↦ advance h hadvance) h hrun
  exact hlast.level.tree

end Sound

end Reading

namespace Regex

/-- A pattern that is accepted is plain text, or it was read, its references were found certain and
its impossible parts were removed. -/
theorem parse_eq_ok {pattern : List Char} {flags : Flags} {tree : Regex}
    (h : parse pattern flags = .ok tree) :
    tree = .ofText pattern flags.ignoreCase ∨
      ∃ read groups, (Reading.start pattern flags).run = .ok (read, groups) ∧
        groups.check read = .ok () ∧ read.prune = some tree := by
  unfold parse at h
  split at h
  · cases h
    exact .inl rfl
  · refine .inr ?_
    cases hrun : (Reading.start pattern flags).run with
    | error located => rw [hrun] at h; cases h
    | ok outcome =>
      obtain ⟨read, groups⟩ := outcome
      simp only [hrun, bind, Except.bind] at h
      cases hcheck : groups.check read with
      | error located => rw [hcheck] at h; cases h
      | ok result =>
        rw [hcheck] at h
        cases hprune : read.prune with
        | none => rw [hprune] at h; cases h
        | some pruned =>
          rw [hprune] at h
          cases h
          exact ⟨read, groups, rfl, hcheck, hprune⟩

/-- A pattern is refused while it is read, by the check of its references, or because it is
impossible. -/
theorem parse_eq_error {pattern : List Char} {flags : Flags} {located : Located}
    (h : parse pattern flags = .error located) :
    (Reading.start pattern flags).run = .error located ∨
      ∃ tree groups, (Reading.start pattern flags).run = .ok (tree, groups) ∧
        (groups.check tree = .error located ∨
          tree.prune = none ∧ located = ⟨.impossible, groups.firstEmptySet.getD 0⟩) := by
  unfold parse at h
  split at h
  · cases h
  · cases hrun : (Reading.start pattern flags).run with
    | error located' =>
      rw [hrun] at h
      cases h
      exact .inl rfl
    | ok outcome =>
      obtain ⟨tree, groups⟩ := outcome
      refine .inr ⟨tree, groups, rfl, ?_⟩
      rw [hrun] at h
      cases hcheck : groups.check tree with
      | error located' =>
        simp only [bind, Except.bind, hcheck] at h
        cases h
        exact .inl rfl
      | ok =>
        simp only [bind, Except.bind, hcheck] at h
        split at h
        · cases h
        · cases h
          exact .inr ⟨by assumption, rfl⟩

/-- The tree of a pattern that is accepted fits the groups of the pattern. -/
theorem exists_fits_of_parse {pattern : List Char} {flags : Flags} {tree : Regex}
    (h : parse pattern flags = .ok tree) : ∃ groups : Groups, tree.Everywhere groups.Fits := by
  rcases parse_eq_ok h with rfl | ⟨read, groups, hrun, -, hprune⟩
  · exact ⟨{}, Groups.fits_ofText ..⟩
  · have hread := (Reading.Sound.start pattern flags).run hrun
    exact ⟨groups, (groups.stable_fits.prune hread hprune).1⟩

end Regex

end Exemplar
