import Exemplar.Proofs.Grammar.Moves

/-!
# Groups are numbered as they begin

The capturing groups of a pattern are numbered from one on, in the order of their opening
parentheses. The numbers of the groups that were read or are open are therefore the numbers up to
the count of groups, in their order (`Reading.CountsGroups`). Every step keeps this
(`Reading.CountsGroups.of_moves`), so the groups of a tree that was read have the numbers from one
on (`groupNumbers_of_run`), and those of a tree that was pruned have increasing numbers
(`groupNumbers_pairwise_of_parse`).
-/

namespace Exemplar

namespace Level

/-- The marks in the branches and units of a level, in the order of the text. -/
def marks (level : Level) : List Mark :=
  level.branches.reverse.flatMap Regex.marks ++ level.units.reverse.flatMap Regex.marks

/-- The marks of another unit stand behind the others. -/
theorem marks_add (level : Level) (unit : Regex) :
    (level.add unit).marks = level.marks ++ unit.marks := by
  simp [marks, add]

/-- Another branch adds no marks. -/
theorem marks_nextBranch (level : Level) : level.nextBranch.marks = level.marks := by
  simp [marks, nextBranch, branch, Regex.marks_inSequence]

/-- The tree of a level has the marks of the level. -/
theorem marks_tree (level : Level) : level.tree.marks = level.marks := by
  unfold tree
  split
  · rename_i hbranches
    simp [marks, branch, hbranches, Regex.marks_inSequence]
  · simp [marks, branch, Regex.marks_inSequence, Regex.marks_anyOf]

end Level

/-- The marks before an open group, and the one at its start. -/
def Frame.marks (frame : Frame) : List Mark :=
  frame.level.marks ++ frame.kind.opening

/-- The next group gets the next number. -/
theorem Groups.numbers_openCapture {groups later : Groups} {name : Option String} {start : Nat}
    {kind : GroupKind} (h : groups.openCapture name start = .ok (kind, later)) :
    kind.numbers = [groups.count + 1] ∧ later.count = groups.count + 1 := by
  unfold Groups.openCapture at h
  cases name with
  | none =>
    cases h
    exact ⟨rfl, rfl⟩
  | some name =>
    simp only at h
    split at h
    · cases h
    · cases h
      exact ⟨rfl, rfl⟩

/-- Closing a group does not change how many were opened. -/
theorem Groups.count_close (groups : Groups) (kind : GroupKind) (extent : Extent) :
    (groups.close kind extent).count = groups.count := by
  unfold Groups.close
  split <;> rfl

namespace Reading

/-- The marks that were read, in the order of the text. -/
def marks (reading : Reading) : List Mark :=
  reading.frames.reverse.flatMap Frame.marks ++ reading.level.marks

/-- The groups have the numbers from one on, in the order in which they begin. -/
def CountsGroups (reading : Reading) : Prop :=
  reading.marks.filterMap Mark.opened? = List.range' 1 reading.groups.count

variable {reading next : Reading}

/-- The mark of a group that is opened stands behind the others. -/
theorem marks_enter (reading : Reading) (kind : GroupKind) (start : Nat) (cursor : Cursor) :
    (reading.enter kind start cursor).marks = reading.marks ++ kind.opening := by
  have hlevel : ({} : Level).marks = [] := rfl
  simp [marks, enter, Frame.marks, hlevel]

/-- The marks of a unit that is added stand behind the others. -/
theorem marks_addUnit (reading : Reading) (unit : Regex) (groups : Groups) (cursor : Cursor) :
    ({ reading with cursor, groups, level := reading.level.add unit } : Reading).marks =
      reading.marks ++ unit.marks := by
  simp [marks, Level.marks_add]

/-- The mark of a group that is closed stands behind the others. -/
theorem marks_closeGroup {frame : Frame} {frames : List Frame}
    (hframes : reading.frames = frame :: frames) {unit : Regex}
    (hunit : (Regex.group frame.kind reading.level.tree).Repeats unit) (flags : Flags)
    (groups : Groups) (cursor : Cursor) :
    (Reading.mk cursor flags groups (frame.level.add unit) frames).marks =
      reading.marks ++ frame.kind.closing := by
  simp [marks, hframes, Level.marks_add, hunit.marks_eq, Regex.marks_group, Level.marks_tree,
    Frame.marks]

/-- Whatever a step does, the groups have the numbers from one on. -/
theorem CountsGroups.of_moves (h : reading.CountsGroups) (hmoves : reading.Moves next) :
    next.CountsGroups := by
  unfold CountsGroups at h ⊢
  cases hmoves with
  | @add unit unit' groups cursor hgroups hunit hcount hnames hclosed =>
    rw [marks_addUnit, List.filterMap_append, hunit.marks_eq, Regex.filterMap_opened_marks, hgroups,
      List.append_nil, hcount]
    exact h
  | branch =>
    show (_ ++ reading.level.nextBranch.marks).filterMap _ = _
    rw [Level.marks_nextBranch]
    exact h
  | @enter kind start flags cursor hkind =>
    show (reading.enter kind start cursor).marks.filterMap _ = _
    rw [marks_enter, List.filterMap_append, GroupKind.filterMap_opening, hkind, List.append_nil]
    exact h
  | @capture name kind groups start cursor hopen =>
    obtain ⟨hkind, hcount⟩ := Groups.numbers_openCapture hopen
    rw [marks_enter, List.filterMap_append, GroupKind.filterMap_opening, hkind]
    show _ = List.range' 1 groups.count
    rw [hcount, List.range'_1_concat, Nat.add_comm 1]
    exact congrArg (· ++ _) h
  | switch => exact h
  | @close frame frames unit' cursor hframes hunit =>
    rw [marks_closeGroup hframes hunit, List.filterMap_append, GroupKind.filterMap_closing,
      List.append_nil]
    show _ = List.range' 1 (reading.groups.close ..).count
    rw [Groups.count_close]
    exact h

/-- When a pattern was read to its end, the marks that were read are those of its tree. -/
theorem marks_of_frames (hframes : reading.frames = []) :
    reading.marks = reading.level.tree.marks := by
  rw [marks, hframes, Level.marks_tree]
  rfl

/-- The groups of a tree that was read have the numbers from one on, in the order in which they
begin. -/
theorem groupNumbers_of_run {pattern : List Char} {flags : Flags} {tree : Regex} {groups : Groups}
    (hrun : (Reading.start pattern flags).run = .ok (tree, groups)) :
    tree.groupNumbers = List.range' 1 groups.count := by
  have hstart : (Reading.start pattern flags).CountsGroups := rfl
  obtain ⟨last, hlast, hframes, rfl, rfl⟩ := exists_last_of_run CountsGroups
    (fun h hadvance ↦ h.of_moves (moves_of_advance hadvance)) hstart hrun
  rw [CountsGroups, marks_of_frames hframes, Regex.filterMap_opened_marks] at hlast
  exact hlast

end Reading

/-- The groups of a tree that was read and pruned have increasing numbers. -/
theorem Regex.groupNumbers_pairwise_of_parse {pattern : List Char} {flags : Flags} {tree : Regex}
    (h : parse pattern flags = .ok tree) : tree.groupNumbers.Pairwise (· < ·) := by
  rcases parse_eq_ok h with rfl | ⟨read, groups, hrun, -, hprune⟩
  · cases pattern <;> exact .nil
  · have hwell := groups.stable_fits.wellFormed ((Reading.Sound.start pattern flags).run hrun)
    have hmarks := summarize_prune_le Mark.lawful_summary hwell hprune
    have hnumbers : tree.groupNumbers.Sublist read.groupNumbers := by
      rw [← filterMap_opened_marks, ← filterMap_opened_marks]
      exact hmarks.filterMap _
    rw [Reading.groupNumbers_of_run hrun] at hnumbers
    exact List.Pairwise.sublist hnumbers List.pairwise_lt_range'

end Exemplar
