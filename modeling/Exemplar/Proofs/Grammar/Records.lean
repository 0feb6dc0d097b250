import Exemplar.Proofs.Grammar.Moves

/-!
# Every group is on record once

Reading puts the extent of every capturing group on record when the group is closed. So the numbers
and the extents of the groups in the trees that were read are, up to their order, those on record,
and no number is on record twice (`Reading.Recorded`). Every step keeps this (`Recorded.of_moves`),
and in the tree of a whole pattern each group has exactly the extent on record
(`lookup_closed_of_run`).
-/

namespace Exemplar

/-- An entry is found under its key when no other entry has that key. -/
theorem lookup_eq_some_of_mem {α β : Type} [BEq α] [LawfulBEq α] {key : α} {value : β}
    {entries : List (α × β)} (hdistinct : (entries.map Prod.fst).Nodup)
    (h : (key, value) ∈ entries) : entries.lookup key = some value := by
  induction entries with
  | nil => cases h
  | cons entry entries ih =>
    obtain ⟨hnew, hdistinct⟩ := List.nodup_cons.1 hdistinct
    rcases List.mem_cons.1 h with rfl | h
    · exact List.lookup_cons_self
    · have hne : key ≠ entry.1 := by
        rintro rfl
        exact hnew (List.mem_map.2 ⟨_, h, rfl⟩)
      rw [lookup_cons_of_ne hne]
      exact ih hdistinct h

namespace Regex

mutual
/-- The number of every capturing group in a tree, with the extent of its body. -/
def records : Regex → List (Nat × Extent)
  | sequence parts => recordsOfAll parts
  | choice options => recordsOfAll options
  | repetition body .. => records body
  | group kind body => kind.numbers.map (·, body.extent) ++ records body
  | _ => []

/-- The number of every capturing group in several trees, with the extent of its body. -/
def recordsOfAll : List Regex → List (Nat × Extent)
  | [] => []
  | tree :: trees => records tree ++ recordsOfAll trees
end

/-- The groups in several trees are those in each. -/
theorem recordsOfAll_eq_flatMap (trees : List Regex) :
    recordsOfAll trees = trees.flatMap records := by
  induction trees with
  | nil => rfl
  | cons tree trees ih => rw [recordsOfAll, ih, List.flatMap_cons]

/-- A text has no groups. -/
@[simp] theorem records_ofText (text : List Char) (ignoreCase : Bool) :
    (ofText text ignoreCase).records = [] := by
  cases text <;> rfl

/-- Parts in a row have the groups of the parts. -/
@[simp] theorem records_inSequence (parts : List Regex) :
    (inSequence parts).records = recordsOfAll parts := by
  cases parts <;> rfl

/-- One of several options has the groups of the options. -/
@[simp] theorem records_anyOf (options : List Regex) :
    (anyOf options).records = recordsOfAll options := by
  cases options <;> rfl

/-- A unit that is repeated has the groups of the unit. -/
theorem Repeats.records_eq {unit unit' : Regex} (h : unit.Repeats unit') :
    unit'.records = unit.records := by
  cases h with
  | once => rfl
  | repeated quantifier =>
    unfold Quantifier.apply
    split
    · split
      · simp [records, recordsOfAll, Regex.repeated]
      · rfl
    · rfl

/-- The groups have the numbers that are listed. -/
theorem map_fst_records (tree : Regex) : tree.records.map Prod.fst = tree.groupNumbers := by
  have hlist (trees : List Regex)
      (ih : ∀ tree ∈ trees, tree.records.map Prod.fst = tree.groupNumbers) :
      (recordsOfAll trees).map Prod.fst = groupNumbersOfAll trees := by
    induction trees with
    | nil => rfl
    | cons tree trees ihtrees =>
      rw [recordsOfAll, groupNumbersOfAll, List.map_append, ih tree (by simp),
        ihtrees fun other hother ↦ ih other (List.mem_cons_of_mem _ hother)]
  induction tree with
  | empty => rfl
  | literal text ignoreCase => rfl
  | set members => rfl
  | sequence parts ih => exact hlist parts ih
  | choice options ih => exact hlist options ih
  | repetition body least most mode ih => exact ih
  | group kind body ih =>
    rw [records, groupNumbers, List.map_append, ih, List.map_map]
    congr 1
    exact List.map_id _
  | backref id extent => rfl

/-- A group outside of assertions is among the groups of a tree. -/
theorem mem_records_of_mem_visible {tree body : Regex} {number : Nat} {name : Option String}
    (h : group (.capturing number name) body ∈ tree.visible) :
    (number, body.extent) ∈ tree.records := by
  induction tree with
  | empty => cases List.mem_singleton.1 h
  | literal text ignoreCase => cases List.mem_singleton.1 h
  | set members => cases List.mem_singleton.1 h
  | sequence parts ih =>
    rcases mem_visible_sequence.1 h with h | ⟨part, hpart, h⟩
    · cases h
    · rw [records, recordsOfAll_eq_flatMap]
      exact List.mem_flatMap.2 ⟨part, hpart, ih part hpart h⟩
  | choice options ih =>
    rcases mem_visible_choice.1 h with h | ⟨option, hoption, h⟩
    · cases h
    · rw [records, recordsOfAll_eq_flatMap]
      exact List.mem_flatMap.2 ⟨option, hoption, ih option hoption h⟩
  | repetition inner least most mode ih =>
    rcases mem_visible_repetition.1 h with h | h
    · cases h
    · exact ih h
  | group kind inner ih =>
    rcases mem_visible_group.1 h with h | ⟨-, h⟩
    · cases h
      exact List.mem_append_left _ (List.mem_singleton_self _)
    · exact List.mem_append_right _ (ih h)
  | backref id extent => cases List.mem_singleton.1 h

end Regex

namespace Level

open Regex (recordsOfAll recordsOfAll_eq_flatMap records_inSequence records_anyOf)

/-- The groups in the branches and units of a level. -/
def records (level : Level) : List (Nat × Extent) :=
  recordsOfAll level.units ++ recordsOfAll level.branches

/-- The current branch has the groups of its units. -/
theorem records_branch (level : Level) : level.branch.records.Perm (recordsOfAll level.units) := by
  rw [branch, records_inSequence, recordsOfAll_eq_flatMap, recordsOfAll_eq_flatMap]
  exact (List.reverse_perm level.units).flatMap_right _

/-- Another branch adds no groups. -/
theorem records_nextBranch (level : Level) : level.nextBranch.records.Perm level.records :=
  level.records_branch.append_right _

/-- The tree of a level has the groups of the level. -/
theorem records_tree (level : Level) : level.tree.records.Perm level.records := by
  unfold tree
  split
  · rename_i hbranches
    rw [records, hbranches, recordsOfAll, List.append_nil]
    exact level.records_branch
  · rw [records_anyOf, recordsOfAll_eq_flatMap]
    refine ((List.reverse_perm _).flatMap_right _).trans ?_
    rw [← recordsOfAll_eq_flatMap]
    exact level.records_branch.append_right _

end Level

namespace Reading

/-- The groups in the trees that were read so far, those around the open groups included. -/
def records (reading : Reading) : List (Nat × Extent) :=
  reading.level.records ++ reading.frames.flatMap (·.level.records)

/-- The groups that were read are those on record with their extents, and no number is on record
twice. -/
structure Recorded (reading : Reading) : Prop where
  perm : reading.records.Perm reading.groups.closed
  distinct : (reading.groups.closed.map Prod.fst).Nodup

namespace Recorded

variable {reading next : Reading}

/-- Nothing was read at the start. -/
theorem start (pattern : List Char) (flags : Flags) : (Reading.start pattern flags).Recorded :=
  ⟨.refl _, .nil⟩

/-- Whatever a step does, the groups that were read are on record. -/
theorem of_moves (h : reading.Recorded) (hsound : reading.Sound) (hmoves : reading.Moves next) :
    next.Recorded := by
  cases hmoves with
  | @add unit unit' groups cursor hgroups hunit hcount hnames hclosed =>
    have hnone : unit'.records = [] := by
      rw [hunit.records_eq, ← List.map_eq_nil_iff, Regex.map_fst_records, hgroups]
    refine ⟨?_, hclosed ▸ h.distinct⟩
    show (unit'.records ++ Regex.recordsOfAll reading.level.units ++
      Regex.recordsOfAll reading.level.branches ++ reading.frames.flatMap (·.level.records)).Perm
        groups.closed
    rw [hnone, hclosed]
    exact h.perm
  | branch => exact ⟨(reading.level.records_nextBranch.append_right _).trans h.perm, h.distinct⟩
  | enter hkind => exact ⟨h.perm, h.distinct⟩
  | @capture name kind groups start cursor hopen =>
    have hclosed := Groups.closed_openCapture hopen
    refine ⟨?_, hclosed ▸ h.distinct⟩
    show reading.records.Perm groups.closed
    exact hclosed ▸ h.perm
  | switch => exact ⟨h.perm, h.distinct⟩
  | @close frame frames unit' cursor hframes hunit =>
    have hopen := hsound.frames frame (hframes ▸ List.mem_cons_self)
    have hperm : (reading.level.tree.records ++
        (frame.level.records ++ frames.flatMap (·.level.records))).Perm reading.groups.closed := by
      have hrecords := h.perm
      rw [Reading.records, hframes, List.flatMap_cons] at hrecords
      exact (reading.level.records_tree.append_right _).trans hrecords
    refine ⟨?_, ?_⟩
    · show (unit'.records ++ Regex.recordsOfAll frame.level.units ++
        Regex.recordsOfAll frame.level.branches ++ frames.flatMap (·.level.records)).Perm
          (reading.groups.close frame.kind reading.level.tree.extent).closed
      rw [hunit.records_eq, Regex.records, List.append_assoc, List.append_assoc, List.append_assoc,
        ← List.append_assoc (Regex.recordsOfAll _)]
      refine (hperm.append_left _).trans ?_
      unfold Groups.close
      split <;> rename_i hkind
      · rw [hkind]
        exact .refl _
      · cases hnumbers : frame.kind with
        | capturing number name => exact absurd hnumbers (hkind number name)
        | plain => exact .refl _
        | atomic => exact .refl _
        | lookahead negated => exact .refl _
        | lookbehind negated => exact .refl _
    · show ((reading.groups.close frame.kind reading.level.tree.extent).closed.map Prod.fst).Nodup
      unfold Groups.close
      split
      · rename_i number name hkind
        -- An open group has no extent on record yet.
        have hnone := List.lookup_eq_none_iff.1 (hopen.lookup_closed (Frame.number?_eq hkind))
        refine List.nodup_cons.2 ⟨fun hmem ↦ ?_, h.distinct⟩
        obtain ⟨entry, hentry, heq⟩ := List.mem_map.1 hmem
        simpa [heq] using hnone entry hentry
      · exact h.distinct

/-- When a pattern was read to its end, the groups in its tree are those on record, and no number
is on record twice. -/
theorem run (h : reading.Recorded) (hsound : reading.Sound) {tree : Regex} {groups : Groups}
    (hrun : reading.run = .ok (tree, groups)) :
    tree.records.Perm groups.closed ∧ (groups.closed.map Prod.fst).Nodup := by
  obtain ⟨last, ⟨hlast, -⟩, hframes, rfl, rfl⟩ := exists_last_of_run
    (fun reading ↦ reading.Recorded ∧ reading.Sound)
    (fun h hadvance ↦ ⟨h.1.of_moves h.2 (moves_of_advance hadvance), h.2.advance hadvance⟩)
      ⟨h, hsound⟩ hrun
  have hperm := hlast.perm
  rw [Reading.records, hframes, List.flatMap_nil, List.append_nil] at hperm
  exact ⟨last.level.records_tree.trans hperm, hlast.distinct⟩

end Recorded

/-- Outside of assertions, a group of a tree that was read has exactly the extent on record. -/
theorem lookup_closed_of_run {pattern : List Char} {flags : Flags} {tree : Regex} {groups : Groups}
    (hrun : (Reading.start pattern flags).run = .ok (tree, groups)) {number : Nat}
    {name : Option String} {body : Regex}
    (h : Regex.group (.capturing number name) body ∈ tree.visible) :
    groups.closed.lookup number = some body.extent := by
  obtain ⟨hperm, hdistinct⟩ := (Recorded.start pattern flags).run (.start pattern flags) hrun
  exact lookup_eq_some_of_mem hdistinct (hperm.mem_iff.1 (Regex.mem_records_of_mem_visible h))

end Reading

end Exemplar
