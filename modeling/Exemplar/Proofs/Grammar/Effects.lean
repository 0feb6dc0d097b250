import Exemplar.Proofs.CharSet.Named
import Exemplar.Proofs.Grammar.Groups
import Exemplar.Proofs.Regex.Prune

/-!
# What a step makes of a reading

A step that goes on after a character adds a unit, begins another branch, opens or closes a group,
or switches flags. `Reading.Effect` lists these effects, each with all that the step has made sure
of: a reference leads to a group that was closed, a name is free and can be written, and the length
of an assertion is bounded. Every step has one of them (`effect_of_advance`), so what all of them
keep is kept by every step.
-/

namespace Exemplar

open Regex (Everywhere)

namespace Groups

/-- The empty string fits any groups. -/
theorem fits_empty (groups : Groups) : Regex.empty.Everywhere groups.Fits :=
  trivial

/-- A set fits any groups. -/
theorem fits_set (groups : Groups) (members : CharSet) :
    (Regex.set members).Everywhere groups.Fits :=
  trivial

/-- A text fits any groups. -/
theorem fits_ofText (groups : Groups) (text : List Char) (ignoreCase : Bool) :
    (Regex.ofText text ignoreCase).Everywhere groups.Fits := by
  cases text with
  | nil => exact trivial
  | cons c text => exact List.cons_ne_nil c text

/-- A unit that fits may be repeated. -/
theorem fits_apply {groups : Groups} {unit : Regex} (h : unit.Everywhere groups.Fits)
    {quantifier : Quantifier} (hcounts : Quantifier.AreCounts quantifier.least quantifier.most) :
    (quantifier.apply unit).Everywhere groups.Fits := by
  have hrepeated {body : Regex} (hbody : body.Everywhere groups.Fits) :
      (body.repeated quantifier.least quantifier.most quantifier.mode).Everywhere groups.Fits :=
    groups.stable_fits.repeated
      (show groups.Fits (.repetition body quantifier.least quantifier.most quantifier.mode)
        from hcounts) hbody
  unfold Quantifier.apply
  split
  · split
    · rw [Regex.everywhere_sequence]
      exact ⟨trivial,
        by simpa using ⟨groups.fits_ofText .., hrepeated (groups.fits_ofText ..)⟩⟩
    · exact hrepeated h
  · exact hrepeated h

end Groups

namespace Regex

/-- A unit as it stands or as a quantifier repeats it. -/
inductive Repeats (unit : Regex) : Regex → Prop
  | once : Repeats unit unit
  | repeated (quantifier : Quantifier) : Repeats unit (quantifier.apply unit)

/-- The second unit is the first one with its quantifier, if one was read behind it, and it still
fits the groups that the first one fitted. -/
structure IsQuantified (unit unit' : Regex) : Prop where
  repeats : unit.Repeats unit'
  fits {groups : Groups} : unit.Everywhere groups.Fits → unit'.Everywhere groups.Fits

/-- A unit may be repeated as often as can be written. -/
theorem IsQuantified.apply (unit : Regex) {quantifier : Quantifier}
    (hcounts : Quantifier.AreCounts quantifier.least quantifier.most) :
    unit.IsQuantified (quantifier.apply unit) :=
  ⟨.repeated quantifier, fun hfits ↦ Groups.fits_apply hfits hcounts⟩

/-- A unit that is no reference, no bracket expression and no group. -/
inductive IsPlainUnit : Regex → Prop
  | empty : IsPlainUnit .empty
  | text (chars : List Char) (ignoreCase : Bool) : IsPlainUnit (.ofText chars ignoreCase)
  | set {members : CharSet} (h : members.isEmpty = false) : IsPlainUnit (.set members)
  | lineBreak : IsPlainUnit .lineBreak

/-- A plain unit fits any groups. -/
theorem IsPlainUnit.fits {unit : Regex} (h : unit.IsPlainUnit) (groups : Groups) :
    unit.Everywhere groups.Fits := by
  cases h with
  | empty => exact groups.fits_empty
  | text chars ignoreCase => exact groups.fits_ofText chars ignoreCase
  | set => exact groups.fits_set _
  | lineBreak =>
    refine everywhere_choice.2 ⟨List.cons_ne_nil _ _, List.forall_mem_cons.2 ⟨?_, ?_⟩⟩
    · exact groups.fits_ofText ['\r', '\n'] false
    · exact List.forall_mem_singleton.2 (groups.fits_set _)

end Regex

namespace Reading

/-- What a step that goes on after the character `c` at `start` makes of a reading. A unit is
added, which is plain, or a reference behind a backslash, or a set behind its bracket, and the
position of a reference or a set goes on record. Otherwise another branch begins, a group is opened
that does not capture, the next capturing group is opened, flags are switched, or the innermost
group is closed and is added as a unit. -/
inductive Effect (reading : Reading) (c : Char) (start : Nat) : Reading → Prop
  | unit {unit unit' : Regex} {cursor : Cursor} (hplain : unit.IsPlainUnit)
      (hunit : unit.IsQuantified unit') :
      Effect reading c start { reading with cursor, level := reading.level.add unit' }
  | reference {id : GroupId} {number : Nat} {extent : Extent} {unit' : Regex} {cursor : Cursor}
      (hmark : c = '\\') (hnumber : reading.groups.number? id = some number)
      (hextent : reading.groups.closed.lookup number = some extent)
      (hunit : (Regex.backref id extent).IsQuantified unit') :
      Effect reading c start { reading with
        cursor
        groups := { reading.groups with references := start :: reading.groups.references }
        level := reading.level.add unit' }
  | bracket {members : CharSet} {unit' : Regex} {cursor : Cursor} (hmark : c = '[')
      (hunit : (Regex.set members).IsQuantified unit') :
      Effect reading c start { reading with
        cursor
        groups := reading.groups.noteSet members start
        level := reading.level.add unit' }
  | branch {cursor : Cursor} :
      Effect reading c start { reading with cursor, level := reading.level.nextBranch }
  | enter {kind : GroupKind} {opening : Nat} {flags : Flags} {cursor : Cursor}
      (hkind : ∀ number name, kind ≠ .capturing number name) :
      Effect reading c start { reading.enter kind opening cursor with flags }
  | capture {name : Option String} {kind : GroupKind} {groups : Groups} {opening : Nat}
      {cursor : Cursor} (hname : ∀ other, name = some other → IsGroupName other)
      (hopen : reading.groups.openCapture name opening = .ok (kind, groups)) :
      Effect reading c start ({ reading with groups }.enter kind opening cursor)
  | switch {flags : Flags} {cursor : Cursor} : Effect reading c start { reading with flags, cursor }
  | close {frame : Frame} {frames : List Frame} {unit' : Regex} {cursor : Cursor}
      (hframes : reading.frames = frame :: frames)
      (hbounded : ¬ (frame.kind.isLookaround = true ∧ reading.level.tree.maxLength = .unbounded))
      (hunit : (Regex.group frame.kind reading.level.tree).IsQuantified unit') :
      Effect reading c start { reading with
        cursor
        flags := frame.flags
        groups := reading.groups.close frame.kind reading.level.tree.extent
        level := frame.level.add unit'
        frames }

variable {reading next : Reading} {c : Char} {start : Nat} {cursor : Cursor}

/-- A unit is added with its quantifier. -/
theorem addUnit_eq_ok {unit : Regex} (h : reading.addUnit unit cursor = .ok next) :
    ∃ unit' after, unit.IsQuantified unit' ∧
      next = { reading with cursor := after, level := reading.level.add unit' } := by
  unfold addUnit at h
  cases hrun : (Reader.quantifier? reading.flags.comments).run cursor with
  | error located => rw [hrun] at h; cases h
  | ok outcome =>
    obtain ⟨quantifier?, after⟩ := outcome
    rw [hrun] at h
    cases h
    cases quantifier? with
    | none => exact ⟨unit, after, ⟨.once, id⟩, rfl⟩
    | some quantifier =>
      exact ⟨_, after, .apply unit (Reader.yields_quantifier? _ hrun quantifier rfl), rfl⟩

namespace Effect

/-- Adding a plain unit. -/
theorem addUnit {unit : Regex} (hplain : unit.IsPlainUnit)
    (h : reading.addUnit unit cursor = .ok next) :
    reading.Effect c start next := by
  obtain ⟨unit', after, hunit, rfl⟩ := addUnit_eq_ok h
  exact .unit hplain hunit

/-- Adding a repetition of the empty string. -/
theorem addEmptyRepetition (h : reading.addEmptyRepetition start cursor = .ok next) :
    reading.Effect c start next := by
  unfold Reading.addEmptyRepetition at h
  cases hrun : (Reader.quantifier reading.flags.comments '{' start).run cursor with
  | error located => rw [hrun] at h; cases h
  | ok outcome =>
    rw [hrun] at h
    cases h
    exact .unit .empty (.apply .empty (Reader.yields_quantifier _ _ _ hrun))

/-- Opening the next capturing group. -/
theorem enterCapture {name : Option String}
    (hname : ∀ other, name = some other → IsGroupName other) {opening : Nat}
    (h : reading.enterCapture name opening cursor = .ok next) :
    reading.Effect c start next := by
  unfold Reading.enterCapture at h
  cases hopen : reading.groups.openCapture name opening with
  | error located => rw [hopen] at h; cases h
  | ok outcome =>
    rw [hopen] at h
    cases h
    exact .capture hname hopen

/-- Switching flags, for the rest of the open group or inside another group. -/
theorem switchFlags {opening : Nat} (h : reading.switchFlags opening cursor = .ok next) :
    reading.Effect c start next := by
  unfold Reading.switchFlags at h
  cases hread : readFlags false reading.flags cursor.rest cursor.position with
  | error located => rw [hread] at h; cases h
  | ok outcome =>
    obtain ⟨flags, hasBody, after⟩ := outcome
    rw [hread] at h
    cases h
    cases hasBody with
    | false => exact .switch
    | true => exact .enter fun number name ↦ GroupKind.noConfusion

/-- Opening a group. -/
theorem openGroup {opening : Nat} (h : reading.openGroup opening cursor = .ok next) :
    reading.Effect c start next := by
  have henter {kind : GroupKind} {cursor : Cursor}
      (hkind : ∀ number name, kind ≠ .capturing number name) :
      reading.Effect c start (reading.enter kind opening cursor) := .enter hkind
  unfold Reading.openGroup at h
  split at h
  · unfold Reading.openMarked at h
    split at h
    · cases h; exact henter (by simp)
    · cases h; exact henter (by simp)
    · cases h; exact henter (by simp)
    · cases h; exact henter (by simp)
    · cases h; exact henter (by simp)
    · cases h; exact henter (by simp)
    · split at h
      · rename_i name after hname
        refine enterCapture (fun other hother ↦ ?_) h
        cases hother
        exact Reader.yields_groupName hname
      · cases h
    · split at h
      · exact switchFlags h
      · cases h
    · cases h
  · exact enterCapture (fun other hother ↦ by cases hother) h

/-- Closing the innermost group. -/
theorem closeGroup {position : Nat} (h : reading.closeGroup position cursor = .ok next) :
    reading.Effect c start next := by
  unfold Reading.closeGroup at h
  split at h
  · cases h
  · rename_i frame frames hframes
    simp only at h
    split at h
    · cases h
    · rename_i hbounded
      obtain ⟨unit', after, hunit, rfl⟩ := addUnit_eq_ok h
      exact .close hframes hbounded hunit

/-- Adding a backreference, behind a backslash. -/
theorem addReference {id : GroupId} {number : Nat}
    (hnumber : reading.groups.number? id = some number)
    (h : reading.addReference cursor (reading.groups.refer id number start) = .ok next) :
    reading.Effect '\\' start next := by
  unfold Reading.addReference at h
  split at h
  · cases h
  · rename_i unit groups hrefer
    obtain ⟨extent, hextent, rfl, rfl⟩ := Groups.refer_eq_ok hrefer
    obtain ⟨unit', after, hunit, rfl⟩ := addUnit_eq_ok h
    exact .reference rfl hnumber hextent hunit

/-- Adding a backreference by name. -/
theorem readNamedReference (h : reading.readNamedReference start cursor = .ok next) :
    reading.Effect '\\' start next := by
  unfold Reading.readNamedReference at h
  split at h
  · split at h
    · rename_i name after hname
      unfold Groups.referByName at h
      split at h
      · rename_i number hnumber
        have hid : reading.groups.number? (.name name) = some number := hnumber
        exact addReference hid h
      · cases h
    · cases h
  · cases h

/-- Adding what an escape stands for, behind its backslash. -/
theorem readEscape (h : reading.readEscape start cursor = .ok next) :
    reading.Effect '\\' start next := by
  unfold Reading.readEscape at h
  split at h
  · cases h
  · rename_i mark rest hrest
    split at h
    · exact addReference rfl h
    · split at h
      · -- A mark of a place, which stands for no text.
        exact addUnit .empty h
      · split at h
        · exact addUnit .lineBreak h
        · split at h
          · exact readNamedReference h
          · split at h
            · rename_i escape after hescape
              cases escape with
              | char c => exact addUnit (.text ..) h
              | set members =>
                exact addUnit
                  (.set (Reader.yields_readEscape_members mark start hescape members rfl)) h
              | quoted text => exact addUnit (.text ..) h
            · cases h

/-- Adding a bracket expression, behind its bracket. -/
theorem readSet (h : reading.readSet start cursor = .ok next) : reading.Effect '[' start next := by
  unfold Reading.readSet at h
  split at h
  · obtain ⟨unit', after, hunit, rfl⟩ := addUnit_eq_ok h
    exact .bracket rfl hunit
  · cases h

end Effect

/-- Every step that goes on after a character has one of the effects. -/
theorem effect_of_advance (h : reading.advance c start cursor = .ok next) :
    reading.Effect c start next := by
  -- There is a case for each character that has a meaning, and one for all others.
  unfold Reading.advance at h
  split at h
  · cases h; exact .branch
  · exact .closeGroup h
  · exact .openGroup h
  · exact .readSet h
  · exact .readEscape h
  · exact .addEmptyRepetition h
  · exact .addUnit (.set reading.flags.isEmpty_dot) h
  · exact .addUnit .empty h
  · exact .addUnit .empty h
  · cases h
  · cases h
  · cases h
  · exact .addUnit (.text ..) h

end Reading

end Exemplar
