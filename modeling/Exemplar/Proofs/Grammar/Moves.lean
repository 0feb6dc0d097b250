import Exemplar.Proofs.Grammar.Reading
import Exemplar.Proofs.Regex.Marks
import Exemplar.Proofs.Regex.Numbers

/-!
# What a step of reading does to the groups

`reading.Moves next` says what one step may do to the trees that were read, to the open groups and
to the record of the groups: it adds a unit without groups, begins another branch, opens a group,
switches flags, or closes the innermost group and adds it as a unit. Every effect of a step is one
of these (`Effect.moves`), so what the trees and the groups have in common is kept by all steps
when it is kept by these.
-/

namespace Exemplar

namespace Regex

/-- A unit that is repeated has the marks of the unit. -/
theorem Repeats.marks_eq {unit unit' : Regex} (h : unit.Repeats unit') :
    unit'.marks = unit.marks := by
  cases h with
  | once => rfl
  | repeated quantifier =>
    have htext (text : List Char) (ignoreCase : Bool) : (ofText text ignoreCase).marks = [] := by
      cases text <;> rfl
    have hliteral (text : List Char) (ignoreCase : Bool) : (literal text ignoreCase).marks = [] :=
      rfl
    unfold Quantifier.apply
    split
    · split
      · simp [marks_sequence, Regex.repeated, marks_repetition, htext, hliteral]
      · rfl
    · rfl

/-- A plain unit has no groups. -/
theorem IsPlainUnit.groupNumbers_eq {unit : Regex} (h : unit.IsPlainUnit) :
    unit.groupNumbers = [] := by
  cases h with
  | empty => rfl
  | text chars ignoreCase => cases chars <;> rfl
  | set => rfl
  | lineBreak => rfl

end Regex

/-- A group that does not capture has no number. -/
theorem GroupKind.numbers_eq_nil {kind : GroupKind}
    (h : ∀ number name, kind ≠ .capturing number name) :
    kind.numbers = [] := by
  cases kind with
  | capturing number name => exact absurd rfl (h number name)
  | plain => rfl
  | atomic => rfl
  | lookahead negated => rfl
  | lookbehind negated => rfl

namespace Reading

/-- What a step may do to the trees that were read, to the open groups and to the record of the
groups. A unit without groups is added, where references and sets are taken note of. Otherwise
another branch begins, a group without a number is opened, the next capturing group is opened,
flags are switched, or the innermost group is closed and is added as a unit. -/
inductive Moves (reading : Reading) : Reading → Prop
  | add {unit unit' : Regex} {groups : Groups} {cursor : Cursor} (hgroups : unit.groupNumbers = [])
      (hunit : unit.Repeats unit') (hcount : groups.count = reading.groups.count)
      (hnames : groups.names = reading.groups.names)
        (hclosed : groups.closed = reading.groups.closed) :
      Moves reading { reading with cursor, groups, level := reading.level.add unit' }
  | branch {cursor : Cursor} : Moves reading
      { reading with cursor, level := reading.level.nextBranch }
  | enter {kind : GroupKind} {start : Nat} {flags : Flags} {cursor : Cursor}
      (hkind : kind.numbers = []) : Moves reading { reading.enter kind start cursor with flags }
  | capture {name : Option String} {kind : GroupKind} {groups : Groups} {start : Nat}
      {cursor : Cursor} (hopen : reading.groups.openCapture name start = .ok (kind, groups)) :
      Moves reading ({ reading with groups }.enter kind start cursor)
  | switch {flags : Flags} {cursor : Cursor} : Moves reading { reading with flags, cursor }
  | close {frame : Frame} {frames : List Frame} {unit' : Regex} {cursor : Cursor}
      (hframes : reading.frames = frame :: frames)
      (hunit : (Regex.group frame.kind reading.level.tree).Repeats unit') :
      Moves reading { reading with
        cursor
        flags := frame.flags
        groups := reading.groups.close frame.kind reading.level.tree.extent
        level := frame.level.add unit'
        frames }

variable {reading next : Reading}

/-- Every effect of a step does one of these. -/
theorem Effect.moves {c : Char} {start : Nat} (h : reading.Effect c start next) :
    reading.Moves next := by
  cases h with
  | unit hplain hunit => exact .add hplain.groupNumbers_eq hunit.repeats rfl rfl rfl
  | @reference id number extent unit' cursor hmark hnumber hextent hunit =>
    have hnone : (Regex.backref id extent).groupNumbers = [] := rfl
    exact .add hnone hunit.repeats rfl rfl rfl
  | @bracket members unit' cursor hmark hunit =>
    have hnone : (Regex.set members).groupNumbers = [] := rfl
    obtain ⟨hcount, hnames, hclosed⟩ := reading.groups.noteSet_eq members start
    exact .add hnone hunit.repeats hcount hnames hclosed
  | branch => exact .branch
  | enter hkind => exact .enter (GroupKind.numbers_eq_nil hkind)
  | capture hname hopen => exact .capture hopen
  | switch => exact .switch
  | close hframes hbounded hunit => exact .close hframes hunit.repeats

/-- Every step that goes on after a character does one of these. -/
theorem moves_of_advance {c : Char} {start : Nat} {cursor : Cursor}
    (h : reading.advance c start cursor = .ok next) : reading.Moves next :=
  (effect_of_advance h).moves

end Reading

end Exemplar
