import Exemplar.Proofs.Grammar.Positions
import Exemplar.Proofs.Grammar.Reading

/-!
# Positions of reading

The groups that are open, the references and the sets that are on record while a pattern is read
all have positions in the text (`Reading.On`). Every step keeps them there (`Reading.On.step`), and
the check of references refuses only positions that are on record, so a pattern that is refused is
refused at a position of its text or behind its last character (`Regex.position_le_of_parse`).
-/

namespace Exemplar

variable {α β : Type} {text : List Char}

/-! ## Groups -/

namespace Groups

/-- The positions that are on record, of the references and of the first set without members, are
positions of the text. -/
structure On (groups : Groups) (text : List Char) : Prop where
  references : ∀ position ∈ groups.references, position ≤ text.length
  firstEmptySet : ∀ position ∈ groups.firstEmptySet, position ≤ text.length

namespace On

variable {groups : Groups} {start : Nat}

/-- Opening a group puts no position on record. -/
theorem openCapture (h : groups.On text) (name : Option String) (hstart : start ≤ text.length) :
    OutcomeIn text (·.2.On text) (groups.openCapture name start) := by
  unfold Groups.openCapture
  cases name with
  | none => exact ⟨h.references, h.firstEmptySet⟩
  | some name =>
    simp only
    split
    · exact hstart
    · exact ⟨h.references, h.firstEmptySet⟩

/-- Closing a group puts no position on record. -/
theorem close (h : groups.On text) (kind : GroupKind) (extent : Extent) :
    (groups.close kind extent).On text := by
  unfold Groups.close
  split
  · exact ⟨h.references, h.firstEmptySet⟩
  · exact h

/-- The position of a set without members may be put on record. -/
theorem noteSet (h : groups.On text) (members : CharSet) (hstart : start ≤ text.length) :
    (groups.noteSet members start).On text := by
  unfold Groups.noteSet
  split
  · exact ⟨h.references, by simpa using hstart⟩
  · exact h

/-- The position of a reference may be put on record. -/
theorem refer (h : groups.On text) (id : GroupId) (number : Nat) (hstart : start ≤ text.length) :
    OutcomeIn text (·.2.On text) (groups.refer id number start) := by
  unfold Groups.refer
  split
  · exact hstart
  · split
    · exact hstart
    · exact ⟨List.forall_mem_cons.2 ⟨hstart, h.references⟩, h.firstEmptySet⟩

/-- The position of a reference by name may be put on record. -/
theorem referByName (h : groups.On text) (name : String) (hstart : start ≤ text.length) :
    OutcomeIn text (·.2.On text) (groups.referByName name start) := by
  unfold Groups.referByName
  split
  · exact h.refer _ _ hstart
  · exact hstart

end On

/-- The digits that extend a number are among the characters that are left. -/
theorem extendNumber_le (groups : Groups) (number : Nat) (rest : List Char) :
    (groups.extendNumber number rest).2 ≤ rest.length := by
  induction rest generalizing number with
  | nil => exact Nat.le_refl _
  | cons c rest ih =>
    unfold extendNumber
    simp only
    split
    · exact Nat.succ_le_succ (ih _)
    · exact Nat.zero_le _

end Groups

/-! ## Steps of reading -/

/-- Reading flags stays in the text. -/
theorem on_readFlags {rest : List Char} {position : Nat} (h : (Cursor.mk rest position).On text)
    (clearing : Bool) (flags : Flags) :
    OutcomeIn text (·.2.2.On text) (readFlags clearing flags rest position) := by
  fun_induction readFlags clearing flags rest position with
  | case1 => exact h.position_le
  | case2 => exact h.tail
  | case3 => exact h.tail
  | case4 => rename_i ih; exact ih h.tail
  | case5 => exact h.position_le
  | case6 => rename_i ih; exact ih h.tail
  | case7 => exact h.position_le

namespace Reading

/-- The cursor and all positions on record are in the text, and the groups that are open begin in
it. -/
structure On (reading : Reading) (text : List Char) : Prop where
  cursor : reading.cursor.On text
  frames : ∀ frame ∈ reading.frames, frame.start ≤ text.length
  groups : reading.groups.On text

namespace On

variable {reading : Reading} {cursor : Cursor}

/-- Nothing is on record at the start of a pattern. -/
theorem atStart (text : List Char) (flags : Flags) : (Reading.start text flags).On text :=
  ⟨.start text, by simp [Reading.start], ⟨by simp [Reading.start], by simp [Reading.start]⟩⟩

/-- A unit may be added. -/
theorem addUnit (h : reading.On text) (unit : Regex) (hcursor : cursor.On text) :
    OutcomeIn text (·.On text) (reading.addUnit unit cursor) :=
  OutcomeIn.map (Reader.Stays.quantifier? reading.flags.comments hcursor) fun _ hnext ↦
    ⟨hnext, h.frames, h.groups⟩

variable {start : Nat}

/-- A repetition of the empty string may be added. -/
theorem addEmptyRepetition (h : reading.On text) (hstart : start ≤ text.length)
    (hcursor : cursor.On text) :
    OutcomeIn text (·.On text) (reading.addEmptyRepetition start cursor) :=
  OutcomeIn.map (Reader.Stays.quantifier hstart reading.flags.comments '{' hcursor) fun _ hnext ↦
    ⟨hnext, h.frames, h.groups⟩

/-- Reading may go on inside a group. -/
theorem enter (h : reading.On text) (kind : GroupKind) (hstart : start ≤ text.length)
    (hcursor : cursor.On text) : (reading.enter kind start cursor).On text :=
  ⟨hcursor, List.forall_mem_cons.2 ⟨hstart, h.frames⟩, h.groups⟩

/-- Reading may go on inside the next capturing group. -/
theorem enterCapture (h : reading.On text) (name : Option String) (hstart : start ≤ text.length)
    (hcursor : cursor.On text) :
    OutcomeIn text (·.On text) (reading.enterCapture name start cursor) :=
  OutcomeIn.map (h.groups.openCapture name hstart) fun outcome hgroups ↦
    have hnoted : { reading with groups := outcome.2 }.On text := ⟨h.cursor, h.frames, hgroups⟩
    hnoted.enter _ hstart hcursor

/-- Flags may be switched. -/
theorem switchFlags (h : reading.On text) (hstart : start ≤ text.length)
    (hcursor : cursor.On text) :
    OutcomeIn text (·.On text) (reading.switchFlags start cursor) := by
  refine OutcomeIn.map (on_readFlags hcursor false reading.flags) fun outcome hnext ↦ ?_
  obtain ⟨flags, hasBody, next⟩ := outcome
  cases hasBody with
  | true =>
    have hinside := h.enter .plain hstart hnext
    exact ⟨hinside.cursor, hinside.frames, hinside.groups⟩
  | false => exact ⟨hnext, h.frames, h.groups⟩

/-- A group with a question mark may be opened. -/
theorem openMarked (h : reading.On text) (hstart : start ≤ text.length)
    (hcursor : cursor.On text) :
    OutcomeIn text (·.On text) (reading.openMarked start cursor) := by
  unfold Reading.openMarked
  split
  · rename_i hrest; exact h.enter _ hstart (hcursor.drop _ (by simp [hrest]))
  · rename_i hrest; exact h.enter _ hstart (hcursor.drop _ (by simp [hrest]))
  · rename_i hrest; exact h.enter _ hstart (hcursor.drop _ (by simp [hrest]))
  · rename_i hrest; exact h.enter _ hstart (hcursor.drop _ (by simp [hrest]))
  · rename_i hrest; exact h.enter _ hstart (hcursor.drop _ (by simp [hrest]))
  · rename_i hrest; exact h.enter _ hstart (hcursor.drop _ (by simp [hrest]))
  · rename_i hrest
    have hname := Reader.Stays.groupName (hcursor.drop 1 (by simp [hrest]))
    split
    · rename_i hrun
      exact h.enterCapture _ hstart (hname.ok hrun)
    · rename_i hrun
      exact hname.error hrun
  · split
    · exact h.switchFlags hstart hcursor
    · exact hcursor.position_le
  · exact hcursor.position_le

/-- A group may be opened. -/
theorem openGroup (h : reading.On text) (hstart : start ≤ text.length)
    (hcursor : cursor.On text) :
    OutcomeIn text (·.On text) (reading.openGroup start cursor) := by
  unfold Reading.openGroup
  split
  · rename_i hnext
    exact h.openMarked hstart (hcursor.drop_one hnext)
  · exact h.enterCapture _ hstart hcursor

/-- The innermost group may be closed. -/
theorem closeGroup (h : reading.On text) (hstart : start ≤ text.length)
    (hcursor : cursor.On text) :
    OutcomeIn text (·.On text) (reading.closeGroup start cursor) := by
  unfold Reading.closeGroup
  split
  · exact hstart
  · rename_i frame frames hframes
    obtain ⟨hframe, hrest⟩ := List.forall_mem_cons.1 (hframes ▸ h.frames)
    simp only
    split
    · exact hframe
    · have houtside : { reading with
          flags := frame.flags
          groups := reading.groups.close frame.kind reading.level.tree.extent
          level := frame.level
          frames }.On text := ⟨h.cursor, hrest, h.groups.close ..⟩
      exact houtside.addUnit _ hcursor

/-- A backreference may be added. -/
theorem addReference (h : reading.On text) (hcursor : cursor.On text)
    {reference : Except Located (Regex × Groups)}
    (hreference : OutcomeIn text (·.2.On text) reference) :
    OutcomeIn text (·.On text) (reading.addReference cursor reference) := by
  cases reference with
  | error located => exact hreference
  | ok outcome =>
    have hnoted : { reading with groups := outcome.2 }.On text :=
      ⟨h.cursor, h.frames, hreference⟩
    exact hnoted.addUnit _ hcursor

/-- What an escape stands for may be added. -/
theorem addEscape (h : reading.On text) (escape : Escape) (hcursor : cursor.On text) :
    OutcomeIn text (·.On text) (reading.addEscape escape cursor) := by
  cases escape with
  | char => exact h.addUnit _ hcursor
  | set => exact h.addUnit _ hcursor
  | quoted => exact h.addUnit _ hcursor

/-- A named backreference may be read. -/
theorem readNamedReference (h : reading.On text) (hstart : start ≤ text.length)
    (hcursor : cursor.On text) :
    OutcomeIn text (·.On text) (reading.readNamedReference start cursor) := by
  unfold Reading.readNamedReference
  split
  · rename_i hnext
    have hname := Reader.Stays.groupName (hcursor.drop_one hnext)
    split
    · rename_i hrun
      exact h.addReference (hname.ok hrun) (h.groups.referByName _ hstart)
    · rename_i hrun
      exact hname.error hrun
  · exact hstart

/-- An escape may be read. -/
theorem readEscape (h : reading.On text) (hstart : start ≤ text.length)
    (hcursor : cursor.On text) :
    OutcomeIn text (·.On text) (reading.readEscape start cursor) := by
  unfold Reading.readEscape
  split
  · exact hstart
  · rename_i mark rest hrest
    have hnext : (cursor.drop 1).On text := hcursor.drop_one (c := mark) (by simp [hrest])
    simp only
    split
    · refine h.addReference (hcursor.drop _ ?_) (h.groups.refer _ _ hstart)
      rw [hrest]
      exact Nat.succ_le_succ (reading.groups.extendNumber_le _ rest)
    · split
      · exact h.addUnit _ hnext
      · split
        · exact h.addUnit _ hnext
        · split
          · exact h.readNamedReference hstart hnext
          · have hescape := Reader.Stays.readEscape hstart mark hnext
            split
            · rename_i hrun
              exact h.addEscape _ (hescape.ok hrun)
            · rename_i hrun
              exact hescape.error hrun

/-- A bracket expression may be read. -/
theorem readSet (h : reading.On text) (hstart : start ≤ text.length) (hcursor : cursor.On text) :
    OutcomeIn text (·.On text) (reading.readSet start cursor) := by
  have hbracket := on_readBracket hcursor reading.flags
  unfold Reading.readSet
  split
  · rename_i members next hread
    have hnoted : { reading with groups := reading.groups.noteSet members start }.On text :=
      ⟨h.cursor, h.frames, h.groups.noteSet members hstart⟩
    exact hnoted.addUnit _ (hbracket.ok hread)
  · rename_i hread
    exact hbracket.error hread

/-- Reading may go on after a character. -/
theorem advance (h : reading.On text) (c : Char) (hstart : start ≤ text.length)
    (hcursor : cursor.On text) : OutcomeIn text (·.On text) (reading.advance c start cursor) := by
  unfold Reading.advance
  split
  · exact ⟨hcursor, h.frames, h.groups⟩
  · exact h.closeGroup hstart hcursor
  · exact h.openGroup hstart hcursor
  · exact h.readSet hstart hcursor
  · exact h.readEscape hstart hcursor
  · exact h.addEmptyRepetition hstart hcursor
  · exact h.addUnit _ hcursor
  · exact h.addUnit _ hcursor
  · exact h.addUnit _ hcursor
  · exact hstart
  · exact hstart
  · exact hstart
  · exact h.addUnit _ hcursor

end On

end Reading

/-- What is known behind a step has all its positions in the text. -/
def ReadingStep.On (text : List Char) : ReadingStep → Prop
  | more reading => reading.On text
  | done _ groups => groups.On text

namespace Reading.On

variable {reading : Reading}

/-- Every step stays in the text. -/
theorem step (h : reading.On text) : OutcomeIn text (ReadingStep.On text) reading.step := by
  have hskip := h.cursor.skip reading.flags.comments
  unfold Reading.step
  simp only
  split
  · split
    · exact h.groups
    · exact hskip.position_le
  · rename_i c rest hrest
    have hafter := hskip.drop_one (c := c) (by simp [hrest])
    rw [Cursor.drop, hrest] at hafter
    exact OutcomeIn.map (h.advance c hskip.position_le hafter) fun _ hnext ↦ hnext

/-- Reading to the end of the pattern stays in the text. -/
theorem run (h : reading.On text) : OutcomeIn text (·.2.On text) reading.run := by
  fun_induction Reading.run reading with
  | case1 reading located hstep => exact h.step.error hstep
  | case2 reading tree groups hstep => exact h.step.ok hstep
  | case3 reading next hstep ih => exact ih (h.step.ok hstep)

end Reading.On

/-! ## Whole patterns -/

namespace ReferenceCheck

/-- The check of references is refused at one of their positions, or at the start of the text. -/
abbrev Stays (text : List Char) (check : ReferenceCheck α) : Prop :=
  StaysIn text (fun positions : List Nat ↦ ∀ position ∈ positions,
  position ≤ text.length) check

/-- Taking the position of the next backreference, which is in the text. -/
theorem Stays.position {continuation : Nat → ReferenceCheck β}
    (h : ∀ position ≤ text.length, Stays text (continuation position)) :
    Stays text (ReferenceCheck.position >>= continuation) := by
  intro positions hpositions
  cases positions with
  | nil => exact h 0 (Nat.zero_le _) hpositions
  | cons position positions =>
    obtain ⟨hposition, hpositions⟩ := List.forall_mem_cons.1 hpositions
    exact h position hposition hpositions

/-- Passing over backreferences. -/
theorem Stays.pass (count : Nat) : Stays text (ReferenceCheck.pass count) :=
  fun _ hpositions position hmem ↦ hpositions position (List.mem_of_mem_drop hmem)

mutual
/-- Following a tree. -/
theorem Stays.certain (groups : Groups) :
    (tree : Regex) → (captured : List Nat) →
    Stays text (ReferenceCheck.certain groups tree captured)
  | .backref id _, _ => by
      refine .position fun position hposition ↦ ?_
      split
      · exact .pure _
      · exact .throw _ hposition
  | .sequence parts, captured => certainAfter groups parts captured
  | .choice options, captured => certainOfAny groups options captured
  | .repetition body .., captured => (certain groups body captured).bind fun _ ↦ .pure _
  | .group (.capturing ..) body, captured => (certain groups body captured).bind fun _ ↦ .pure _
  | .group .plain body, captured => certain groups body captured
  | .group .atomic body, captured => certain groups body captured
  | .group (.lookahead _) _, _ => (pass _).bind fun _ ↦ .pure _
  | .group (.lookbehind _) _, _ => (pass _).bind fun _ ↦ .pure _
  | .empty, _ => .pure _
  | .literal .., _ => .pure _
  | .set _, _ => .pure _

/-- Following all parts of a sequence. -/
theorem Stays.certainAfter (groups : Groups) :
    (parts : List Regex) → (captured : List Nat) →
      Stays text (ReferenceCheck.certainAfter groups parts captured)
  | [], _ => .pure _
  | part :: parts, captured =>
      (certain groups part captured).bind fun _ ↦ certainAfter groups parts _

/-- Following each of several options. -/
theorem Stays.certainOfAny (groups : Groups) :
    (options : List Regex) → (captured : List Nat) →
      Stays text (ReferenceCheck.certainOfAny groups options captured)
  | [], _ => .pure _
  | [option], captured => certain groups option captured
  | option :: next :: options, captured =>
      (certain groups option captured).bind fun _ ↦
        (certainOfAny groups (next :: options) captured).bind fun _ ↦ .pure _
end

end ReferenceCheck

/-- A reference is refused in the text. -/
theorem Groups.On.check {groups : Groups} (h : groups.On text) (tree : Regex) :
    OutcomeIn text (fun _ ↦ True) (groups.check tree) := by
  have hpositions : ∀ position ∈ groups.references.reverse, position ≤ text.length :=
    fun position hmem ↦ h.references position (List.mem_reverse.1 hmem)
  have hcertain := ReferenceCheck.Stays.certain groups tree [] hpositions
  unfold Groups.check
  cases hrun : (ReferenceCheck.certain groups tree []).run groups.references.reverse with
  | error located => exact hcertain.error hrun
  | ok outcome => trivial

/-- A pattern that is refused is refused at a position of its text or behind its last character. -/
theorem Regex.position_le_of_parse {flags : Flags} {located : Located}
    (h : Regex.parse text flags = .error located) : located.position ≤ text.length := by
  have hrun := (Reading.On.atStart text flags).run
  rcases Regex.parse_eq_error h with hread | ⟨tree, groups, hread, hrefused⟩
  · exact hrun.error hread
  · have hgroups : groups.On text := hrun.ok hread
    rcases hrefused with hcheck | ⟨-, rfl⟩
    · exact (hgroups.check tree).error hcheck
    · cases hempty : groups.firstEmptySet with
      | none => exact Nat.zero_le _
      | some position => exact hgroups.firstEmptySet position hempty

end Exemplar
