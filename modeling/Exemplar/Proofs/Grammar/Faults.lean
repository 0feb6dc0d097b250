import Exemplar.Grammar.Reading

/-!
# Faults of reading

A pattern is refused for a fault that is found while it is read, or, when it was read to its end,
for a reference that is uncertain or because no string can be generated. The last two faults are
never found while a pattern is read: no reader fails for them (`Reader.FailsInReading`), no step
does, and so reading to the end does not (`Reading.failsInReading_run`).
-/

namespace Exemplar

variable {α β : Type}

/-- The fault may be found while a pattern is read. -/
def Fault.IsOfReading : Fault → Prop
  | uncertainGroup _ | impossible => False
  | _ => True

/-- When the outcome is a refusal, its fault is one of reading. -/
def FailsInReading : Except Located α → Prop
  | .ok _ => True
  | .error located => located.fault.IsOfReading

/-- A refusal keeps its fault when a function is applied to the result. -/
theorem FailsInReading.map {outcome : Except Located α} (h : FailsInReading outcome)
    (f : α → β) :
    FailsInReading (outcome.map f) := by
  cases outcome with
  | ok value => trivial
  | error located => exact h

/-- A refusal is handed on with its fault. -/
theorem FailsInReading.of_error {outcome : Except Located α} {located : Located}
    (h : FailsInReading outcome) (heq : outcome = .error located) : located.fault.IsOfReading := by
  rwa [heq] at h

/-! ## Readers -/

/-- Whenever the reader refuses a pattern, the fault is one of reading. -/
def Reader.FailsInReading (reader : Reader α) : Prop :=
  ∀ cursor, Exemplar.FailsInReading (reader.run cursor)

namespace Reader.FailsInReading

/-- A result is no refusal. -/
theorem pure (value : α) : FailsInReading (Pure.pure value : Reader α) :=
  fun _ ↦ trivial

/-- A refusal for a fault of reading. -/
theorem fail {fault : Fault} {position : Nat} (h : fault.IsOfReading) :
    FailsInReading (Reader.fail fault position : Reader α) :=
  fun _ ↦ h

/-- A reader behind another one. -/
theorem bind {reader : Reader α} {continuation : α → Reader β}
    (hreader : reader.FailsInReading) (h : ∀ value, (continuation value).FailsInReading) :
    (reader >>= continuation).FailsInReading := by
  intro cursor
  have houtcome := hreader cursor
  rw [StateT.run_bind]
  cases hrun : reader.run cursor with
  | error located =>
    rw [hrun] at houtcome
    exact houtcome
  | ok outcome => exact h outcome.1 outcome.2

/-- Looking at the rest of the pattern. -/
theorem get : FailsInReading (MonadState.get : Reader Cursor) :=
  fun _ ↦ trivial

/-- Moving the cursor. -/
theorem move (change : Cursor → Cursor) : FailsInReading (modify change : Reader Unit) :=
  fun _ ↦ trivial

/-- The position of the cursor. -/
theorem position : FailsInReading Reader.position :=
  get.bind fun _ ↦ pure _

/-- Looking at the next character. -/
theorem peek? : FailsInReading Reader.peek? :=
  get.bind fun _ ↦ pure _

/-- Taking the next character. -/
theorem next? : FailsInReading Reader.next? := by
  refine get.bind fun cursor ↦ ?_
  split
  · exact pure _
  · exact (move _).bind fun _ ↦ pure _

/-- Taking the next character if it is the given one. -/
theorem eat (expected : Char) : FailsInReading (Reader.eat expected) := by
  refine peek?.bind fun next ↦ ?_
  split
  · exact (move _).bind fun _ ↦ pure _
  · exact pure _

/-- Taking a run of characters. -/
theorem takeWhile (accepts : Char → Bool) : FailsInReading (Reader.takeWhile accepts) :=
  get.bind fun _ ↦ (move _).bind fun _ ↦ pure _

/-- Moving on to the next character that counts. -/
theorem skip (comments : Bool) : FailsInReading (Reader.skip comments) :=
  move _

/-! ### Escapes -/

/-- The character of a code point. -/
theorem character (code start : Nat) : FailsInReading (Reader.character code start) := by
  unfold Reader.character
  split
  · exact pure _
  · exact fail trivial

/-- Taking hexadecimal digits. -/
theorem hexadecimal (start count value : Nat) :
    FailsInReading (Reader.hexadecimal start count value) := by
  induction count generalizing value with
  | zero => exact pure _
  | succ count ih =>
    refine next?.bind fun c ↦ ?_
    split
    · exact ih _
    · exact fail trivial

/-- Taking octal digits. -/
theorem octal (start : Nat) : FailsInReading (Reader.octal start) := by
  refine get.bind fun cursor ↦ ?_
  split
  · exact fail trivial
  · exact (move _).bind fun _ ↦ character _ _

/-- Taking a hexadecimal escape. -/
theorem hexadecimalEscape (start : Nat) : FailsInReading (Reader.hexadecimalEscape start) := by
  refine (eat _).bind fun inBraces ↦ ?_
  split
  · refine (takeWhile _).bind fun digits ↦ ?_
    split
    · exact fail trivial
    · split
      · exact fail trivial
      · refine next?.bind fun c ↦ ?_
        split
        · exact character _ _
        · exact fail trivial
  · exact (hexadecimal _ _ _).bind fun _ ↦ character _ _

/-- Taking a Unicode escape. -/
theorem unicodeEscape (start : Nat) : FailsInReading (Reader.unicodeEscape start) := by
  refine (hexadecimal _ _ _).bind fun high ↦ get.bind fun cursor ↦ ?_
  split
  · refine (move _).bind fun _ ↦ (hexadecimal _ _ _).bind fun low ↦ ?_
    split
    · exact character _ _
    · exact fail trivial
  · exact character _ _

/-- Taking a control escape. -/
theorem controlEscape (start : Nat) : FailsInReading (Reader.controlEscape start) := by
  refine next?.bind fun c ↦ ?_
  split
  · exact pure _
  · exact fail trivial

/-- Taking a property. -/
theorem property (start : Nat) : FailsInReading (Reader.property start) := by
  have hname : FailsInReading (propertyName start) := by
    refine next?.bind fun c ↦ ?_
    split
    · refine (takeWhile _).bind fun name ↦ next?.bind fun c ↦ ?_
      split
      · exact pure _
      · exact fail trivial
    · exact pure _
    · exact fail trivial
  refine hname.bind fun name ↦ ?_
  split
  · exact pure _
  · exact fail trivial

/-- Reading an escape. -/
theorem readEscape (start : Nat) (mark : Char) : FailsInReading (Reader.readEscape start mark) := by
  unfold Reader.readEscape
  split
  · exact pure _
  · split
    · exact pure _
    · split
      · exact (octal _).bind fun _ ↦ pure _
      · exact (controlEscape _).bind fun _ ↦ pure _
      · exact (hexadecimalEscape _).bind fun _ ↦ pure _
      · exact (unicodeEscape _).bind fun _ ↦ pure _
      · exact (property _).bind fun _ ↦ pure _
      · exact (property _).bind fun _ ↦ pure _
      · exact (get.bind fun _ ↦ (move _).bind fun _ ↦ pure _).bind fun _ ↦ pure _
      · exact fail trivial
      · exact fail trivial
      · exact fail trivial
      · split
        · exact fail trivial
        · exact pure _

/-! ### Bracket expressions -/

/-- Checking a member. -/
theorem member (c : Char) (start : Nat) : FailsInReading (Reader.member c start) := by
  unfold Reader.member
  split
  · exact pure _
  · exact fail trivial

/-- Reading the end of a range. -/
theorem rangeEnd (comments : Bool) : FailsInReading (Reader.rangeEnd comments) := by
  refine position.bind fun start ↦ (skip _).bind fun _ ↦ peek?.bind fun next ↦ ?_
  split
  · exact pure _
  · exact pure _
  · exact fail trivial
  · refine (move _).bind fun _ ↦ next?.bind fun mark ↦ ?_
    split
    · exact fail trivial
    · refine (readEscape _ _).bind fun escape ↦ ?_
      split
      · exact (member _ _).bind fun _ ↦ pure _
      · exact fail trivial
  · exact (move _).bind fun _ ↦ (member _ _).bind fun _ ↦ pure _

/-- Listing a character or a range. -/
theorem listRange (comments : Bool) (builder : CharSet.Builder) (c : Char) (start : Nat) :
    FailsInReading (Reader.listRange comments builder c start) := by
  refine (member _ _).bind fun first ↦ (skip _).bind fun _ ↦ (eat _).bind fun hyphen ↦ ?_
  split
  · refine position.bind fun stop ↦ (rangeEnd _).bind fun last ↦ ?_
    split
    · exact pure _
    · split
      · exact fail trivial
      · exact pure _
  · exact pure _

/-- Listing a quotation. -/
theorem listQuotation (comments : Bool) (start : Nat) (quoted : List Char)
    (builder : CharSet.Builder) :
    FailsInReading (Reader.listQuotation comments start quoted builder) := by
  fun_induction Reader.listQuotation comments start quoted builder with
  | case1 => exact pure _
  | case2 => exact listRange _ _ _ _
  | case3 builder c rest _ ih => exact (member _ _).bind fun c ↦ ih c

/-- Listing an escape. -/
theorem listEscape (comments : Bool) (builder : CharSet.Builder) (start : Nat) :
    FailsInReading (Reader.listEscape comments builder start) := by
  refine next?.bind fun mark ↦ ?_
  split
  · exact fail trivial
  · refine (readEscape _ _).bind fun escape ↦ ?_
    split
    · exact listRange _ _ _ _
    · exact pure _
    · exact listQuotation _ _ _ _

/-! ### Repetition marks and names -/

/-- Taking a count. -/
theorem count : FailsInReading Reader.count := by
  refine position.bind fun start ↦ (takeWhile _).bind fun digits ↦ ?_
  split
  · exact fail trivial
  · split
    · exact pure _
    · exact pure _

/-- Reading counts in braces. -/
theorem counts (start : Nat) : FailsInReading (Reader.counts start) := by
  have hupper (least : Nat) : FailsInReading (upperCount least) := by
    refine (eat _).bind fun comma ↦ ?_
    split
    · refine count.bind fun most ↦ ?_
      split
      · exact pure _
      · exact pure _
    · exact pure _
  refine count.bind fun least ↦ ?_
  split
  · exact fail trivial
  · refine (hupper _).bind fun most ↦ (eat _).bind fun brace ↦ ?_
    split
    · split
      · exact pure _
      · exact fail trivial
    · exact position.bind fun stop ↦ fail trivial

/-- Reading a repetition. -/
theorem quantifier (comments : Bool) (mark : Char) (start : Nat) :
    FailsInReading (Reader.quantifier comments mark start) := by
  have hcopies : FailsInReading (copies mark start) := by
    unfold copies
    split
    · exact pure _
    · exact pure _
    · exact pure _
    · exact counts _
  have hmode : FailsInReading (mode comments) := by
    refine (skip _).bind fun _ ↦ (eat _).bind fun reluctant ↦ ?_
    split
    · exact pure _
    · refine (eat _).bind fun possessive ↦ ?_
      split
      · exact pure _
      · exact pure _
  exact hcopies.bind fun _ ↦ hmode.bind fun _ ↦ pure _

/-- Reading a repetition, if there is one. -/
theorem quantifier? (comments : Bool) : FailsInReading (Reader.quantifier? comments) := by
  refine (skip _).bind fun _ ↦ position.bind fun start ↦ peek?.bind fun next ↦ ?_
  split
  · exact pure _
  · split
    · exact (move _).bind fun _ ↦ (quantifier _ _ _).bind fun _ ↦ pure _
    · exact pure _

/-- Taking the name of a group. -/
theorem groupName : FailsInReading Reader.groupName := by
  refine position.bind fun start ↦ (takeWhile _).bind fun name ↦ ?_
  split
  · exact fail trivial
  · refine position.bind fun stop ↦ next?.bind fun c ↦ ?_
    split
    · exact pure _
    · exact fail trivial
    · exact fail trivial

end Reader.FailsInReading

/-! ## Steps of reading -/

/-- Reading the items of a bracket expression. -/
theorem Bracket.failsInReading_readItems (comments : Bool) (bracket : Bracket)
    (enclosing : List Bracket) (cursor : Cursor) :
    FailsInReading (bracket.readItems comments enclosing cursor) := by
  have hitem (bracket : Bracket) (enclosing : List Bracket) (cursor : Cursor) :
      FailsInReading (bracket.readItem comments enclosing cursor) := by
    unfold readItem
    split
    · trivial
    · simp only
      split
      · trivial
      · split
        · trivial
        · split
          · trivial
          · split
            · exact .map (Reader.FailsInReading.listEscape comments bracket.current _ _) _
            · exact .map (Reader.FailsInReading.listRange comments bracket.current _ _ _) _
  fun_induction bracket.readItems comments enclosing cursor with
  | case1 bracket enclosing cursor located hrefused => exact (hitem ..).of_error hrefused
  | case2 => trivial
  | case3 bracket enclosing cursor inner outer next hmore ih => exact ih

/-- Reading flags. -/
theorem failsInReading_readFlags (clearing : Bool) (flags : Flags) (rest : List Char)
    (position : Nat) :
    FailsInReading (readFlags clearing flags rest position) := by
  fun_induction readFlags clearing flags rest position with
  | case1 => trivial
  | case2 => trivial
  | case3 => trivial
  | case4 => assumption
  | case5 => trivial
  | case6 => assumption
  | case7 => trivial

/-- Referring to a group. -/
theorem Groups.failsInReading_refer (groups : Groups) (id : GroupId) (number start : Nat) :
    FailsInReading (groups.refer id number start) := by
  unfold refer
  split
  · trivial
  · split
    · trivial
    · trivial

namespace Reading

variable (reading : Reading) (start : Nat) (cursor : Cursor)

/-- Adding a unit. -/
theorem failsInReading_addUnit (unit : Regex) : FailsInReading (reading.addUnit unit cursor) :=
  .map (Reader.FailsInReading.quantifier? reading.flags.comments cursor) _

/-- Opening the next capturing group. -/
theorem failsInReading_enterCapture (name : Option String) :
    FailsInReading (reading.enterCapture name start cursor) := by
  refine .map ?_ _
  unfold Groups.openCapture
  cases name with
  | none => trivial
  | some name =>
    simp only
    split
    · trivial
    · trivial

/-- Opening a group. -/
theorem failsInReading_openGroup : FailsInReading (reading.openGroup start cursor) := by
  unfold openGroup
  split
  · unfold openMarked
    split
    · trivial
    · trivial
    · trivial
    · trivial
    · trivial
    · trivial
    · split
      · exact failsInReading_enterCapture ..
      · rename_i located hname
        exact (Reader.FailsInReading.groupName _).of_error hname
    · split
      · exact .map (failsInReading_readFlags ..) _
      · trivial
    · trivial
  · exact failsInReading_enterCapture ..

/-- Closing the innermost group. -/
theorem failsInReading_closeGroup (position : Nat) :
    FailsInReading (reading.closeGroup position cursor) := by
  unfold closeGroup
  split
  · trivial
  · simp only
    split
    · trivial
    · exact failsInReading_addUnit ..

/-- Adding a backreference. -/
theorem failsInReading_addReference (id : GroupId) (number : Nat) :
    FailsInReading (reading.addReference cursor (reading.groups.refer id number start)) := by
  unfold addReference
  split
  · rename_i located hrefer
    exact (reading.groups.failsInReading_refer id number start).of_error hrefer
  · exact failsInReading_addUnit ..

/-- Reading an escape. -/
theorem failsInReading_readEscape : FailsInReading (reading.readEscape start cursor) := by
  unfold readEscape
  split
  · trivial
  · simp only
    split
    · exact failsInReading_addReference ..
    · split
      · exact failsInReading_addUnit ..
      · split
        · exact failsInReading_addUnit ..
        · split
          · unfold readNamedReference
            split
            · split
              · unfold Groups.referByName
                split
                · exact failsInReading_addReference ..
                · trivial
              · rename_i located hname
                exact (Reader.FailsInReading.groupName _).of_error hname
            · trivial
          · split
            · rename_i escape after hescape
              cases escape with
              | char => exact failsInReading_addUnit ..
              | set => exact failsInReading_addUnit ..
              | quoted => exact failsInReading_addUnit ..
            · rename_i located hescape
              exact (Reader.FailsInReading.readEscape _ _ _).of_error hescape

/-- Going on after a character. -/
theorem failsInReading_advance (c : Char) : FailsInReading (reading.advance c start cursor) := by
  unfold advance
  split
  · trivial
  · exact failsInReading_closeGroup ..
  · exact failsInReading_openGroup ..
  · unfold readSet
    split
    · exact failsInReading_addUnit ..
    · rename_i located hread
      exact (Bracket.failsInReading_readItems ..).of_error hread
  · exact failsInReading_readEscape ..
  · exact .map (Reader.FailsInReading.quantifier reading.flags.comments _ start cursor) _
  · exact failsInReading_addUnit ..
  · exact failsInReading_addUnit ..
  · exact failsInReading_addUnit ..
  · trivial
  · trivial
  · trivial
  · exact failsInReading_addUnit ..

/-- Reading to the end of the pattern. -/
theorem failsInReading_run : FailsInReading reading.run := by
  have hstep (reading : Reading) : FailsInReading reading.step := by
    unfold step
    simp only
    split
    · split
      · trivial
      · trivial
    · exact .map (failsInReading_advance ..) _
  fun_induction Reading.run reading with
  | case1 reading located hrefused => exact (hstep reading).of_error hrefused
  | case2 => trivial
  | case3 reading next hmore ih => exact ih

end Reading

end Exemplar
