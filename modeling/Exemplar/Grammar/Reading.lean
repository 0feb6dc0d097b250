import Exemplar.Grammar.Bracket
import Exemplar.Grammar.Groups
import Exemplar.Grammar.Quantifier
import Exemplar.Grammar.References
import Exemplar.Regex.Prune

/-!
# Reading a pattern

A pattern is a choice between branches, a branch is a row of units, and a unit may be repeated. A
`Reading` keeps the branches and units of the innermost open group, and the groups around it form a
stack. `Reading.step` reads one unit, or opens or closes a group, and `Reading.run` repeats it until
the pattern ends. It ends because every step takes at least one character (`step_shortens`).

`Regex.parse` reads a whole pattern. It refuses references to groups that may have no text, removes
the parts that need a member of an empty set, and refuses a pattern of which nothing is left.
-/

namespace Exemplar

/-- The complete branches and the units of the current branch of a group that is open, both latest
first. -/
structure Level where
  branches : List Regex := []
  units : List Regex := []
  deriving Inhabited

namespace Level

/-- The current branch. -/
def branch (level : Level) : Regex :=
  .inSequence level.units.reverse

/-- Begin another branch. -/
def nextBranch (level : Level) : Level :=
  ⟨level.branch :: level.branches, []⟩

/-- Add a unit to the current branch. -/
def add (level : Level) (unit : Regex) : Level :=
  { level with units := unit :: level.units }

/-- The tree of all branches. -/
def tree (level : Level) : Regex :=
  match level.branches with
  | [] => level.branch
  | branches => .anyOf (level.branch :: branches).reverse

end Level

/-- A group that is open, with the position of its parenthesis. `flags` are the flags outside the
group, and `level` has the branches and units before it. -/
structure Frame where
  kind : GroupKind
  start : Nat
  flags : Flags
  level : Level
  deriving Inhabited

/-- A pattern that is being read: what is left of it, the flags at this point, the groups so far,
the branches and units of the innermost group, and the groups that are open, innermost first. -/
structure Reading where
  cursor : Cursor
  flags : Flags
  groups : Groups := {}
  level : Level := {}
  frames : List Frame := []
  deriving Inhabited

/-- What a step of reading leads to: there is more to read, or the pattern has been read. -/
inductive ReadingStep where
  | more (reading : Reading)
  | done (tree : Regex) (groups : Groups)

/-- Read the flags behind the question mark of a group, up to a parenthesis that closes it or a
colon that begins its body. The flags after a hyphen are switched off. The second component says
whether there is a body. -/
def readFlags : (clearing : Bool) → Flags → List Char → (position : Nat) →
    Except Located (Flags × Bool × Cursor)
  | _, _, [], position => .error ⟨.unclosedGroup, position⟩
  | clearing, flags, c :: rest, position =>
      if c = ')' then .ok (flags, false, ⟨rest, position + 1⟩)
      else if c = ':' then .ok (flags, true, ⟨rest, position + 1⟩)
      else if c = '-' ∧ clearing = false then readFlags true flags rest (position + 1)
      else if c = 'U' then .error ⟨.unicodeClasses, position⟩
      else
        match Flags.ofInlineLetter? c with
        | some flag =>
            readFlags clearing (if clearing then flags.without flag else flags.union flag) rest
              (position + 1)
        | none => .error ⟨.unknownModifier, position⟩

/-- The characters that the dot stands for. -/
def Flags.dot (flags : Flags) : CharSet :=
  if flags.dotAll then .any
  else if flags.unixLines then .anyExceptLineFeed
  else .anyExceptLineEnds

/-- The tree of a line break: the two characters that end a line together, or one character that
ends a line by itself. -/
def Regex.lineBreak : Regex :=
  .choice [.literal ['\r', '\n'] false,
    .set (CharSet.verticalSpace ∩ (CharSet.single '\r').negate)]

namespace Reading

/-- The reading at the start of a pattern. -/
def start (pattern : List Char) (flags : Flags) : Reading :=
  { cursor := .start pattern, flags }

/-- The unit of a text under the current flags. -/
def text (reading : Reading) (chars : List Char) : Regex :=
  .ofText chars reading.flags.ignoreCase

/-- Add a unit that ends at the cursor, repeated as the pattern says. -/
def addUnit (reading : Reading) (unit : Regex) (cursor : Cursor) : Except Located Reading :=
  ((Reader.quantifier? reading.flags.comments).run cursor).map fun (quantifier, cursor) ↦
    let unit := match quantifier with
      | some quantifier => quantifier.apply unit
      | none => unit
    { reading with cursor, level := reading.level.add unit }

/-- Add a repetition of the empty string, which begins with a brace at `start`. -/
def addEmptyRepetition (reading : Reading) (start : Nat) (cursor : Cursor) :
    Except Located Reading :=
  ((Reader.quantifier reading.flags.comments '{' start).run cursor).map fun (quantifier, cursor) ↦
    { reading with cursor, level := reading.level.add (quantifier.apply .empty) }

/-- Go on inside a group. -/
def enter (reading : Reading) (kind : GroupKind) (start : Nat) (cursor : Cursor) : Reading :=
  { reading with
    cursor
    level := {}
    frames := ⟨kind, start, reading.flags, reading.level⟩ :: reading.frames }

/-- Go on inside the next capturing group. -/
def enterCapture (reading : Reading) (name : Option String) (start : Nat) (cursor : Cursor) :
    Except Located Reading :=
  (reading.groups.openCapture name start).map fun (kind, groups) ↦
    { reading with groups }.enter kind start cursor

/-- Switch flags, for the rest of the open group or inside another group. -/
def switchFlags (reading : Reading) (start : Nat) (cursor : Cursor) : Except Located Reading :=
  (readFlags false reading.flags cursor.rest cursor.position).map fun (flags, hasBody, cursor) ↦
    if hasBody then { reading.enter .plain start cursor with flags }
    -- A switch without a body is no unit, so no repetition mark is read behind it.
    else { reading with flags, cursor }

/-- Open a group whose parenthesis is at `start`, with the cursor behind its question mark. -/
def openMarked (reading : Reading) (start : Nat) (cursor : Cursor) : Except Located Reading :=
  match cursor.rest with
  | ':' :: _ => .ok (reading.enter .plain start (cursor.drop 1))
  | '>' :: _ => .ok (reading.enter .atomic start (cursor.drop 1))
  | '=' :: _ => .ok (reading.enter (.lookahead false) start (cursor.drop 1))
  | '!' :: _ => .ok (reading.enter (.lookahead true) start (cursor.drop 1))
  | '<' :: '=' :: _ => .ok (reading.enter (.lookbehind false) start (cursor.drop 2))
  | '<' :: '!' :: _ => .ok (reading.enter (.lookbehind true) start (cursor.drop 2))
  | '<' :: _ =>
      match Reader.groupName.run (cursor.drop 1) with
      | .ok (name, cursor) => reading.enterCapture (some name) start cursor
      | .error located => .error located
  | c :: _ =>
      if c = '-' ∨ c.isAlpha then reading.switchFlags start cursor
      else .error ⟨.unknownModifier, cursor.position⟩
  | [] => .error ⟨.unknownModifier, cursor.position⟩

/-- Open a group whose parenthesis is at `start`, with the cursor behind it. -/
def openGroup (reading : Reading) (start : Nat) (cursor : Cursor) : Except Located Reading :=
  if cursor.rest.head? = some '?' then reading.openMarked start (cursor.drop 1)
  else reading.enterCapture none start cursor

/-- Close the innermost group with a parenthesis at `position`, with the cursor behind it. -/
def closeGroup (reading : Reading) (position : Nat) (cursor : Cursor) : Except Located Reading :=
  match reading.frames with
  | [] => .error ⟨.unmatchedParenthesis, position⟩
  | frame :: frames =>
      let body := reading.level.tree
      if frame.kind.isLookaround ∧ body.maxLength = .unbounded then
        .error ⟨.unboundedLookaround, frame.start⟩
      else
        { reading with
          flags := frame.flags
          groups := reading.groups.close frame.kind body.extent
          level := frame.level
          frames }.addUnit (.group frame.kind body) cursor

/-- Add a backreference that ends at the cursor. -/
def addReference (reading : Reading) (cursor : Cursor)
    (reference : Except Located (Regex × Groups)) : Except Located Reading :=
  match reference with
  | .error located => .error located
  | .ok (unit, groups) => { reading with groups }.addUnit unit cursor

/-- Add what an escape stands for. -/
def addEscape (reading : Reading) (escape : Escape) (cursor : Cursor) : Except Located Reading :=
  match escape with
  | .char c => reading.addUnit (reading.text [c]) cursor
  | .set members => reading.addUnit (.set members) cursor
  | .quoted text => reading.addUnit (reading.text text) cursor

/-- Read a named backreference, behind the letter of its escape. -/
def readNamedReference (reading : Reading) (start : Nat) (cursor : Cursor) :
    Except Located Reading :=
  if cursor.rest.head? = some '<' then
    match Reader.groupName.run (cursor.drop 1) with
    | .ok (name, cursor) => reading.addReference cursor (reading.groups.referByName name start)
    | .error located => .error located
  else .error ⟨.missingName, start⟩

/-- Read an escape at `start`, behind its backslash. -/
def readEscape (reading : Reading) (start : Nat) (cursor : Cursor) : Except Located Reading :=
  match cursor.rest with
  | [] => .error ⟨.trailingBackslash, start⟩
  | mark :: rest =>
      if '1' ≤ mark ∧ mark ≤ '9' then
        let (number, digits) := reading.groups.extendNumber (mark.toNat - '0'.toNat) rest
        reading.addReference (cursor.drop (digits + 1))
          (reading.groups.refer (.index number) number start)
      else if mark ∈ ['b', 'B', 'A', 'Z', 'z'] then reading.addUnit .empty (cursor.drop 1)
      else if mark = 'R' then reading.addUnit .lineBreak (cursor.drop 1)
      else if mark = 'k' then reading.readNamedReference start (cursor.drop 1)
      else
        match (Reader.readEscape start mark).run (cursor.drop 1) with
        | .ok (escape, cursor) => reading.addEscape escape cursor
        | .error located => .error located

/-- Read a bracket expression at `start`, behind its bracket. -/
def readSet (reading : Reading) (start : Nat) (cursor : Cursor) : Except Located Reading :=
  match readBracket reading.flags cursor with
  | .ok (members, cursor) =>
      { reading with groups := reading.groups.noteSet members start }.addUnit (.set members) cursor
  | .error located => .error located

/-- Go on after the character `c` at `start`, with the cursor behind it. -/
def advance (reading : Reading) (c : Char) (start : Nat) (cursor : Cursor) :
    Except Located Reading :=
  match c with
  | '|' => .ok { reading with cursor, level := reading.level.nextBranch }
  | ')' => reading.closeGroup start cursor
  | '(' => reading.openGroup start cursor
  | '[' => reading.readSet start cursor
  | '\\' => reading.readEscape start cursor
  | '{' => reading.addEmptyRepetition start cursor
  | '.' => reading.addUnit (.set reading.flags.dot) cursor
  | '^' | '$' => reading.addUnit .empty cursor
  | '*' | '+' | '?' => .error ⟨.danglingMark c, start⟩
  | c => reading.addUnit (reading.text [c]) cursor

/-- Read one unit, or open or close a group, or finish at the end of the pattern. -/
def step (reading : Reading) : Except Located ReadingStep :=
  let cursor := reading.cursor.skip reading.flags.comments
  match cursor.rest with
  | [] =>
      if reading.frames.isEmpty then .ok (.done reading.level.tree reading.groups)
      else .error ⟨.unclosedGroup, cursor.position⟩
  | c :: rest =>
      (reading.advance c cursor.position ⟨rest, cursor.position + 1⟩).map .more

/-! ## Every step takes a character -/

/-- Adding a unit gives no characters back. -/
theorem addUnit_le {reading next : Reading} {unit : Regex} {cursor : Cursor}
    (h : reading.addUnit unit cursor = .ok next) :
    next.cursor.rest.length ≤ cursor.rest.length := by
  unfold addUnit at h
  cases hrun : (Reader.quantifier? reading.flags.comments).run cursor with
  | error located => rw [hrun] at h; cases h
  | ok outcome =>
    rw [hrun] at h
    cases h
    exact (Reader.Advances.quantifier? _).rest_length_le hrun

/-- Adding a repetition of the empty string gives no characters back. -/
theorem addEmptyRepetition_le {reading next : Reading} {start : Nat} {cursor : Cursor}
    (h : reading.addEmptyRepetition start cursor = .ok next) :
    next.cursor.rest.length ≤ cursor.rest.length := by
  unfold addEmptyRepetition at h
  cases hrun : (Reader.quantifier reading.flags.comments '{' start).run cursor with
  | error located => rw [hrun] at h; cases h
  | ok outcome =>
    rw [hrun] at h
    cases h
    exact (Reader.Advances.quantifier ..).rest_length_le hrun

/-- Moving on by some characters gives none back. -/
theorem drop_le (cursor : Cursor) (count : Nat) :
    (cursor.drop count).rest.length ≤ cursor.rest.length := by
  simp [Cursor.drop]

/-- Entering a capturing group takes no characters. -/
theorem enterCapture_cursor {reading next : Reading} {name : Option String} {start : Nat}
    {cursor : Cursor} (h : reading.enterCapture name start cursor = .ok next) :
    next.cursor = cursor := by
  unfold enterCapture at h
  cases hopen : reading.groups.openCapture name start with
  | error located => rw [hopen] at h; cases h
  | ok outcome =>
    rw [hopen] at h
    cases h
    rfl

/-- Reading flags gives no characters back. -/
theorem readFlags_le {clearing : Bool} {flags : Flags} {rest : List Char} {position : Nat}
    {outcome : Flags × Bool × Cursor} (h : readFlags clearing flags rest position = .ok outcome) :
    outcome.2.2.rest.length ≤ rest.length := by
  fun_induction readFlags clearing flags rest position with
  | case1 => cases h
  | case2 => cases h; exact Nat.le_succ _
  | case3 => cases h; exact Nat.le_succ _
  | case4 => rename_i ih; exact Nat.le_succ_of_le (ih h)
  | case5 => cases h
  | case6 => rename_i ih; exact Nat.le_succ_of_le (ih h)
  | case7 => cases h

/-- Switching flags gives no characters back. -/
theorem switchFlags_le {reading next : Reading} {start : Nat} {cursor : Cursor}
    (h : reading.switchFlags start cursor = .ok next) :
    next.cursor.rest.length ≤ cursor.rest.length := by
  unfold switchFlags at h
  cases hread : readFlags false reading.flags cursor.rest cursor.position with
  | error located => rw [hread] at h; cases h
  | ok outcome =>
    have hle := readFlags_le hread
    obtain ⟨flags, hasBody, after⟩ := outcome
    rw [hread] at h
    cases h
    cases hasBody <;> exact hle

/-- Opening a group with a question mark gives no characters back. -/
theorem openMarked_le {reading next : Reading} {start : Nat} {cursor : Cursor}
    (h : reading.openMarked start cursor = .ok next) :
    next.cursor.rest.length ≤ cursor.rest.length := by
  unfold openMarked at h
  split at h
  · cases h; exact drop_le ..
  · cases h; exact drop_le ..
  · cases h; exact drop_le ..
  · cases h; exact drop_le ..
  · cases h; exact drop_le ..
  · cases h; exact drop_le ..
  · split at h
    · rename_i name after hname
      rw [enterCapture_cursor h]
      exact Nat.le_trans (Reader.Advances.groupName.rest_length_le hname) (drop_le ..)
    · cases h
  · split at h
    · exact switchFlags_le h
    · cases h
  · cases h

/-- Opening a group gives no characters back. -/
theorem openGroup_le {reading next : Reading} {start : Nat} {cursor : Cursor}
    (h : reading.openGroup start cursor = .ok next) :
    next.cursor.rest.length ≤ cursor.rest.length := by
  unfold openGroup at h
  split at h
  · exact Nat.le_trans (openMarked_le h) (drop_le ..)
  · exact Nat.le_of_eq (congrArg (·.rest.length) (enterCapture_cursor h))

/-- Closing a group gives no characters back. -/
theorem closeGroup_le {reading next : Reading} {position : Nat} {cursor : Cursor}
    (h : reading.closeGroup position cursor = .ok next) :
    next.cursor.rest.length ≤ cursor.rest.length := by
  unfold closeGroup at h
  split at h
  · cases h
  · simp only at h
    split at h
    · cases h
    · exact addUnit_le h

/-- Adding a backreference gives no characters back. -/
theorem addReference_le {reading next : Reading} {cursor : Cursor}
    {reference : Except Located (Regex × Groups)}
    (h : reading.addReference cursor reference = .ok next) :
    next.cursor.rest.length ≤ cursor.rest.length := by
  unfold addReference at h
  split at h
  · cases h
  · exact addUnit_le h

/-- Adding an escape gives no characters back. -/
theorem addEscape_le {reading next : Reading} {escape : Escape} {cursor : Cursor}
    (h : reading.addEscape escape cursor = .ok next) :
    next.cursor.rest.length ≤ cursor.rest.length := by
  cases escape <;> exact addUnit_le h

/-- Reading an escape gives no characters back. -/
theorem readEscape_le {reading next : Reading} {start : Nat} {cursor : Cursor}
    (h : reading.readEscape start cursor = .ok next) :
    next.cursor.rest.length ≤ cursor.rest.length := by
  unfold readEscape at h
  split at h
  · cases h
  · split at h
    · exact Nat.le_trans (addReference_le h) (drop_le ..)
    · split at h
      · exact Nat.le_trans (addUnit_le h) (drop_le ..)
      · split at h
        · exact Nat.le_trans (addUnit_le h) (drop_le ..)
        · split at h
          · unfold readNamedReference at h
            split at h
            · split at h
              · rename_i name after hname
                refine Nat.le_trans (addReference_le h) ?_
                refine Nat.le_trans (Reader.Advances.groupName.rest_length_le hname) ?_
                exact Nat.le_trans (drop_le ..) (drop_le ..)
              · cases h
            · cases h
          · split at h
            · rename_i escape after hescape
              refine Nat.le_trans (addEscape_le h) ?_
              exact Nat.le_trans ((Reader.Advances.readEscape ..).rest_length_le hescape)
                (drop_le ..)
            · cases h

/-- Reading a bracket expression gives no characters back. -/
theorem readSet_le {reading next : Reading} {start : Nat} {cursor : Cursor}
    (h : reading.readSet start cursor = .ok next) :
    next.cursor.rest.length ≤ cursor.rest.length := by
  unfold readSet at h
  split at h
  · rename_i members after hset
    exact Nat.le_trans (addUnit_le h) (Nat.le_of_lt (readBracket_shortens hset))
  · cases h

/-- Going on after a character gives none back. -/
theorem advance_le {reading next : Reading} {c : Char} {start : Nat} {cursor : Cursor}
    (h : reading.advance c start cursor = .ok next) :
    next.cursor.rest.length ≤ cursor.rest.length := by
  unfold advance at h
  split at h
  · cases h; exact Nat.le_refl _
  · exact closeGroup_le h
  · exact openGroup_le h
  · exact readSet_le h
  · exact readEscape_le h
  · exact addEmptyRepetition_le h
  · exact addUnit_le h
  · exact addUnit_le h
  · exact addUnit_le h
  · cases h
  · cases h
  · cases h
  · exact addUnit_le h

/-- Every step takes at least one character. -/
theorem step_shortens {reading next : Reading} (h : reading.step = .ok (.more next)) :
    next.cursor.rest.length < reading.cursor.rest.length := by
  have hskip := reading.cursor.skip_rest_length_le reading.flags.comments
  unfold step at h
  simp only at h
  split at h
  · split at h <;> cases h
  · rename_i c rest hrest
    rw [hrest, List.length_cons] at hskip
    cases hadvance : reading.advance c
        (reading.cursor.skip reading.flags.comments).position
        ⟨rest, (reading.cursor.skip reading.flags.comments).position + 1⟩ with
    | error located => rw [hadvance] at h; cases h
    | ok after =>
      rw [hadvance] at h
      cases h
      exact Nat.lt_of_le_of_lt (advance_le hadvance) hskip

/-- Read on to the end of the pattern. -/
def run (reading : Reading) : Except Located (Regex × Groups) :=
  match _h : reading.step with
  | .error located => .error located
  | .ok (.done tree groups) => .ok (tree, groups)
  | .ok (.more next) => next.run
termination_by reading.cursor.rest.length
decreasing_by exact step_shortens _h

end Reading

/-- Read a pattern, or say why and where it is refused. -/
def Regex.parse (pattern : List Char) (flags : Flags) : Except Located Regex := do
  if flags.literal then return .ofText pattern flags.ignoreCase
  let (tree, groups) ← (Reading.start pattern flags).run
  groups.check tree
  match tree.prune with
  | some tree => return tree
  | none => throw ⟨.impossible, groups.firstEmptySet.getD 0⟩

end Exemplar
