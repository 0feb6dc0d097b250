import Exemplar.CharSet.Builder
import Exemplar.Flags
import Exemplar.Grammar.Escape

/-!
# Bracket expressions

A bracket expression denotes a set. It consists of operands between double ampersands, whose
members are intersected, and each operand lists characters, ranges, escapes and nested bracket
expressions. A caret after the bracket takes the complement of the whole.

The expressions that are open at some point form a stack. `BracketStep` is what one item of the
innermost one does to it, and `readBracket` reads items until the outermost expression is closed. It
ends because every item takes at least one character (`readItem_shortens`).
-/

namespace Exemplar

/-- The case maps for listed characters under the given flags. -/
def Flags.folding (flags : Flags) : CaseFolding :=
  if flags.ignoreCase then (if flags.unicodeCase then .unicode else .ascii) else .none

/-- A bracket expression that is open. `negated` says whether the complement of the whole is taken,
and `operands` is the intersection of the complete operands that list something. `current` is what
the current operand lists, and `listed` says whether that is anything. As long as nothing was read,
`first` holds, and a closing bracket is a member. -/
structure Bracket where
  negated : Bool
  operands : Option CharSet
  current : CharSet.Builder
  listed : Bool
  first : Bool

namespace Bracket

/-- The bracket expression behind its opening bracket. -/
def opened (folding : CaseFolding) (negated : Bool) : Bracket :=
  ⟨negated, none, .start folding, false, true⟩

/-- The intersection of the operands up to the current one. -/
def intersection (bracket : Bracket) : Option CharSet :=
  if bracket.listed then
    match bracket.operands with
    | some operands => some (operands ∩ bracket.current.build)
    | none => some bracket.current.build
  else bracket.operands

/-- The set of the bracket expression when it is closed. -/
def result (bracket : Bracket) : CharSet :=
  let members := bracket.intersection.getD .empty
  if bracket.negated then members.negate else members

/-- Begin the next operand. -/
def nextOperand (bracket : Bracket) : Bracket :=
  { bracket with
    operands := bracket.intersection
    current := .start bracket.current.folding
    listed := false
    first := false }

/-- Go on after an item of the current operand. -/
def listing (bracket : Bracket) (current : CharSet.Builder) : Bracket :=
  { bracket with current, listed := true, first := false }

end Bracket

namespace Reader

/-- A character that a set can hold. -/
def member (c : Char) (position : Nat) : Reader Char :=
  if CharSet.canHold c then return c else fail .supplementaryMember position

/-- Read the end of a range behind its hyphen, if there is one. -/
def rangeEnd (comments : Bool) : Reader (Option Char) := do
  let start ← position
  skip comments
  match ← peek? with
  | none | some ']' => return none
  | some '[' => fail .badRange start
  | some '\\' =>
      modify (·.drop 1)
      match ← next? with
      | none => fail .trailingBackslash start
      | some mark =>
          match ← readEscape start mark with
          | .char last => return some (← member last start)
          | _ => fail .badRange start
  | some last =>
      modify (·.drop 1)
      return some (← member last start)

/-- List a character, or the range that begins with it. A hyphen at the end of the expression is a
member. -/
def listRange (comments : Bool) (builder : CharSet.Builder) (c : Char) (start : Nat) :
    Reader CharSet.Builder := do
  let first ← member c start
  skip comments
  if ← eat '-' then
    let stop ← position
    match ← rangeEnd comments with
    | none => return (builder.addChar first).addChar '-'
    | some last => if last < first then fail .badRange stop else return builder.addRange first last
  else return builder.addChar first

/-- List the characters of a quotation. The last one may begin a range. -/
def listQuotation (comments : Bool) (start : Nat) :
    List Char → CharSet.Builder → Reader CharSet.Builder
  | [], builder => return builder
  | [last], builder => listRange comments builder last start
  | c :: rest, builder => do
      let c ← member c start
      listQuotation comments start rest (builder.addChar c)

/-- List what an escape stands for, behind its backslash at `start`. -/
def listEscape (comments : Bool) (builder : CharSet.Builder) (start : Nat) :
    Reader CharSet.Builder := do
  match ← next? with
  | none => fail .trailingBackslash start
  | some mark =>
      match ← readEscape start mark with
      | .char c => listRange comments builder c start
      | .set members => return builder.addSet members
      | .quoted text => listQuotation comments start text builder

namespace Advances

/-- Checking a member takes no characters. -/
theorem member (c : Char) (position : Nat) : Advances (Reader.member c position) := by
  unfold Reader.member
  split
  · exact pure _
  · exact fail ..

/-- Reading the end of a range. -/
theorem rangeEnd (comments : Bool) : Advances (Reader.rangeEnd comments) := by
  refine position.bind fun start ↦ (skip comments).bind fun _ ↦ peek?.bind fun c ↦ ?_
  split
  · exact pure _
  · exact pure _
  · exact fail ..
  · refine (drop 1).bind fun _ ↦ next?.bind fun c ↦ ?_
    split
    · exact fail ..
    · refine (readEscape ..).bind fun escape ↦ ?_
      split
      · exact (member ..).bind fun _ ↦ pure _
      · exact fail ..
  · exact (drop 1).bind fun _ ↦ (member ..).bind fun _ ↦ pure _

/-- Listing a character or a range. -/
theorem listRange (comments : Bool) (builder : CharSet.Builder) (c : Char) (start : Nat) :
    Advances (Reader.listRange comments builder c start) := by
  refine (member ..).bind fun first ↦ (skip comments).bind fun _ ↦
    (eat '-').bind fun hyphen ↦ ?_
  split
  · refine position.bind fun stop ↦ (rangeEnd comments).bind fun last ↦ ?_
    split
    · exact pure _
    · split
      · exact fail ..
      · exact pure _
  · exact pure _

/-- Listing a quotation. -/
theorem listQuotation (comments : Bool) (start : Nat) (text : List Char)
    (builder : CharSet.Builder) : Advances (Reader.listQuotation comments start text builder) := by
  fun_induction Reader.listQuotation comments start text builder with
  | case1 => exact pure _
  | case2 => exact listRange ..
  | case3 builder c rest _ ih => exact (member ..).bind fun c ↦ ih c

/-- Listing an escape. -/
theorem listEscape (comments : Bool) (builder : CharSet.Builder) (start : Nat) :
    Advances (Reader.listEscape comments builder start) := by
  refine next?.bind fun c ↦ ?_
  split
  · exact fail ..
  · refine (readEscape ..).bind fun escape ↦ ?_
    split
    · exact listRange ..
    · exact pure _
    · exact listQuotation ..

end Advances

end Reader

/-- What one item of a bracket expression leads to. There is more to read in an open expression,
within enclosing ones, or the outermost expression is closed. -/
inductive BracketStep where
  | more (bracket : Bracket) (enclosing : List Bracket) (cursor : Cursor)
  | closed (members : CharSet) (cursor : Cursor)

/-- Where the next item begins. -/
def BracketStep.cursor : BracketStep → Cursor
  | more _ _ cursor | closed _ cursor => cursor

namespace Bracket

/-- A bracket expression behind its opening bracket, and the cursor behind a caret. -/
def openAt (folding : CaseFolding) (cursor : Cursor) : Bracket × Cursor :=
  if cursor.rest.head? = some '^' then (opened folding true, cursor.drop 1)
  else (opened folding false, cursor)

/-- Close the innermost expression and go on behind it. -/
def close (bracket : Bracket) (enclosing : List Bracket) (cursor : Cursor) : BracketStep :=
  match enclosing with
  | [] => .closed bracket.result cursor
  | outer :: enclosing =>
      .more (outer.listing (outer.current.addSet bracket.result)) enclosing cursor

/-- Go on after characters were listed. -/
def goOn (bracket : Bracket) (enclosing : List Bracket) (listed : CharSet.Builder × Cursor) :
    BracketStep :=
  .more (bracket.listing listed.1) enclosing listed.2

/-- Read one item of the innermost expression. -/
def readItem (comments : Bool) (bracket : Bracket) (enclosing : List Bracket) (cursor : Cursor) :
    Except Located BracketStep :=
  match (cursor.skip comments).rest with
  | [] => .error ⟨.unclosedSet, (cursor.skip comments).position⟩
  | c :: rest =>
      let start := (cursor.skip comments).position
      let after : Cursor := ⟨rest, start + 1⟩
      -- A closing bracket that comes first is a member.
      if c = ']' ∧ bracket.first = false then .ok (bracket.close enclosing after)
      else if c = '[' then
        let (inner, cursor) := openAt bracket.current.folding after
        .ok (.more inner (bracket :: enclosing) cursor)
      else if c = '&' ∧ rest.head? = some '&' then
        .ok (.more bracket.nextOperand enclosing (after.drop 1))
      else if c = '\\' then
        ((Reader.listEscape comments bracket.current start).run after).map (bracket.goOn enclosing)
      else
        ((Reader.listRange comments bracket.current c start).run after).map
          (bracket.goOn enclosing)

/-- An opening bracket gives no characters back. -/
theorem openAt_rest_length_le (folding : CaseFolding) (cursor : Cursor) :
    (openAt folding cursor).2.rest.length ≤ cursor.rest.length := by
  unfold openAt
  split <;> simp [Cursor.drop]

/-- Closing an expression takes no characters. -/
theorem close_cursor (bracket : Bracket) (enclosing : List Bracket) (cursor : Cursor) :
    (bracket.close enclosing cursor).cursor = cursor := by
  cases enclosing <;> rfl

/-- Every item takes at least one character. -/
theorem readItem_shortens {comments : Bool} {bracket : Bracket} {enclosing : List Bracket}
    {cursor : Cursor} {step : BracketStep}
    (h : bracket.readItem comments enclosing cursor = .ok step) :
    step.cursor.rest.length < cursor.rest.length := by
  have hskip := cursor.skip_rest_length_le comments
  unfold readItem at h
  split at h
  · cases h
  · rename_i c rest hrest
    rw [hrest, List.length_cons] at hskip
    have hread {reader : Reader CharSet.Builder} {after : Cursor} (hadvances : reader.Advances)
        (hafter : after.rest = rest)
        (h : (reader.run after).map (bracket.goOn enclosing) = .ok step) :
        step.cursor.rest.length < cursor.rest.length := by
      cases hrun : reader.run after with
      | error located => rw [hrun] at h; cases h
      | ok listed =>
        rw [hrun] at h
        cases h
        have := hadvances.rest_length_le hrun
        rw [hafter] at this
        exact Nat.lt_of_lt_of_le (Nat.lt_succ_of_le this) hskip
    simp only at h
    split at h
    · cases h
      rw [close_cursor]
      exact hskip
    · split at h
      · cases h
        exact Nat.lt_of_le_of_lt (openAt_rest_length_le ..) hskip
      · split at h
        · cases h
          exact Nat.lt_of_le_of_lt (by simp [Cursor.drop, BracketStep.cursor]) hskip
        · split at h
          · exact hread (.listEscape ..) rfl h
          · exact hread (.listRange ..) rfl h

/-- Read items until the outermost expression is closed. -/
def readItems (comments : Bool) (bracket : Bracket) (enclosing : List Bracket) (cursor : Cursor) :
    Except Located (CharSet × Cursor) :=
  match _h : bracket.readItem comments enclosing cursor with
  | .error located => .error located
  | .ok (.closed members next) => .ok (members, next)
  | .ok (.more inner enclosing next) => inner.readItems comments enclosing next
termination_by cursor.rest.length
decreasing_by exact readItem_shortens _h

/-- Reading a bracket expression takes at least one character. -/
theorem readItems_shortens {comments : Bool} {bracket : Bracket} {enclosing : List Bracket}
    {cursor next : Cursor} {members : CharSet}
    (h : bracket.readItems comments enclosing cursor = .ok (members, next)) :
    next.rest.length < cursor.rest.length := by
  fun_induction bracket.readItems comments enclosing cursor with
  | case1 => cases h
  | case2 bracket enclosing cursor members' next' hitem =>
    cases h
    exact readItem_shortens hitem
  | case3 bracket enclosing cursor inner enclosing' next' hitem ih =>
    exact Nat.lt_trans (ih h) (readItem_shortens hitem)

end Bracket

/-- Read a bracket expression behind its opening bracket. -/
def readBracket (flags : Flags) (cursor : Cursor) : Except Located (CharSet × Cursor) :=
  let (bracket, cursor) := Bracket.openAt flags.folding cursor
  bracket.readItems flags.comments [] cursor

/-- Reading a bracket expression takes at least one character. -/
theorem readBracket_shortens {flags : Flags} {cursor next : Cursor} {members : CharSet}
    (h : readBracket flags cursor = .ok (members, next)) :
    next.rest.length < cursor.rest.length :=
  Nat.lt_of_lt_of_le (Bracket.readItems_shortens h) (Bracket.openAt_rest_length_le ..)

end Exemplar
