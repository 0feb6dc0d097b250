import Exemplar.Grammar.Bracket
import Exemplar.Grammar.Groups
import Exemplar.Grammar.Quantifier

/-!
# Positions of readers

While a pattern is read, the cursor stands in the text: what is left is the text behind its position
(`Cursor.On`). Every reader keeps it there, and every reader that refuses the pattern does so at a
position of the text or behind its last character (`StaysIn`). So does the reading of bracket
expressions (`on_readBracket`).
-/

namespace Exemplar

variable {σ α β : Type} {text : List Char}

/-! ## Cursors -/

namespace Cursor

/-- The cursor stands in the text: what is left is the text behind its position. -/
structure On (cursor : Cursor) (text : List Char) : Prop where
  position_le : cursor.position ≤ text.length
  rest_eq : cursor.rest = text.drop cursor.position

namespace On

variable {cursor next : Cursor} {c : Char} {rest : List Char} {position : Nat}

/-- The cursor at the start of a text stands in it. -/
theorem start (text : List Char) : (Cursor.start text).On text :=
  ⟨Nat.zero_le _, rfl⟩

/-- The characters before the cursor and those that are left are all characters of the text. -/
theorem length_eq (h : cursor.On text) : cursor.position + cursor.rest.length = text.length := by
  rw [h.rest_eq, List.length_drop]
  exact Nat.add_sub_cancel' h.position_le

/-- The cursor moves on by characters that are left. -/
theorem drop (h : cursor.On text) (count : Nat) (hle : count ≤ cursor.rest.length) :
    (cursor.drop count).On text where
  position_le := by
    have hlength := h.length_eq
    show cursor.position + count ≤ text.length
    omega
  rest_eq := by
    show cursor.rest.drop count = text.drop (cursor.position + count)
    rw [h.rest_eq, List.drop_drop]

/-- The cursor moves on by one character. -/
theorem tail (h : (Cursor.mk (c :: rest) position).On text) :
    (Cursor.mk rest (position + 1)).On text :=
  h.drop 1 (by simp)

/-- The cursor moves on by one character, if that is the next one. -/
theorem drop_one (h : cursor.On text) (hnext : cursor.rest.head? = some c) :
    (cursor.drop 1).On text := by
  refine h.drop 1 ?_
  obtain ⟨rest, hrest⟩ := List.head?_eq_some_iff.1 hnext
  simp [hrest]

/-- A cursor with fewer characters left stands further on in the text. -/
theorem position_lt (h : cursor.On text) (hnext : next.On text)
    (hlt : next.rest.length < cursor.rest.length) : cursor.position < next.position := by
  have hlength := h.length_eq
  have hlength' := hnext.length_eq
  omega

/-- Skipping stays in the text. -/
theorem skipFrom {comments inComment : Bool} (h : (Cursor.mk rest position).On text) :
    (Cursor.skipFrom comments inComment rest position).On text := by
  fun_induction Cursor.skipFrom comments inComment rest position with
  | case1 => exact h
  | case2 c rest position ih => exact ih h.tail
  | case3 rest position ih => exact ih (h.drop 4 (by simp))
  | case4 c rest position _ _ ih => exact ih h.tail
  | case5 c rest position _ _ _ ih => exact ih h.tail
  | case6 => exact h
  | case7 => exact h

/-- Skipping stays in the text. -/
theorem skip (h : cursor.On text) (comments : Bool) : (cursor.skip comments).On text :=
  h.skipFrom

end On

/-- Every cursor stands in some text. -/
theorem on_replicate (cursor : Cursor) :
    cursor.On (List.replicate cursor.position ' ' ++ cursor.rest) where
  position_le := by simp
  rest_eq := by
    rw [List.drop_left' (List.length_replicate)]

end Cursor

/-! ## Readers -/

/-- The outcome stands in the text: a result has the property, and a refusal is at a position of the
text or behind its last character. -/
def OutcomeIn (text : List Char) (property : α → Prop) : Except Located α → Prop
  | .ok value => property value
  | .error located => located.position ≤ text.length

namespace OutcomeIn

variable {property : α → Prop} {other : β → Prop} {outcome : Except Located α}

/-- A result has the property. -/
theorem ok (h : OutcomeIn text property outcome) {value : α} (heq : outcome = .ok value) :
    property value := by
  rwa [heq] at h

/-- A refusal is in the text. -/
theorem error (h : OutcomeIn text property outcome) {located : Located}
    (heq : outcome = .error located) : located.position ≤ text.length := by
  rwa [heq] at h

/-- A function may be applied to the result. -/
theorem map (h : OutcomeIn text property outcome) {f : α → β}
    (himp : ∀ value, property value → other (f value)) :
    OutcomeIn text other (outcome.map f) := by
  cases outcome with
  | ok value => exact himp value h
  | error located => exact h

end OutcomeIn

/-- A step that is taken from the state leaves a state with the property, or is refused in the
text. -/
def StaysFrom (text : List Char) (property : σ → Prop) (state : σ)
    (step : StateT σ (Except Located) α) : Prop :=
  OutcomeIn text (fun outcome ↦ property outcome.2) (step.run state)

/-- From every state with the property, a step leaves a state with the property, or is refused in
the text. -/
def StaysIn (text : List Char) (property : σ → Prop)
    (step : StateT σ (Except Located) α) : Prop :=
  ∀ ⦃state⦄, property state → StaysFrom text property state step

namespace StaysFrom

variable {property : σ → Prop} {state : σ}

/-- A step that goes on from where another one leads. -/
theorem bind {step : StateT σ (Except Located) α}
    {continuation : α → StateT σ (Except Located) β}
    (hstep : StaysFrom text property state step)
    (h : ∀ value next, property next → StaysFrom text property next (continuation value)) :
    StaysFrom text property state (step >>= continuation) := by
  unfold StaysFrom at hstep ⊢
  rw [StateT.run_bind]
  cases hrun : step.run state with
  | error located =>
    rw [hrun] at hstep
    exact hstep
  | ok outcome =>
    rw [hrun] at hstep
    exact h outcome.1 outcome.2 hstep

/-- A change of the state that goes on. -/
theorem modify {move : σ → σ} {continuation : Unit → StateT σ (Except Located) β}
    (hmove : property (move state)) (h : StaysIn text property (continuation ())) :
    StaysFrom text property state (modify move >>= continuation) :=
  h hmove

end StaysFrom

namespace StaysIn

variable {property : σ → Prop}

/-- A result changes nothing. -/
theorem pure (value : α) :
    StaysIn text property (Pure.pure value : StateT σ (Except Located) α) :=
  fun _ h ↦ h

/-- A refusal in the text. -/
theorem throw (fault : Fault) {position : Nat} (h : position ≤ text.length) :
    StaysIn text property
      (MonadExcept.throw ⟨fault, position⟩ : StateT σ (Except Located) α) :=
  fun _ _ ↦ h

/-- A step that goes on behind another one. -/
theorem bind {step : StateT σ (Except Located) α}
    {continuation : α → StateT σ (Except Located) β} (hstep : StaysIn text property step)
    (h : ∀ value, StaysIn text property (continuation value)) :
    StaysIn text property (step >>= continuation) :=
  fun _ hstate ↦ (hstep hstate).bind fun value _ hnext ↦ h value hnext

/-- Looking at the state changes nothing. -/
theorem get {continuation : σ → StateT σ (Except Located) β}
    (h : ∀ state, property state → StaysFrom text property state (continuation state)) :
    StaysIn text property (MonadState.get >>= continuation) :=
  fun state hstate ↦ h state hstate

end StaysIn

namespace Reader

/-- The reader keeps the cursor in the text, and it refuses the text only at a position of it. -/
abbrev Stays (text : List Char) (reader : Reader α) : Prop :=
  StaysIn text (·.On text) reader

namespace Stays

/-- A refusal in the text. -/
theorem fail (fault : Fault) {position : Nat} (h : position ≤ text.length) :
    Stays text (Reader.fail fault position : Reader α) :=
  .throw fault h

/-- The position of the cursor is in the text. -/
theorem position {continuation : Nat → Reader β}
    (h : ∀ position ≤ text.length, Stays text (continuation position)) :
    Stays text (Reader.position >>= continuation) :=
  fun cursor hcursor ↦ h cursor.position hcursor.position_le hcursor

/-- Looking at the next character changes nothing, and it is left. -/
theorem peek? {continuation : Option Char → Reader β}
    (h : ∀ cursor, cursor.On text →
      StaysFrom text (·.On text) cursor (continuation cursor.rest.head?)) :
    Stays text (Reader.peek? >>= continuation) :=
  fun cursor hcursor ↦ h cursor hcursor

/-- Taking the next character. -/
theorem next? : Stays text Reader.next? := by
  refine .get fun cursor hcursor ↦ ?_
  split
  · exact hcursor
  · rename_i c rest hrest
    exact hcursor.drop_one (c := c) (by simp [hrest])

/-- Taking the next character if it is the given one. -/
theorem eat (expected : Char) : Stays text (Reader.eat expected) := by
  refine peek? fun cursor hcursor ↦ ?_
  split
  · rename_i hnext
    exact hcursor.drop_one hnext
  · exact hcursor

/-- Taking a run of characters. -/
theorem takeWhile (accepts : Char → Bool) : Stays text (Reader.takeWhile accepts) := by
  refine .get fun cursor hcursor ↦ ?_
  exact hcursor.drop _ (List.takeWhile_prefix accepts).length_le

/-- Moving on to the next character that counts. -/
theorem skip (comments : Bool) : Stays text (Reader.skip comments) :=
  fun _ hcursor ↦ hcursor.skip comments

/-! ### Escapes -/

variable {start : Nat}

/-- The character of a code point. -/
theorem character (hstart : start ≤ text.length) (code : Nat) :
    Stays text (Reader.character code start) := by
  unfold Reader.character
  split
  · exact .pure _
  · exact fail _ hstart

/-- Taking hexadecimal digits. -/
theorem hexadecimal (hstart : start ≤ text.length) (count value : Nat) :
    Stays text (Reader.hexadecimal start count value) := by
  induction count generalizing value with
  | zero => exact .pure _
  | succ count ih =>
    refine next?.bind fun c ↦ ?_
    split
    · exact ih _
    · exact fail _ hstart

/-- Taking octal digits. -/
theorem octal (hstart : start ≤ text.length) : Stays text (Reader.octal start) := by
  refine .get fun cursor hcursor ↦ ?_
  split
  · exact fail _ hstart hcursor
  · rename_i first more htaken
    refine .modify (hcursor.drop _ ?_) (character hstart _)
    -- At most three of the digits that follow are taken.
    have hle := (List.takeWhile_prefix (l := cursor.rest) (Escape.isDigit 8)).length_le
    rw [htaken, List.length_cons] at hle
    rw [List.length_cons, List.length_take]
    omega

/-- Taking a hexadecimal escape. -/
theorem hexadecimalEscape (hstart : start ≤ text.length) :
    Stays text (Reader.hexadecimalEscape start) := by
  refine (eat _).bind fun inBraces ↦ ?_
  split
  · refine (takeWhile _).bind fun digits ↦ ?_
    split
    · exact fail _ hstart
    · split
      · exact fail _ hstart
      · refine next?.bind fun c ↦ ?_
        split
        · exact character hstart _
        · exact fail _ hstart
  · exact (hexadecimal hstart ..).bind fun _ ↦ character hstart _

/-- Taking a Unicode escape. -/
theorem unicodeEscape (hstart : start ≤ text.length) :
    Stays text (Reader.unicodeEscape start) := by
  refine (hexadecimal hstart ..).bind fun high ↦ .get fun cursor hcursor ↦ ?_
  split
  · rename_i rest _ hrest
    refine .modify (hcursor.drop 2 (by simp [hrest])) ((hexadecimal hstart ..).bind fun low ↦ ?_)
    split
    · exact character hstart _
    · exact fail _ hstart
  · exact character hstart _ hcursor

/-- Taking a control escape. -/
theorem controlEscape (hstart : start ≤ text.length) :
    Stays text (Reader.controlEscape start) := by
  refine next?.bind fun c ↦ ?_
  split
  · exact .pure _
  · exact fail _ hstart

/-- Taking a property name. -/
theorem propertyName (hstart : start ≤ text.length) : Stays text (Reader.propertyName start) := by
  refine next?.bind fun c ↦ ?_
  split
  · refine (takeWhile _).bind fun name ↦ next?.bind fun c ↦ ?_
    split
    · exact .pure _
    · exact fail _ hstart
  · exact .pure _
  · exact fail _ hstart

/-- Taking a property. -/
theorem property (hstart : start ≤ text.length) : Stays text (Reader.property start) := by
  refine (propertyName hstart).bind fun name ↦ ?_
  split
  · exact .pure _
  · exact fail _ hstart

/-- A quotation ends in the text. -/
theorem quotation_le (rest : List Char) : (Escape.quotation rest).2 ≤ rest.length := by
  fun_induction Escape.quotation rest with
  | case1 => simp
  | case2 c rest _ taken count hquotation ih =>
    rw [hquotation] at ih
    exact Nat.succ_le_succ ih
  | case3 => exact Nat.le_refl _

/-- Taking a quotation. -/
theorem quotedText : Stays text Reader.quotedText :=
  .get fun _ hcursor ↦ hcursor.drop _ (quotation_le _)

/-- Reading an escape. -/
theorem readEscape (hstart : start ≤ text.length) (mark : Char) :
    Stays text (Reader.readEscape start mark) := by
  unfold Reader.readEscape
  split
  · exact .pure _
  · split
    · exact .pure _
    · split
      · exact (octal hstart).bind fun _ ↦ .pure _
      · exact (controlEscape hstart).bind fun _ ↦ .pure _
      · exact (hexadecimalEscape hstart).bind fun _ ↦ .pure _
      · exact (unicodeEscape hstart).bind fun _ ↦ .pure _
      · exact (property hstart).bind fun _ ↦ .pure _
      · exact (property hstart).bind fun _ ↦ .pure _
      · exact quotedText.bind fun _ ↦ .pure _
      · exact fail _ hstart
      · exact fail _ hstart
      · exact fail _ hstart
      · split
        · exact fail _ hstart
        · exact .pure _

/-! ### Bracket expressions -/

/-- Checking a member. -/
theorem member (hstart : start ≤ text.length) (c : Char) :
    Stays text (Reader.member c start) := by
  unfold Reader.member
  split
  · exact .pure _
  · exact fail _ hstart

/-- Reading the end of a range. -/
theorem rangeEnd (comments : Bool) : Stays text (Reader.rangeEnd comments) := by
  refine position fun start hstart ↦ (skip comments).bind fun _ ↦
    peek? fun cursor hcursor ↦ ?_
  split
  · exact hcursor
  · exact hcursor
  · exact fail _ hstart hcursor
  · rename_i hnext
    refine .modify (hcursor.drop_one hnext) (next?.bind fun mark ↦ ?_)
    split
    · exact fail _ hstart
    · refine (readEscape hstart _).bind fun escape ↦ ?_
      split
      · exact (member hstart _).bind fun _ ↦ .pure _
      · exact fail _ hstart
  · rename_i hnext
    exact .modify (hcursor.drop_one hnext) ((member hstart _).bind fun _ ↦ .pure _)

/-- Listing a character or a range. -/
theorem listRange (hstart : start ≤ text.length) (comments : Bool) (builder : CharSet.Builder)
    (c : Char) : Stays text (Reader.listRange comments builder c start) := by
  refine (member hstart c).bind fun first ↦ (skip comments).bind fun _ ↦
    (eat '-').bind fun hyphen ↦ ?_
  split
  · refine position fun stop hstop ↦ (rangeEnd comments).bind fun last ↦ ?_
    split
    · exact .pure _
    · split
      · exact fail _ hstop
      · exact .pure _
  · exact .pure _

/-- Listing a quotation. -/
theorem listQuotation (hstart : start ≤ text.length) (comments : Bool) (quoted : List Char)
    (builder : CharSet.Builder) :
    Stays text (Reader.listQuotation comments start quoted builder) := by
  fun_induction Reader.listQuotation comments start quoted builder with
  | case1 => exact .pure _
  | case2 => exact listRange hstart ..
  | case3 builder c rest _ ih => exact (member hstart _).bind fun c ↦ ih c

/-- Listing an escape. -/
theorem listEscape (hstart : start ≤ text.length) (comments : Bool) (builder : CharSet.Builder) :
    Stays text (Reader.listEscape comments builder start) := by
  refine next?.bind fun mark ↦ ?_
  split
  · exact fail _ hstart
  · refine (readEscape hstart _).bind fun escape ↦ ?_
    split
    · exact listRange hstart ..
    · exact .pure _
    · exact listQuotation hstart ..

/-! ### Repetition marks and names -/

/-- Taking a count. -/
theorem count : Stays text Reader.count := by
  refine position fun start hstart ↦ (takeWhile _).bind fun digits ↦ ?_
  split
  · exact fail _ hstart
  · split
    · exact .pure _
    · exact .pure _

/-- Reading the largest count. -/
theorem upperCount (least : Nat) : Stays text (Reader.upperCount least) := by
  refine (eat ',').bind fun comma ↦ ?_
  split
  · refine count.bind fun most ↦ ?_
    split
    · exact .pure _
    · exact .pure _
  · exact .pure _

/-- Reading counts in braces. -/
theorem counts (hstart : start ≤ text.length) : Stays text (Reader.counts start) := by
  refine count.bind fun least ↦ ?_
  split
  · exact fail _ hstart
  · refine (upperCount _).bind fun most ↦ (eat _).bind fun brace ↦ ?_
    split
    · split
      · exact .pure _
      · exact fail _ hstart
    · exact position fun stop hstop ↦ fail _ hstop

/-- Reading how often a unit is repeated. -/
theorem copies (hstart : start ≤ text.length) (mark : Char) :
    Stays text (Reader.copies mark start) := by
  unfold Reader.copies
  split
  · exact .pure _
  · exact .pure _
  · exact .pure _
  · exact counts hstart

/-- Reading the mode of a repetition. -/
theorem mode (comments : Bool) : Stays text (Reader.mode comments) := by
  refine (skip comments).bind fun _ ↦ (eat _).bind fun reluctant ↦ ?_
  split
  · exact .pure _
  · refine (eat _).bind fun possessive ↦ ?_
    split
    · exact .pure _
    · exact .pure _

/-- Reading a repetition. -/
theorem quantifier (hstart : start ≤ text.length) (comments : Bool) (mark : Char) :
    Stays text (Reader.quantifier comments mark start) :=
  (copies hstart mark).bind fun _ ↦ (mode comments).bind fun _ ↦ .pure _

/-- Reading a repetition, if there is one. -/
theorem quantifier? (comments : Bool) : Stays text (Reader.quantifier? comments) := by
  refine (skip comments).bind fun _ ↦ position fun start hstart ↦
    peek? fun cursor hcursor ↦ ?_
  split
  · exact hcursor
  · rename_i mark hnext
    split
    · exact .modify (hcursor.drop_one hnext) ((quantifier hstart ..).bind fun _ ↦ .pure _)
    · exact hcursor

/-- Taking the name of a group. -/
theorem groupName : Stays text Reader.groupName := by
  refine position fun start hstart ↦ (takeWhile _).bind fun name ↦ ?_
  split
  · exact fail _ hstart
  · refine position fun stop hstop ↦ next?.bind fun c ↦ ?_
    split
    · exact .pure _
    · exact fail _ hstop
    · exact fail _ (by omega)

end Stays

end Reader

/-! ## Bracket expressions -/

namespace Bracket

/-- The cursor behind an opening bracket stands in the text. -/
theorem on_openAt {cursor : Cursor} (h : cursor.On text) (folding : CaseFolding) :
    (openAt folding cursor).2.On text := by
  unfold openAt
  split
  · rename_i hnext
    exact h.drop_one hnext
  · exact h

/-- Reading an item stays in the text. -/
theorem on_readItem {cursor : Cursor} (h : cursor.On text) (comments : Bool) (bracket : Bracket)
    (enclosing : List Bracket) :
    OutcomeIn text (·.cursor.On text) (bracket.readItem comments enclosing cursor) := by
  have hskip := h.skip comments
  unfold readItem
  split
  · exact hskip.position_le
  · rename_i c rest hrest
    have hafter : (Cursor.mk rest ((cursor.skip comments).position + 1)).On text := by
      have hdrop := hskip.drop_one (c := c) (by simp [hrest])
      rwa [Cursor.drop, hrest] at hdrop
    simp only
    split
    · show (bracket.close enclosing _).cursor.On text
      rw [close_cursor]
      exact hafter
    · split
      · exact on_openAt hafter _
      · split
        · rename_i hnext
          exact hafter.drop_one hnext.2
        · split
          · exact OutcomeIn.map
              (Reader.Stays.listEscape hskip.position_le comments bracket.current hafter)
                fun _ h ↦ h
          · exact OutcomeIn.map
              (Reader.Stays.listRange hskip.position_le comments bracket.current c hafter)
                fun _ h ↦ h

/-- Reading items stays in the text. -/
theorem on_readItems {cursor : Cursor} (h : cursor.On text) (comments : Bool) (bracket : Bracket)
    (enclosing : List Bracket) :
    OutcomeIn text (·.2.On text) (bracket.readItems comments enclosing cursor) := by
  fun_induction bracket.readItems comments enclosing cursor with
  | case1 bracket enclosing cursor located hitem =>
    have houtcome := on_readItem h comments bracket enclosing
    rwa [hitem] at houtcome
  | case2 bracket enclosing cursor members next hitem =>
    have houtcome := on_readItem h comments bracket enclosing
    rwa [hitem] at houtcome
  | case3 bracket enclosing cursor inner outer next hitem ih =>
    have houtcome := on_readItem h comments bracket enclosing
    rw [hitem] at houtcome
    exact ih houtcome

end Bracket

/-- Reading a bracket expression stays in the text. -/
theorem on_readBracket {cursor : Cursor} (h : cursor.On text) (flags : Flags) :
    OutcomeIn text (·.2.On text) (readBracket flags cursor) :=
  Bracket.on_readItems (Bracket.on_openAt h flags.folding) ..

end Exemplar
