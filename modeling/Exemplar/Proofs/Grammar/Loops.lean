import Exemplar.Pattern
import Exemplar.Proofs.Grammar.Located

/-!
# The loops of reading

Reading a pattern is a loop over units, in which other loops skip what does not count, take the
characters of escapes and read the items of bracket expressions. `IsLoop` says that every pass of a
loop takes at least one character and stays in the text, so there are no more passes than
characters (`IsLoop.count_le`). Each loop of the parser is one, and what it computes is found where
the last pass leads. Together with the positions of the errors this is what the parser owes to
every pattern (`Pattern.readsWithin`).
-/

namespace Exemplar

variable {σ : Type} {text : List Char}

/-! ## Passes -/

/-- So many passes lead from the one state to the other. -/
inductive Repeats (pass : σ → σ → Prop) : (count : Nat) → σ → σ → Prop
  | none (state : σ) : Repeats pass 0 state state
  | more {count : Nat} {first second last : σ} :
      pass first second → Repeats pass count second last → Repeats pass (count + 1) first last

/-- A loop makes so many passes from a state, and no pass is possible where they lead. -/
structure Loops (pass : σ → σ → Prop) (count : Nat) (state last : σ) : Prop where
  repeats : Repeats pass count state last
  stops (next : σ) : ¬ pass last next

namespace Loops

variable {pass : σ → σ → Prop} {count : Nat} {first second last : σ}

/-- A loop is left at once. -/
theorem none (h : ∀ next, ¬ pass last next) : Loops pass 0 last last :=
  ⟨.none last, h⟩

/-- A loop goes on behind its first pass. -/
theorem more (hpass : pass first second) (h : Loops pass count second last) :
    Loops pass (count + 1) first last :=
  ⟨.more hpass h.repeats, h.stops⟩

end Loops

/-- Every pass of a loop takes at least one character, and it keeps what holds of a state in the
text. -/
structure IsLoop (inText : σ → Prop) (cursor : σ → Cursor)
    (pass : σ → σ → Prop) : Prop where
  stays {state next : σ} : inText state → pass state next → inText next
  advances {state next : σ} :
    inText state → pass state next → (cursor state).position < (cursor next).position

namespace IsLoop

variable {inText : σ → Prop} {cursor : σ → Cursor} {pass : σ → σ → Prop} {count : Nat}
  {state last : σ}

/-- There are no more passes than characters that they take. -/
theorem count_le (h : IsLoop inText cursor pass) (hstate : inText state)
    (hrepeats : Repeats pass count state last) :
    inText last ∧ (cursor state).position + count ≤ (cursor last).position := by
  induction hrepeats with
  | none state => exact ⟨hstate, Nat.le_refl _⟩
  | more hpass hrest ih =>
    obtain ⟨hlast, hle⟩ := ih (h.stays hstate hpass)
    have hlt := h.advances hstate hpass
    exact ⟨hlast, by omega⟩

/-- There are no more passes than characters of the text. -/
theorem count_le_length (h : IsLoop inText cursor pass)
    (hon : ∀ state, inText state → (cursor state).On text) (hstate : inText state)
    (hrepeats : Repeats pass count state last) : count ≤ text.length := by
  obtain ⟨hlast, hle⟩ := h.count_le hstate hrepeats
  have hend := (hon last hlast).position_le
  omega

end IsLoop

/-! ## Skipping -/

namespace Cursor

/-- A pass of the loop that skips what does not count. The state says whether a comment is open,
which goes on up to the end of its line. Otherwise an empty quotation is skipped, a blank, or the
beginning of a comment. -/
inductive Skips (comments : Bool) : Bool × Cursor → Bool × Cursor → Prop
  | comment {c : Char} {rest : List Char} {position : Nat} :
      Skips comments (true, ⟨c :: rest, position⟩) (c ≠ '\n', ⟨rest, position + 1⟩)
  | quotation {rest : List Char} {position : Nat} :
      Skips comments (false, ⟨'\\' :: 'Q' :: '\\' :: 'E' :: rest, position⟩)
        (false, ⟨rest, position + 4⟩)
  | blank {c : Char} {rest : List Char} {position : Nat} : comments = true → isBlank c = true →
      Skips comments (false, ⟨c :: rest, position⟩) (false, ⟨rest, position + 1⟩)
  | sign {rest : List Char} {position : Nat} : comments = true →
      Skips comments (false, ⟨'#' :: rest, position⟩) (true, ⟨rest, position + 1⟩)

/-- Every pass of skipping takes at least one character. -/
theorem isLoop_skips (text : List Char) (comments : Bool) :
    IsLoop (·.2.On text) Prod.snd (Skips comments) where
  stays h hpass := by
    cases hpass with
    | comment => exact h.tail
    | quotation => exact h.drop 4 (by simp)
    | blank => exact h.tail
    | sign => exact h.tail
  advances h hpass := by
    cases hpass with
    | comment => exact Nat.lt_succ_self _
    | quotation => exact Nat.lt_add_of_pos_right (by decide)
    | blank => exact Nat.lt_succ_self _
    | sign => exact Nat.lt_succ_self _

/-- Skipping is left where no further pass is possible. -/
theorem loops_skipFrom (comments inComment : Bool) (rest : List Char) (position : Nat) :
    ∃ count open?, Loops (Skips comments) count (inComment, ⟨rest, position⟩)
      (open?, skipFrom comments inComment rest position) := by
  fun_induction skipFrom comments inComment rest position with
  | case1 position => exact ⟨0, true, .none fun next hpass ↦ by cases hpass⟩
  | case2 c rest position ih =>
    obtain ⟨count, open?, h⟩ := ih
    exact ⟨count + 1, open?, h.more .comment⟩
  | case3 rest position ih =>
    obtain ⟨count, open?, h⟩ := ih
    exact ⟨count + 1, open?, h.more .quotation⟩
  | case4 c rest position _ hblank ih =>
    obtain ⟨count, open?, h⟩ := ih
    obtain ⟨hcomments, hblank⟩ := Bool.and_eq_true_iff.1 hblank
    exact ⟨count + 1, open?, h.more (.blank hcomments hblank)⟩
  | case5 c rest position _ _ hsign ih =>
    obtain ⟨count, open?, h⟩ := ih
    obtain ⟨hcomments, rfl⟩ : comments = true ∧ c = '#' := by simpa using hsign
    exact ⟨count + 1, open?, h.more (.sign hcomments)⟩
  | case6 c rest position hquotation hblank hsign =>
    refine ⟨0, false, .none fun next hpass ↦ ?_⟩
    cases hpass with
    | quotation => exact hquotation _ rfl rfl
    | blank hcomments hc => exact hblank (by rw [hcomments, hc]; rfl)
    | sign hcomments => exact hsign (by simp [hcomments])
  | case7 position => exact ⟨0, false, .none fun next hpass ↦ by cases hpass⟩

/-! ## Taking characters one by one -/

/-- A pass of a loop that takes one character. What is kept from pass to pass decides, with the
character and what follows it, whether there is a pass and what is kept behind it. -/
inductive Takes (keep? : σ → Char → List Char → Option σ) :
    σ × Cursor → σ × Cursor → Prop
  | take {kept next : σ} {c : Char} {rest : List Char} {position : Nat} :
      keep? kept c rest = some next →
        Takes keep? (kept, ⟨c :: rest, position⟩) (next, ⟨rest, position + 1⟩)

/-- Every pass of such a loop takes one character. -/
theorem isLoop_takes (text : List Char) (keep? : σ → Char → List Char → Option σ) :
    IsLoop (·.2.On text) Prod.snd (Takes keep?) where
  stays h hpass := by
    cases hpass
    exact h.tail
  advances h hpass := by
    cases hpass
    exact Nat.lt_succ_self _

variable {keep? : σ → Char → List Char → Option σ} {kept : σ} {c : Char} {rest : List Char}
  {position : Nat}

/-- No character is taken at the end of the text. -/
theorem loops_takes_nil :
    Loops (Takes keep?) 0 (kept, ⟨[], position⟩) (kept, ⟨[], position⟩) :=
  .none fun next hpass ↦ by cases hpass

/-- No character is taken where there is no pass. -/
theorem loops_takes_none (h : keep? kept c rest = none) :
    Loops (Takes keep?) 0 (kept, ⟨c :: rest, position⟩) (kept, ⟨c :: rest, position⟩) := by
  refine .none fun next hpass ↦ ?_
  cases hpass with
  | take hsome => exact absurd (h.symm.trans hsome) (by simp)

end Cursor

open Cursor (Takes)

/-- Take characters with a property. -/
def Reader.keepAccepted (accepts : Char → Bool) : Unit → Char → List Char → Option Unit
  | (), c, _ => if accepts c then some () else none

/-- The loop behind `takeWhile` takes the characters that are returned. -/
theorem Reader.loops_takeWhile (accepts : Char → Bool) (cursor : Cursor) :
    ∃ taken next, (takeWhile accepts).run cursor = .ok (taken, next) ∧
      Loops (Takes (keepAccepted accepts)) taken.length ((), cursor) ((), next) := by
  refine ⟨cursor.rest.takeWhile accepts,
    cursor.drop (cursor.rest.takeWhile accepts).length, rfl, ?_⟩
  obtain ⟨rest, position⟩ := cursor
  induction rest generalizing position with
  | nil => exact Cursor.loops_takes_nil
  | cons c rest ih =>
    cases hc : accepts c with
    | false =>
      rw [List.takeWhile_cons_of_neg (by simp [hc])]
      exact Cursor.loops_takes_none (by simp [keepAccepted, hc])
    | true =>
      rw [List.takeWhile_cons_of_pos hc]
      have hnext := ih (position + 1)
      rw [Cursor.drop, Nat.add_right_comm] at hnext
      exact hnext.more (.take (by simp [keepAccepted, hc]))

/-- Take so many hexadecimal digits, and keep how many are missing and the number so far. -/
def Reader.keepDigit : Nat × Nat → Char → List Char → Option (Nat × Nat)
  | (0, _), _, _ => none
  | (count + 1, value), c, _ =>
      (Escape.digitValue? 16 c).map fun digit ↦ (count, value * 16 + digit)

/-- The loop behind `hexadecimal` takes one digit after the other. Where it is left, no digit is
missing or the escape is refused. -/
theorem Reader.loops_hexadecimal (start count value : Nat) (cursor : Cursor) :
    ∃ taken missing number next,
      Loops (Takes keepDigit) taken ((count, value), cursor) ((missing, number), next) ∧
      (hexadecimal start count value).run cursor =
        if missing = 0 then .ok (number, next) else .error ⟨.badHexadecimal, start⟩ := by
  induction count generalizing value cursor with
  | zero =>
    refine ⟨0, 0, value, cursor, .none fun next hpass ↦ ?_, rfl⟩
    cases hpass with
    | take hsome => cases hsome
  | succ count ih =>
    obtain ⟨rest, position⟩ := cursor
    cases rest with
    | nil => exact ⟨0, count + 1, value, _, Cursor.loops_takes_nil, rfl⟩
    | cons c rest =>
      have hnext : next?.run ⟨c :: rest, position⟩ = .ok (some c, ⟨rest, position + 1⟩) :=
        rfl
      cases hc : Escape.digitValue? 16 c with
      | none =>
        refine ⟨0, count + 1, value, _, Cursor.loops_takes_none (by simp [keepDigit, hc]), ?_⟩
        rw [hexadecimal, StateT.run_bind, hnext]
        simp only [Option.bind_some, hc, bind, Except.bind]
        rfl
      | some digit =>
        obtain ⟨taken, missing, number, next, hloop, hrun⟩ :=
          ih (value * 16 + digit) ⟨rest, position + 1⟩
        refine ⟨taken + 1, missing, number, next,
          hloop.more (.take (by simp [keepDigit, hc])), ?_⟩
        rw [← hrun, hexadecimal, StateT.run_bind, hnext]
        simp only [Option.bind_some, hc, bind, Except.bind]

/-- Take the characters of a quotation, up to the escape that ends it. -/
def Reader.keepQuoted : Unit → Char → List Char → Option Unit
  | (), '\\', 'E' :: _ => none
  | (), _, _ => some ()

/-- The loop behind `quotedText` takes the characters that are quoted, and the escape behind them is
taken when the loop is left. -/
theorem Reader.loops_quotedText (cursor : Cursor) :
    ∃ quoted last, Loops (Takes keepQuoted) quoted.length ((), cursor) ((), last) ∧
      quotedText.run cursor = .ok (quoted, if last.rest = [] then last else last.drop 2) := by
  obtain ⟨rest, position⟩ := cursor
  suffices h : ∃ last, Loops (Takes keepQuoted) (Escape.quotation rest).1.length
      ((), ⟨rest, position⟩)
      ((), last) ∧ Cursor.drop ⟨rest, position⟩ (Escape.quotation rest).2 =
        if last.rest = [] then last else last.drop 2 by
    obtain ⟨last, hloop, hlast⟩ := h
    exact ⟨_, last, hloop, by rw [← hlast]; rfl⟩
  fun_induction Escape.quotation rest generalizing position with
  | case1 rest => exact ⟨_, Cursor.loops_takes_none rfl, rfl⟩
  | case2 c rest hopen quoted count hquotation ih =>
    obtain ⟨last, hloop, hlast⟩ := ih (position + 1)
    rw [hquotation] at hloop hlast
    have hkeep : keepQuoted () c rest = some () := by
      unfold keepQuoted
      split
      · exact absurd rfl (hopen _ rfl)
      · rfl
    refine ⟨last, hloop.more (.take hkeep), ?_⟩
    rw [← hlast]
    simp [Cursor.drop, Nat.add_comm, Nat.add_left_comm]
  | case3 => exact ⟨_, Cursor.loops_takes_nil, rfl⟩

/-- Take the digits that extend the number of a group, as long as there is a group of that
number. -/
def Groups.keepNumber (groups : Groups) (number : Nat) (c : Char) (_ : List Char) : Option Nat :=
  let longer := number * 10 + (c.toNat - '0'.toNat)
  if c.isDigit ∧ longer ≤ groups.count then some longer else none

/-- The loop behind `extendNumber` takes the digits that are counted. -/
theorem Groups.loops_extendNumber (groups : Groups) (number : Nat) (cursor : Cursor) :
    Loops (Takes groups.keepNumber) (groups.extendNumber number cursor.rest).2 (number, cursor)
      ((groups.extendNumber number cursor.rest).1,
        cursor.drop (groups.extendNumber number cursor.rest).2) := by
  obtain ⟨rest, position⟩ := cursor
  induction rest generalizing number position with
  | nil => exact Cursor.loops_takes_nil
  | cons c rest ih =>
    unfold Groups.extendNumber
    simp only
    split
    · rename_i hdigit
      have hnext := ih (number * 10 + (c.toNat - '0'.toNat)) (position + 1)
      rw [Cursor.drop, Nat.add_right_comm] at hnext
      exact hnext.more (.take (if_pos hdigit))
    · rename_i hdigit
      exact Cursor.loops_takes_none (if_neg hdigit)

/-- Take the letters of flags, and the hyphen behind which flags are switched off. -/
def keepFlag : Bool × Flags → Char → List Char → Option (Bool × Flags)
  | (clearing, flags), c, _ =>
      if c = ')' ∨ c = ':' then none
      else if c = '-' ∧ clearing = false then some (true, flags)
      else if c = 'U' then none
      else (Flags.ofInlineLetter? c).map fun flag ↦
        (clearing, if clearing then flags.without flag else flags.union flag)

/-- The loop behind `readFlags` takes one letter after the other. Where it is left, the flags are
refused, or the character that ends them is taken. -/
theorem loops_readFlags (clearing : Bool) (flags : Flags) (rest : List Char) (position : Nat) :
    ∃ count kept last, Loops (Takes keepFlag) count ((clearing, flags), ⟨rest, position⟩)
      (kept, last) ∧
      ((∃ fault, readFlags clearing flags rest position = .error ⟨fault, last.position⟩) ∨
        ∃ hasBody, readFlags clearing flags rest position =
          .ok (kept.2, hasBody, last.drop 1)) := by
  fun_induction readFlags clearing flags rest position with
  | case1 clearing flags position => exact ⟨0, _, _, Cursor.loops_takes_nil, .inl ⟨_, rfl⟩⟩
  | case2 =>
    exact ⟨0, _, _, Cursor.loops_takes_none (by simp [keepFlag]), .inr ⟨false, rfl⟩⟩
  | case3 => exact ⟨0, _, _, Cursor.loops_takes_none (by simp [keepFlag]), .inr ⟨true, rfl⟩⟩
  | case4 clearing flags c rest position hclose hcolon hhyphen ih =>
    obtain ⟨count, kept, last, hloop, hlast⟩ := ih
    exact ⟨count + 1, kept, last, hloop.more (.take (by simp [keepFlag, hhyphen])), hlast⟩
  | case5 => exact ⟨0, _, _, Cursor.loops_takes_none (by simp [keepFlag]), .inl ⟨_, rfl⟩⟩
  | case6 clearing flags c rest position hclose hcolon hhyphen hclass flag hflag ih =>
    obtain ⟨count, kept, last, hloop, hlast⟩ := ih
    refine ⟨count + 1, kept, last, hloop.more (.take ?_), hlast⟩
    simp [keepFlag, hclose, hcolon, hhyphen, hclass, hflag]
  | case7 clearing flags c rest position hclose hcolon hhyphen hclass hflag =>
    refine ⟨0, _, _, Cursor.loops_takes_none ?_, .inl ⟨_, rfl⟩⟩
    simp [keepFlag, hclose, hcolon, hhyphen, hclass, hflag]

/-! ## Items and units -/

/-- A pass of the loop over the items of bracket expressions. -/
def Bracket.LeadsOn (comments : Bool) (state next : Bracket × List Bracket × Cursor) : Prop :=
  state.1.readItem comments state.2.1 state.2.2 = .ok (.more next.1 next.2.1 next.2.2)

/-- Every item takes at least one character. -/
theorem Bracket.isLoop_leadsOn (text : List Char) (comments : Bool) :
    IsLoop (·.2.2.On text) (·.2.2) (Bracket.LeadsOn comments) where
  stays {state _} h hpass := (on_readItem h comments state.1 state.2.1).ok hpass
  advances {state _} h hpass :=
    h.position_lt ((on_readItem h comments state.1 state.2.1).ok hpass) (readItem_shortens hpass)

/-- The loop over items is left where the outermost expression is closed or an item is refused. -/
theorem Bracket.loops_readItems (comments : Bool) (bracket : Bracket) (enclosing : List Bracket)
    (cursor : Cursor) :
    ∃ count last, Loops (LeadsOn comments) count (bracket, enclosing, cursor) last ∧
      ((∃ located, last.1.readItem comments last.2.1 last.2.2 = .error located ∧
          bracket.readItems comments enclosing cursor = .error located) ∨
        ∃ members next, last.1.readItem comments last.2.1 last.2.2 =
          .ok (.closed members next) ∧
          bracket.readItems comments enclosing cursor = .ok (members, next)) := by
  fun_induction bracket.readItems comments enclosing cursor with
  | case1 bracket enclosing cursor located hitem =>
    refine ⟨0, (bracket, enclosing, cursor), .none fun next hpass ↦ ?_,
      .inl ⟨located, hitem, rfl⟩⟩
    cases hitem.symm.trans hpass
  | case2 bracket enclosing cursor members next hitem =>
    refine ⟨0, (bracket, enclosing, cursor), .none fun next hpass ↦ ?_,
      .inr ⟨members, next, hitem, rfl⟩⟩
    cases hitem.symm.trans hpass
  | case3 bracket enclosing cursor inner outer next hitem ih =>
    obtain ⟨count, last, hloop, hlast⟩ := ih
    have hpass : LeadsOn comments (bracket, enclosing, cursor) (inner, outer, next) := hitem
    exact ⟨count + 1, last, hloop.more hpass, hlast⟩

namespace Reading

variable {reading next : Reading}

/-- A pass of the loop over the units of a pattern. -/
def LeadsOn (reading next : Reading) : Prop :=
  reading.step = .ok (.more next)

/-- Every step takes at least one character. -/
theorem isLoop_leadsOn (text : List Char) : IsLoop (Reading.On · text) Reading.cursor LeadsOn where
  stays h hpass := h.step.ok hpass
  advances h hpass := h.cursor.position_lt (h.step.ok hpass).cursor (step_shortens hpass)

/-- A brace where a unit begins belongs to the repetition that is read behind it. -/
theorem LeadsOn.brace {rest : List Char} {position : Nat} (hpass : reading.LeadsOn next)
    (hbrace : reading.cursor.skip reading.flags.comments = ⟨'{' :: rest, position⟩) :
    ∃ quantifier, (Reader.quantifier reading.flags.comments '{' position).run
      ⟨rest, position + 1⟩ = .ok (quantifier, next.cursor) := by
  unfold LeadsOn step at hpass
  rw [hbrace] at hpass
  cases hrun : (Reader.quantifier reading.flags.comments '{' position).run
    ⟨rest, position + 1⟩ with
  | error located =>
    simp [advance, addEmptyRepetition, hrun, Except.map] at hpass
  | ok outcome =>
    simp only [advance, addEmptyRepetition, hrun, Except.map, Except.ok.injEq,
      ReadingStep.more.injEq] at hpass
    exact ⟨outcome.1, by rw [← hpass]⟩

/-- The loop over units is left where the pattern ends or a step is refused. -/
theorem loops_run (reading : Reading) : ∃ count last, Loops LeadsOn count reading last ∧
    ((∃ located, last.step = .error located ∧ reading.run = .error located) ∨
      ∃ tree groups, last.step = .ok (.done tree groups) ∧
        reading.run = .ok (tree, groups)) := by
  fun_induction Reading.run reading with
  | case1 reading located hstep =>
    refine ⟨0, reading, .none fun next hpass ↦ ?_, .inl ⟨located, hstep, rfl⟩⟩
    cases hstep.symm.trans hpass
  | case2 reading tree groups hstep =>
    refine ⟨0, reading, .none fun next hpass ↦ ?_, .inr ⟨tree, groups, hstep, rfl⟩⟩
    cases hstep.symm.trans hpass
  | case3 reading next hstep ih =>
    obtain ⟨count, last, hloop, hlast⟩ := ih
    exact ⟨count + 1, last, hloop.more hstep, hlast⟩

end Reading

/-! ## Whole patterns -/

/-- What reading owes to a pattern under some flags: its loops take a character with every pass and
end, and all positions are in the pattern.

The loop over units takes a brace where a unit begins together with the counts behind it. It ends
where the pattern ends or is refused, and wherever units lead, the cursor and all positions on
record are in the pattern. The loop over the items of bracket expressions ends where the outermost
expression is closed or an item is refused, and skipping ends where nothing more is skipped. The
other loops take characters one by one: `takeWhile` those of the digits in braces, of the name of a
property and of the digits of a count, `hexadecimal` the digits of an escape of fixed length, and
the others those of a quotation, of a numbered backreference and of flags. Reading an escape or a
bracket expression stays in the pattern. A pattern that is refused is refused in the pattern, and
the caret stands under that position. -/
structure Pattern.ReadsWithin (source : String) (flags : Flags) : Prop where
  units : IsLoop (Reading.On · source.toList) Reading.cursor Reading.LeadsOn
  brace {reading next : Reading} {rest : List Char} {position : Nat} : reading.LeadsOn next →
    reading.cursor.skip reading.flags.comments = ⟨'{' :: rest, position⟩ →
      ∃ quantifier, (Reader.quantifier reading.flags.comments '{' position).run
        ⟨rest, position + 1⟩ = .ok (quantifier, next.cursor)
  reached {count : Nat} {reading : Reading} :
    Repeats Reading.LeadsOn count (.start source.toList flags) reading →
      reading.On source.toList ∧ count ≤ reading.cursor.position
  run : ∃ count last, count ≤ source.length ∧
    Loops Reading.LeadsOn count (.start source.toList flags) last ∧
      ((∃ located, last.step = .error located ∧
          (Reading.start source.toList flags).run = .error located) ∨
        ∃ tree groups, last.step = .ok (.done tree groups) ∧
          (Reading.start source.toList flags).run = .ok (tree, groups))
  items (comments : Bool) :
    IsLoop (·.2.2.On source.toList) (·.2.2) (Bracket.LeadsOn comments)
  readItems (comments : Bool) (bracket : Bracket) (enclosing : List Bracket) {cursor : Cursor} :
    cursor.On source.toList →
      ∃ count last, count ≤ source.length ∧
        Loops (Bracket.LeadsOn comments) count (bracket, enclosing, cursor) last ∧
          ((∃ located, last.1.readItem comments last.2.1 last.2.2 = .error located ∧
              bracket.readItems comments enclosing cursor = .error located) ∨
            ∃ members next, last.1.readItem comments last.2.1 last.2.2 =
              .ok (.closed members next) ∧
              bracket.readItems comments enclosing cursor = .ok (members, next))
  skips (comments : Bool) : IsLoop (·.2.On source.toList) Prod.snd (Cursor.Skips comments)
  skip (comments : Bool) {cursor : Cursor} : cursor.On source.toList →
    ∃ count inComment, count ≤ source.length ∧
      Loops (Cursor.Skips comments) count (false, cursor) (inComment, cursor.skip comments)
  takes {σ : Type} (keep? : σ → Char → List Char → Option σ) :
    IsLoop (·.2.On source.toList) Prod.snd (Takes keep?)
  takeWhile (accepts : Char → Bool) (cursor : Cursor) :
    ∃ taken next, (Reader.takeWhile accepts).run cursor = .ok (taken, next) ∧
      Loops (Takes (Reader.keepAccepted accepts)) taken.length ((), cursor) ((), next)
  hexadecimal (start count value : Nat) (cursor : Cursor) :
    ∃ taken missing number next,
      Loops (Takes Reader.keepDigit) taken ((count, value), cursor) ((missing, number), next) ∧
      (Reader.hexadecimal start count value).run cursor =
        if missing = 0 then .ok (number, next) else .error ⟨.badHexadecimal, start⟩
  quotedText (cursor : Cursor) :
    ∃ quoted last, Loops (Takes Reader.keepQuoted) quoted.length ((), cursor) ((), last) ∧
      Reader.quotedText.run cursor = .ok (quoted, if last.rest = [] then last else last.drop 2)
  extendNumber (groups : Groups) (number : Nat) (cursor : Cursor) :
    Loops (Takes groups.keepNumber) (groups.extendNumber number cursor.rest).2 (number, cursor)
      ((groups.extendNumber number cursor.rest).1,
        cursor.drop (groups.extendNumber number cursor.rest).2)
  readFlags (clearing : Bool) (flags : Flags) (rest : List Char) (position : Nat) :
    ∃ count kept last, Loops (Takes keepFlag) count ((clearing, flags), ⟨rest, position⟩)
      (kept, last) ∧
      ((∃ fault, Exemplar.readFlags clearing flags rest position =
        .error ⟨fault, last.position⟩) ∨
        ∃ hasBody, Exemplar.readFlags clearing flags rest position =
          .ok (kept.2, hasBody, last.drop 1))
  escape {start : Nat} (mark : Char) : start ≤ source.length →
    Reader.Stays source.toList (Reader.readEscape start mark)
  bracket {cursor : Cursor} : cursor.On source.toList →
    OutcomeIn source.toList (·.2.On source.toList) (readBracket flags cursor)
  refused {error : CompileError} : compile source flags = .error error →
    error.located.position ≤ source.length ∧
      error.diagnostic.caret =
        source ++ "\n" ++ String.ofList (List.replicate error.located.position ' ') ++ "^"

/-- A pattern that is refused is refused at one of its positions or behind its last character. -/
theorem CompileError.of_compile {source : String} {flags : Flags} {error : CompileError}
    (h : Pattern.compile source flags = .error error) :
    error.pattern = source ∧ error.located.position ≤ source.length := by
  unfold Pattern.compile at h
  split at h
  · cases h
  · rename_i located hparse
    cases h
    exact ⟨rfl, Regex.position_le_of_parse hparse⟩

/-- The caret stands under the position of a pattern that is refused. -/
theorem CompileError.caret_eq {error : CompileError}
    (h : error.located.position ≤ error.pattern.length) : error.diagnostic.caret =
      error.pattern ++ "\n" ++ String.ofList
        (List.replicate error.located.position ' ') ++ "^" := by
  have hmin : min error.located.position error.pattern.length = error.located.position :=
    Nat.min_eq_left h
  simp only [Diagnostic.caret, CompileError.diagnostic, hmin]

/-- Reading a pattern ends, whatever the text and the flags are: every loop takes a character with
each pass, all positions stay in the pattern, and an error is at a position of the pattern or
behind its last character. -/
theorem Pattern.readsWithin (source : String) (flags : Flags) : ReadsWithin source flags where
  units := Reading.isLoop_leadsOn source.toList
  brace hpass hbrace := hpass.brace hbrace
  reached hrepeats := by
    obtain ⟨hreading, hle⟩ :=
      (Reading.isLoop_leadsOn source.toList).count_le (.atStart source.toList flags) hrepeats
    exact ⟨hreading, Nat.le_trans (Nat.le_add_left ..) hle⟩
  run := by
    obtain ⟨count, last, hloop, hlast⟩ := Reading.loops_run (.start source.toList flags)
    have hcount := (Reading.isLoop_leadsOn source.toList).count_le_length (fun _ h ↦ h.cursor)
      (.atStart source.toList flags) hloop.repeats
    exact ⟨count, last, hcount, hloop, hlast⟩
  items := Bracket.isLoop_leadsOn source.toList
  readItems comments bracket enclosing cursor hcursor := by
    obtain ⟨count, last, hloop, hlast⟩ :=
      Bracket.loops_readItems comments bracket enclosing cursor
    have hcount := (Bracket.isLoop_leadsOn source.toList comments).count_le_length (fun _ h ↦ h)
      hcursor hloop.repeats
    exact ⟨count, last, hcount, hloop, hlast⟩
  skips := Cursor.isLoop_skips source.toList
  skip comments cursor hcursor := by
    obtain ⟨count, inComment, hloop⟩ :=
      Cursor.loops_skipFrom comments false cursor.rest cursor.position
    have hcount := (Cursor.isLoop_skips source.toList comments).count_le_length (fun _ h ↦ h)
      hcursor hloop.repeats
    exact ⟨count, inComment, hcount, hloop⟩
  takes := Cursor.isLoop_takes source.toList
  takeWhile := Reader.loops_takeWhile
  hexadecimal := Reader.loops_hexadecimal
  quotedText := Reader.loops_quotedText
  extendNumber := Groups.loops_extendNumber
  readFlags := loops_readFlags
  escape mark hstart := Reader.Stays.readEscape hstart mark
  bracket hcursor := on_readBracket hcursor flags
  refused hrefused := by
    obtain ⟨rfl, hle⟩ := CompileError.of_compile hrefused
    exact ⟨hle, CompileError.caret_eq hle⟩

end Exemplar
