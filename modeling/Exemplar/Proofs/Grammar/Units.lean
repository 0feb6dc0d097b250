import Exemplar.Proofs.Grammar.Bracket
import Exemplar.Proofs.Grammar.History
import Exemplar.Proofs.Grammar.Positions
import Exemplar.Proofs.Grammar.Quantifier

/-!
# Reading on from unit to unit

Reading a written pattern is followed from one point of the pattern to a later one.
`reading.Meets known past rest unit` says that reading comes to the end of a unit, and
`reading.Passes known past rest rows` says that it comes to the rest and has added rows of units,
each to a branch of its own. The marks of groups and references up to there are `past`, and the
units may have narrower references. Characters, sets, references and groups are passed one after
the other (`Passes.andThen`), and branches behind bars (`Passes.orElse`).
-/

namespace Exemplar

open Quantifier (AreCounts)
open Regex (renderChar renderText renderCounts)

/-! ## Levels -/

namespace Level

/-- Add a row of units to the current branch. -/
def addRow (level : Level) (row : List Regex) : Level :=
  { level with units := row.reverse ++ level.units }

/-- Add rows of units, each to a branch of its own. -/
def addRows : Level → List (List Regex) → Level
  | level, [] => level
  | level, [row] => level.addRow row
  | level, row :: next :: rows => (level.addRow row).nextBranch.addRows (next :: rows)

/-- Rows that are added one after the other are added to the same branch. -/
theorem addRow_append (level : Level) (row next : List Regex) :
    level.addRow (row ++ next) = (level.addRow row).addRow next := by
  simp [addRow]

/-- Rows that are added in two steps are branches apart. -/
theorem addRows_append (level : Level) {rows others : List (List Regex)} (hrows : rows ≠ [])
    (hothers : others ≠ []) :
    level.addRows (rows ++ others) = (level.addRows rows).nextBranch.addRows others := by
  induction rows generalizing level with
  | nil => exact absurd rfl hrows
  | cons row rows ih =>
    cases rows with
    | nil =>
      cases others with
      | nil => exact absurd rfl hothers
      | cons other others => rfl
    | cons next rows => exact ih _ (by simp)

/-- The rows that are added are the last branches. -/
theorem branches_addRows (level : Level) (hunits : level.units = []) {rows : List (List Regex)}
    (hrows : rows ≠ []) :
    (level.addRows rows).branch :: (level.addRows rows).branches =
      (rows.map Regex.inSequence).reverse ++ level.branches := by
  induction rows generalizing level with
  | nil => exact absurd rfl hrows
  | cons row rows ih =>
    have hrow : (level.addRow row).branch = .inSequence row := by
      simp [addRow, branch, hunits]
    cases rows with
    | nil => rw [addRows, hrow]; rfl
    | cons next rows =>
      rw [addRows, ih _ rfl (by simp), nextBranch, hrow, List.map_cons (a := row),
        List.reverse_cons, List.append_assoc]
      rfl

/-- The tree of rows that are added to an empty level. -/
theorem tree_addRows {rows : List (List Regex)} (hrows : rows ≠ []) :
    (addRows {} rows).tree = .ofRows rows := by
  have hbranches := branches_addRows {} rfl hrows
  rw [List.append_nil] at hbranches
  have htree : (addRows {} rows).tree =
      Regex.joinOptions ((addRows {} rows).branch :: (addRows {} rows).branches).reverse := by
    unfold tree
    split
    · rename_i heq
      rw [heq]
      rfl
    · rename_i hsome
      have hlength := List.length_pos_of_ne_nil hsome
      rw [Regex.joinOptions_of_two_le (by simp; omega), Regex.anyOf, if_neg (by simp)]
  rw [htree, hbranches, List.reverse_reverse, Regex.ofRows]

end Level

/-! ## Where units begin -/

/-- A character that is no mark and no backslash begins a unit or ends a branch. -/
theorem atUnit_cons {c : Char} (h : c ∉ ['\\', '*', '+', '?', '{']) (rest : List Char) :
    AtUnit (c :: rest) := by
  simp only [List.mem_cons, List.not_mem_nil, or_false, not_or] at h
  refine ⟨fun other hother ↦ ?_, fun more heq ↦ ?_⟩
  · cases hother
    simp [h]
  · cases heq
    exact h.1 rfl

/-- A character that is spelled begins a unit. -/
theorem Spells.atUnit {c : Char} {text : List Char} (h : Spells Regex.operators c text)
    (rest : List Char) : AtUnit (text ++ rest) := by
  cases h with
  | plain hplain =>
    have hmarks : ['\\', '*', '+', '?', '{'] ⊆ Regex.operators := by decide
    exact atUnit_cons (fun hmark ↦ hplain (hmarks hmark)) rest
  | escape hmark hreads =>
    refine ⟨fun other hother ↦ ?_, fun more heq ↦ ?_⟩
    · cases hother
      decide
    · cases heq
      exact absurd hmark (by decide)

/-- Characters that are spelled begin a unit, or there are none. -/
theorem atUnit_flatten {chars : List Char} {texts : List (List Char)}
    (h : List.Forall₂ (Spells Regex.operators) chars texts) {rest : List Char}
    (hrest : AtUnit rest) :
    AtUnit (texts.flatten ++ rest) := by
  cases h with
  | nil => exact hrest
  | cons hspells h =>
    rw [List.flatten_cons, List.append_assoc]
    exact hspells.atUnit _

/-- The characters of a literal are spelled one after the other. -/
theorem spells_renderText (text : List Char) :
    List.Forall₂ (Spells Regex.operators) text (text.map renderChar) :=
  List.forall₂_map_right_iff.2 (List.forall₂_same.2 fun c _ ↦ Regex.spells_renderChar c)

/-- The text of a literal begins a unit, or it is empty. -/
theorem atUnit_renderText (text : List Char) {rest : List Char} (h : AtUnit rest) :
    AtUnit (renderText text ++ rest) := by
  rw [renderText, List.flatMap_def]
  exact atUnit_flatten (spells_renderText text) h

/-- A reader that leaves the rest of a text stops in front of it. -/
theorem Reader.Reads.run_eq {α : Type} {reader : Reader α} {taken rest : List Char} {value : α}
    (h : reader.Reads (taken ++ rest) value rest) (position : Nat)
    (hstays : ∀ text : List Char, position ≤ text.length → reader.Stays text) :
    reader.run ⟨taken ++ rest, position⟩ =
      .ok (value, ⟨rest, position + taken.length⟩) := by
  obtain ⟨stop, hstop⟩ := h position
  have hstart := Cursor.on_replicate ⟨taken ++ rest, position⟩
  have hnext : (Cursor.mk rest stop).On _ := (hstays _ hstart.position_le hstart).ok hstop
  have hlength := hstart.length_eq.trans hnext.length_eq.symm
  simp only [List.length_append] at hlength
  rw [hstop]
  congr 3
  omega

/-- The mark of an escape that has the same meaning inside and outside bracket expressions: it
begins no reference and stands for no anchor and no line break. -/
def Escape.IsShared (mark : Char) : Prop :=
  ¬ ('1' ≤ mark ∧ mark ≤ '9') ∧ mark ∉ ['b', 'B', 'A', 'Z', 'z'] ∧
  mark ≠ 'R' ∧ mark ≠ 'k'

instance (mark : Char) : Decidable (Escape.IsShared mark) :=
  inferInstanceAs (Decidable (_ ∧ _))

/-! ## Steps of reading -/

namespace Reading

variable {reading : Reading} {rest : List Char}

/-- Where nothing is skipped, reading goes on with the next character. -/
theorem run_eq_of_unskipped {c : Char} (hskip : Cursor.Unskipped reading.flags.comments (c :: rest))
    (hrest : reading.cursor.rest = c :: rest) :
    reading.run = reading.advance c reading.cursor.position
      ⟨rest, reading.cursor.position + 1⟩ >>= run := by
  have hcursor : reading.cursor.skip reading.flags.comments =
      ⟨c :: rest, reading.cursor.position⟩ := by
    rw [← hskip reading.cursor.position, ← hrest]
  have hstep : reading.step =
      (reading.advance c reading.cursor.position ⟨rest, reading.cursor.position + 1⟩).map
        .more := by
    simp only [step, hcursor]
  rw [run]
  cases hadvance : reading.advance c reading.cursor.position
    ⟨rest, reading.cursor.position + 1⟩ with
  | error located =>
    rw [hadvance] at hstep
    split <;> simp_all [Except.map, Bind.bind, Except.bind]
  | ok next =>
    rw [hadvance] at hstep
    split <;> simp_all [Except.map, Bind.bind, Except.bind]

/-- Where no quotation begins, reading goes on with the next character. -/
theorem run_eq_advance {c : Char} (hcomments : reading.flags.comments = false)
    (hrest : reading.cursor.rest = c :: rest)
    (hunquoted : ∀ more, c :: rest ≠ '\\' :: 'Q' :: more) :
    reading.run = reading.advance c reading.cursor.position
      ⟨rest, reading.cursor.position + 1⟩ >>= run := by
  refine run_eq_of_unskipped ?_ hrest
  rw [hcomments]
  exact Cursor.unskipped_of_unquoted hunquoted

/-- A pattern without open groups ends where all that is left is skipped. -/
theorem run_eq_done_of_skip (hskip : (reading.cursor.skip reading.flags.comments).rest = [])
    (hframes : reading.frames = []) : reading.run = .ok (reading.level.tree, reading.groups) := by
  have hstep : reading.step = .ok (.done reading.level.tree reading.groups) := by
    simp only [step, hskip, hframes]
    rfl
  rw [run]
  split <;> simp_all

/-- A pattern without open groups ends with its characters. -/
theorem run_eq_done (hrest : reading.cursor.rest = []) (hframes : reading.frames = []) :
    reading.run = .ok (reading.level.tree, reading.groups) := by
  have hle := reading.cursor.skip_rest_length_le reading.flags.comments
  rw [hrest] at hle
  exact run_eq_done_of_skip (List.length_eq_zero_iff.1 (Nat.le_zero.1 hle)) hframes

/-- A unit in front of another one is added as it is. -/
theorem addUnit_of_atUnit (reading : Reading) (hcomments : reading.flags.comments = false)
    (unit : Regex) (h : AtUnit rest) (position : Nat) :
    reading.addUnit unit ⟨rest, position⟩ =
      .ok { reading with cursor := ⟨rest, position⟩, level := reading.level.add unit } := by
  have hreads : (Reader.quantifier? false).Reads ([] ++ rest) none rest :=
    Reader.reads_quantifier?_none h.unskipped h.unmarked
  have hnone : (Reader.quantifier? false).run ⟨rest, position⟩ =
      .ok (none, ⟨rest, position⟩) :=
    hreads.run_eq position fun _ _ ↦ .quantifier? false
  rw [addUnit, hcomments, hnone]
  rfl

/-- A unit in front of a repetition mark is repeated. -/
theorem addUnit_of_counts (reading : Reading) (hcomments : reading.flags.comments = false)
    {unit : Regex}
    (hunit : ∀ text ignoreCase, unit = .literal text ignoreCase → text.length ≤ 1)
    {least : Nat} {most : Bound} (hcounts : AreCounts least most) (mode : RepetitionMode)
    (h : AtUnit rest) (position : Nat) :
    ∃ stop, reading.addUnit unit ⟨renderCounts least most ++ (mode.mark ++ rest), position⟩ =
      .ok { reading with
        cursor := ⟨rest, stop⟩, level :=
          reading.level.add (.repetition unit least most mode) } := by
  have happly : Quantifier.apply ⟨least, most, mode⟩ unit =
      .repetition unit least most mode := by
    unfold Quantifier.apply
    split
    · rename_i text ignoreCase
      have hlength : ¬ text.length > 1 := Nat.not_lt.2 (hunit text ignoreCase rfl)
      rw [if_neg hlength, Regex.repeated, Bound.raise_of_allows hcounts.allows]
    · rw [Regex.repeated, Bound.raise_of_allows hcounts.allows]
  obtain ⟨stop, hstop⟩ :=
    Reader.reads_quantifier? (Quantifier.writesCopies_renderCounts hcounts) mode
    h.unskipped h.unmarked position
  exact ⟨stop, by rw [addUnit, hcomments, hstop, ← happly]; rfl⟩

/-- An escape that has the same meaning inside and outside bracket expressions is added as what it
stands for. -/
theorem readEscape_eq_of_isShared {mark : Char} (h : Escape.IsShared mark) {start position : Nat} :
    reading.readEscape start ⟨mark :: rest, position⟩ =
      match (Reader.readEscape start mark).run ⟨rest, position + 1⟩ with
      | .ok (escape, cursor) => reading.addEscape escape cursor
      | .error located => .error located := by
  obtain ⟨hdigit, hanchor, hbreak, hname⟩ := h
  unfold readEscape
  exact (if_neg hdigit).trans ((if_neg hanchor).trans ((if_neg hbreak).trans (if_neg hname)))

/-- A character that is spelled is read as a unit. -/
theorem run_eq_char (hcomments : reading.flags.comments = false) {c : Char} {text : List Char}
    (hspells : Spells Regex.operators c text) (hrest : reading.cursor.rest = text ++ rest) :
    reading.run = reading.addUnit (.literal [c] reading.flags.ignoreCase)
      ⟨rest, reading.cursor.position + text.length⟩ >>= run := by
  cases hspells with
  | plain hplain =>
    have hunquoted (more : List Char) : c :: rest ≠ '\\' :: 'Q' :: more := by
      intro heq
      cases heq
      exact hplain (by decide)
    rw [run_eq_advance hcomments hrest hunquoted]
    congr 1
    simp only [Regex.operators, List.mem_cons, List.not_mem_nil, or_false, not_or] at hplain
    unfold advance
    split
    -- A character without a meaning is left to the last case.
    case h_13 => rfl
    all_goals simp at hplain
  | @escape mark more hmark hreads =>
    have hall : ∀ mark ∈ escapeMarks, Escape.IsShared mark ∧ mark ≠ 'Q' :=
      List.all_iff_forall_prop.1 (by decide)
    obtain ⟨hshared, hquote⟩ := hall mark hmark
    have hunquoted (after : List Char) :
        '\\' :: mark :: more ++ rest ≠ '\\' :: 'Q' :: after := by
      intro heq
      cases heq
      exact hquote rfl
    have hescape := (hreads reading.cursor.position rest).run_eq (reading.cursor.position + 1 + 1)
      fun text hle ↦ .readEscape (by omega) mark
    have hstop : reading.cursor.position + 1 + 1 + more.length =
        reading.cursor.position + ('\\' :: mark :: more).length := by
      simp only [List.length_cons]
      omega
    rw [run_eq_advance hcomments hrest hunquoted]
    congr 1
    show reading.readEscape reading.cursor.position
      ⟨mark :: more ++ rest, reading.cursor.position + 1⟩ = _
    rw [List.cons_append, readEscape_eq_of_isShared hshared, hescape, hstop]
    rfl

/-- Characters that are spelled are read one by one, up to the unit behind them. -/
theorem run_eq_addRow (hcomments : reading.flags.comments = false) {chars : List Char}
    {texts : List (List Char)} (h : List.Forall₂ (Spells Regex.operators) chars texts)
    (hcursor : reading.cursor.rest = texts.flatten ++ rest) (hrest : AtUnit rest) :
    reading.run = { reading with
      cursor := ⟨rest, reading.cursor.position + texts.flatten.length⟩
      level := reading.level.addRow (Regex.unitsOfText chars reading.flags.ignoreCase) }.run := by
  induction h generalizing reading with
  | nil =>
    have hcursor : reading.cursor.rest = rest := hcursor
    subst rest
    rfl
  | @cons c text chars texts hspells h ih =>
    rw [List.flatten_cons, List.append_assoc] at hcursor
    have hlevel : (reading.level.add (.literal [c] reading.flags.ignoreCase)).addRow
        (Regex.unitsOfText chars reading.flags.ignoreCase) =
        reading.level.addRow (Regex.unitsOfText (c :: chars) reading.flags.ignoreCase) := by
      simp [Level.addRow, Level.add, Regex.unitsOfText]
    rw [run_eq_char hcomments hspells hcursor,
      addUnit_of_atUnit reading hcomments _ (atUnit_flatten h hrest), List.flatten_cons,
      List.length_append, ← Nat.add_assoc, ← hlevel]
    exact @ih { reading with
      cursor := ⟨texts.flatten ++ rest, reading.cursor.position + text.length⟩
      level := reading.level.add (.literal [c] reading.flags.ignoreCase) } hcomments rfl

end Reading

/-! ## From one point of the text to a later one -/

namespace Reading

variable {known : Groups} {reading : Reading} {past later : List Mark} {middle rest : List Char}
  {rows others : List (List Regex)}

/-- Reading comes to a unit that ends in front of the rest, behind the marks of the text so far. -/
def Meets (known : Groups) (reading : Reading) (past : List Mark) (rest : List Char)
    (unit : Regex) : Prop :=
  ∃ position groups unit', Groups.Follows groups known past ∧ Regex.Narrows unit' unit ∧
    reading.run = { reading with groups }.addUnit unit' ⟨rest, position⟩ >>= run

/-- Reading comes to the rest, behind the marks of the text so far, and rows of units were added. -/
def Passes (known : Groups) (reading : Reading) (past : List Mark) (rest : List Char)
    (rows : List (List Regex)) : Prop :=
  ∃ position groups rows', Groups.Follows groups known past ∧
    List.Forall₂ (List.Forall₂ Regex.Narrows) rows' rows ∧
    reading.run = { reading with
      cursor := ⟨rest, position⟩
      groups
      level := reading.level.addRows rows' }.run

namespace Passes

/-- Reading is at the rest already. -/
theorem refl (hgroups : reading.groups.Follows known past) (hrest : reading.cursor.rest = rest) :
    reading.Passes known past rest [[]] := by
  subst rest
  exact ⟨reading.cursor.position, reading.groups, [[]], hgroups, .cons .nil .nil, rfl⟩

/-- Reading goes on in the same branch from where it came to. -/
theorem andThen {row next : List Regex} (h : reading.Passes known past middle [row])
    (hnext : ∀ position groups level, Groups.Follows groups known past →
      { reading with cursor := ⟨middle, position⟩, groups, level }.Passes known later
        rest [next]) :
    reading.Passes known later rest [row ++ next] := by
  obtain ⟨position, groups, rows', hgroups, hrows, hrun⟩ := h
  obtain ⟨row', none, hrow, hnone, rfl⟩ := List.forall₂_cons_right_iff.1 hrows
  obtain rfl := List.forall₂_nil_right_iff.1 hnone
  obtain ⟨stop, after, rows', hafter, hrows, hrest⟩ :=
    hnext position groups (reading.level.addRow row') hgroups
  obtain ⟨next', none, hnext', hnone, rfl⟩ := List.forall₂_cons_right_iff.1 hrows
  obtain rfl := List.forall₂_nil_right_iff.1 hnone
  refine ⟨stop, after, [row' ++ next'], hafter, .cons (List.rel_append hrow hnext') .nil, ?_⟩
  rw [Level.addRows, Level.addRow_append]
  exact hrun.trans hrest

/-- Reading goes on in another branch behind a bar. -/
theorem orElse (h : reading.Passes known past ('|' :: middle) rows)
    (hcomments : reading.flags.comments = false) (hrows : rows ≠ []) (hothers : others ≠ [])
    (hnext : ∀ position groups level, Groups.Follows groups known past →
      { reading with cursor := ⟨middle, position⟩, groups, level }.Passes known later
        rest others) :
    reading.Passes known later rest (rows ++ others) := by
  obtain ⟨position, groups, rows', hgroups, hnarrows, hrun⟩ := h
  obtain ⟨stop, after, others', hafter, hnarrows', hrest⟩ :=
    hnext (position + 1) groups (reading.level.addRows rows').nextBranch hgroups
  have hsome : rows' ≠ [] := by
    rintro rfl
    exact hrows (List.forall₂_nil_left_iff.1 hnarrows)
  have hsome' : others' ≠ [] := by
    rintro rfl
    exact hothers (List.forall₂_nil_left_iff.1 hnarrows')
  refine ⟨stop, after, rows' ++ others', hafter, List.rel_append hnarrows hnarrows', ?_⟩
  have hbar : ({ reading with
      cursor := ⟨'|' :: middle, position⟩
      groups
      level := reading.level.addRows rows' } : Reading).run = _ :=
        run_eq_advance hcomments rfl (by simp)
  rw [Level.addRows_append _ hsome hsome', hrun, hbar]
  exact hrest

end Passes

/-- A unit in front of another one is added. -/
theorem Meets.passes {unit : Regex} (h : reading.Meets known past rest unit)
    (hcomments : reading.flags.comments = false) (hrest : AtUnit rest) :
    reading.Passes known past rest [[unit]] := by
  obtain ⟨position, groups, unit', hgroups, hunit, hrun⟩ := h
  have hadd := addUnit_of_atUnit { reading with groups } hcomments unit' hrest position
  exact ⟨position, groups, [[unit']], hgroups, .cons (.cons hunit .nil) .nil,
    by rw [hrun, hadd]; rfl⟩

/-- A unit in front of a repetition mark is repeated and added. -/
theorem Meets.passes_repetition {unit : Regex} {least : Nat} {most : Bound} {mode : RepetitionMode}
    (h : reading.Meets known past (renderCounts least most ++ (mode.mark ++ rest)) unit)
    (hcomments : reading.flags.comments = false)
    (hunit : ∀ text ignoreCase, unit = .literal text ignoreCase → text.length ≤ 1)
    (hcounts : AreCounts least most) (hrest : AtUnit rest) :
    reading.Passes known past rest [[.repetition unit least most mode]] := by
  obtain ⟨position, groups, unit', hgroups, hnarrows, hrun⟩ := h
  have hunit' (text : List Char) (ignoreCase : Bool) (heq : unit' = .literal text ignoreCase) :
      text.length ≤ 1 := by
    subst heq
    exact hunit text ignoreCase (Regex.eq_literal_of_bare hnarrows.bare_eq.symm)
  obtain ⟨stop, hadd⟩ :=
    addUnit_of_counts { reading with groups } hcomments hunit' hcounts mode hrest position
  exact ⟨stop, groups, [[.repetition unit' least most mode]], hgroups,
    .cons (.cons (hnarrows.repetition ..) .nil) .nil, by rw [hrun, hadd]; rfl⟩

/-- A character is met as a unit. -/
theorem meets_char (hcomments : reading.flags.comments = false)
    (hgroups : reading.groups.Follows known past) (c : Char)
    (hrest : reading.cursor.rest = renderChar c ++ rest) :
    reading.Meets known past rest (.literal [c] reading.flags.ignoreCase) :=
  ⟨_, reading.groups, _, hgroups, .refl _,
  run_eq_char hcomments (Regex.spells_renderChar c) hrest⟩

/-- A set is met as a unit. -/
theorem meets_set (hflags : reading.flags = .none) (hgroups : reading.groups.Follows known past)
    (members : CharSet) (hrest : reading.cursor.rest = members.render ++ rest) :
    reading.Meets known past rest (.set members) := by
  obtain ⟨text, hrender, hread⟩ := members.readBracket_render
  rw [hrender, List.cons_append] at hrest
  obtain ⟨stop, hstop⟩ := hread rest (reading.cursor.position + 1)
  refine ⟨stop, reading.groups.noteSet members reading.cursor.position, _,
    hgroups.of_eq (Groups.noteSet_eq ..), .refl _, ?_⟩
  rw [run_eq_advance (by rw [hflags]; rfl) hrest (by simp)]
  congr 1
  show reading.readSet reading.cursor.position ⟨text ++ rest, reading.cursor.position + 1⟩ = _
  rw [readSet, hflags, hstop]

/-- The text of a literal is passed character by character. -/
theorem passes_text (hcomments : reading.flags.comments = false)
    (hgroups : reading.groups.Follows known past) (text : List Char)
    (hcursor : reading.cursor.rest = renderText text ++ rest) (hrest : AtUnit rest) :
    reading.Passes known past rest [Regex.unitsOfText text reading.flags.ignoreCase] := by
  rw [renderText, List.flatMap_def] at hcursor
  exact ⟨_, reading.groups, _, hgroups,
    .cons (List.forall₂_same.2 fun unit _ ↦ .refl unit) .nil,
    run_eq_addRow hcomments (spells_renderText text) hcursor hrest⟩

/-! ## References -/

/-- The text of a reference by number. -/
theorem toList_index (number : Nat) :
    (toString (GroupId.index number)).toList = '\\' :: Nat.toDigits 10 number := by
  have hdigits : (Nat.repr number).toList = Nat.toDigits 10 number := String.toList_ofList
  show ("\\" ++ Nat.repr number).toList = _
  rw [String.toList_append, hdigits]
  rfl

/-- The text of a reference by name. -/
theorem toList_name (name : String) :
    (toString (GroupId.name name)).toList = '\\' :: 'k' :: '<' :: (name.toList ++ ['>']) := by
  show ("\\k<" ++ name ++ ">").toList = _
  rw [String.toList_append, String.toList_append]
  rfl

/-- A reference by number is read up to its last digit when no digit behind it continues the
number. -/
theorem run_eq_index (hcomments : reading.flags.comments = false) {number : Nat} (hpos : 0 < number)
    (hle : number ≤ reading.groups.count)
    (hnext : ∀ c ∈ rest.head?, (GroupId.index number).continuesWith
      reading.groups.count c = false)
    (hrest : reading.cursor.rest = '\\' :: Nat.toDigits 10 number ++ rest) :
    ∃ position, reading.run = reading.addReference ⟨rest, position⟩
      (reading.groups.refer (.index number) number reading.cursor.position) >>= run := by
  obtain ⟨c, digits, htext, hc, hdigits, hvalue⟩ := exists_toDigits_eq hpos
  have hextend : reading.groups.extendNumber (c.toNat - '0'.toNat) (digits ++ rest) =
      (number, digits.length) := by
    rw [Groups.extendNumber_digits _ hdigits (by rwa [hvalue]) (by rwa [hvalue]), hvalue]
  have hquote : c ≠ 'Q' := by
    rintro rfl
    exact absurd hc.2 (by decide)
  rw [htext, List.cons_append, List.cons_append] at hrest
  refine ⟨reading.cursor.position + 1 + (digits.length + 1), ?_⟩
  rw [run_eq_advance hcomments hrest (by simp [hquote])]
  congr 1
  show reading.readEscape reading.cursor.position
    ⟨c :: (digits ++ rest), reading.cursor.position + 1⟩ = _
  simp only [readEscape, if_pos hc, hextend, Cursor.drop, List.drop_succ_cons, List.drop_left]

/-- A reference by name is read up to its bracket. -/
theorem run_eq_name (hcomments : reading.flags.comments = false) {name : String}
    (hname : IsGroupName name) {number : Nat}
    (hnumber : reading.groups.names.lookup name = some number)
    (hrest : reading.cursor.rest = '\\' :: 'k' :: '<' :: (name.toList ++ ['>']) ++ rest) :
    ∃ position, reading.run = reading.addReference ⟨rest, position⟩
      (reading.groups.refer (.name name) number reading.cursor.position) >>= run := by
  have hassoc : (name.toList ++ ['>']) ++ rest = name.toList ++ '>' :: rest := by simp
  rw [List.cons_append, List.cons_append, List.cons_append, hassoc] at hrest
  obtain ⟨stop, hstop⟩ :=
    Reader.reads_groupName hname rest (reading.cursor.position + 1 + 1 + 1)
  refine ⟨stop, ?_⟩
  rw [run_eq_advance hcomments hrest (by simp)]
  congr 1
  show reading.readNamedReference reading.cursor.position
    ⟨'<' :: (name.toList ++ '>' :: rest), reading.cursor.position + 1 + 1⟩ = _
  simp only [readNamedReference, List.head?_cons, if_true, Cursor.drop, List.drop_one,
    List.tail_cons]
  rw [hstop]
  simp only [Groups.referByName, hnumber]

/-- A reference is met as a unit when it stands behind the end of its group and no digit behind it
continues its number. -/
theorem meets_reference (hcomments : reading.flags.comments = false)
    (hgroups : reading.groups.Follows known past) {id : GroupId} {extent : Extent}
    (hback : id ∈ past.flatMap Mark.ids) (hfits : known.Fits (.backref id extent))
    (hnext : ∀ c ∈ rest.head?, id.continuesWith reading.groups.count c = false)
    (hrest : reading.cursor.rest = (toString id).toList ++ rest) :
    reading.Meets known (past ++ [.refers id]) rest (.backref id extent) := by
  obtain ⟨number, name, hmark, hid⟩ := Mark.exists_closes_of_mem_ids hback
  have hanswers := hgroups.closes hmark
  have hnumber := hanswers.number?_eq hid
  obtain ⟨unit, groups, hrefer, hunit, hlater⟩ :=
    hgroups.refer hmark hid hfits reading.cursor.position
  have hrun : ∃ position, reading.run = reading.addReference ⟨rest, position⟩
      (reading.groups.refer id number reading.cursor.position) >>= run := by
    cases id with
    | index index =>
      cases hnumber
      rw [toList_index] at hrest
      exact run_eq_index hcomments hanswers.pos hanswers.opened hnext hrest
    | name other =>
      have hother : name = some other :=
        (hanswers.names.lookup_iff other).1 (hanswers.names.number?_eq hid)
      rw [toList_name] at hrest
      exact run_eq_name hcomments (hanswers.names.isGroupName hother) hnumber hrest
  obtain ⟨position, hrun⟩ := hrun
  refine ⟨position, groups, unit, hlater, hunit, ?_⟩
  rw [hrun, hrefer]
  rfl

/-! ## Groups -/

/-- Reading comes to the text inside a group, behind the marks so far. -/
def Enters (known : Groups) (reading : Reading) (past : List Mark) (text : List Char)
    (kind : GroupKind) (flags : Flags) : Prop :=
  ∃ position start groups, Groups.Follows groups known past ∧
    reading.run = { reading with
      cursor := ⟨text, position⟩
      flags
      groups
      level := {}
      frames := ⟨kind, start, reading.flags, reading.level⟩ :: reading.frames }.run

/-- A group is met as a unit when its body is passed up to its parenthesis. -/
theorem Enters.meets {text : List Char} {kind : GroupKind} {flags : Flags}
    (h : reading.Enters known past text kind flags) (hcomments : flags.comments = false)
    (hrows : rows ≠ [])
    (hbody : ∀ inside : Reading, inside.cursor.rest = text → inside.flags = flags →
      inside.groups.Follows known past → inside.level = {} →
      inside.Passes known later (')' :: rest) rows)
    (hnumbered : IsNumbered 1 (later.filterMap Mark.opened?))
    (hopen : ∀ mark ∈ kind.opening, mark ∈ later)
    (hfits : known.Fits (.group kind (.ofRows rows))) :
    reading.Meets known (later ++ kind.closing) rest (.group kind (.ofRows rows)) := by
  obtain ⟨position, start, groups, hgroups, hrun⟩ := h
  obtain ⟨stop, after, rows', hafter, hnarrows, hpass⟩ :=
    hbody ⟨⟨text, position⟩, flags, groups, {},
    ⟨kind, start, reading.flags, reading.level⟩ :: reading.frames⟩ rfl rfl hgroups rfl
  have hsome : rows' ≠ [] := by
    rintro rfl
    exact hrows (List.forall₂_nil_left_iff.1 hnarrows)
  have htree : (Level.addRows {} rows').tree = .ofRows rows' := Level.tree_addRows hsome
  have hbody := Regex.Narrows.ofRows hnarrows
  -- A narrower body owes no more to the groups.
  have hfits := known.stable_fits.group hfits hbody.within
  have hnames (number : Nat) (name : Option String) (heq : kind = .capturing number name) :
      known.Names number name ∧ ∃ outer, known.closed.lookup number = some outer ∧
        (Regex.ofRows rows').extent.Within outer := by
    subst heq
    exact hfits
  have hclose : ¬ (kind.isLookaround = true ∧ (Regex.ofRows rows').maxLength = .unbounded) := by
    rintro ⟨hlookaround, hmax⟩
    cases kind with
    | lookahead negated => exact hfits rfl hmax
    | lookbehind negated => exact hfits rfl hmax
    | capturing number name => cases hlookaround
    | plain => cases hlookaround
    | atomic => cases hlookaround
  refine ⟨stop + 1, after.close kind (Regex.ofRows rows').extent, _,
    hafter.close hnumbered hopen hnames, hbody.group kind, ?_⟩
  rw [hrun, hpass, run_eq_advance hcomments rfl (by simp)]
  congr 1
  simp only [advance, closeGroup, htree, if_neg hclose]
  rfl

/-- A group that captures nothing is entered behind its mark. -/
theorem enters_of_numbers_eq_nil {kind : GroupKind} (hkind : kind.numbers = [])
    (hcomments : reading.flags.comments = false) (hgroups : reading.groups.Follows known past)
    {text : List Char} (hrest : reading.cursor.rest = '(' :: (kind.mark ++ text)) :
    reading.Enters known (past ++ kind.opening) text kind reading.flags := by
  rw [GroupKind.opening_eq_nil hkind, List.append_nil]
  refine ⟨reading.cursor.position + 1 + kind.mark.length, reading.cursor.position, reading.groups,
    hgroups, ?_⟩
  rw [run_eq_advance hcomments hrest (by simp)]
  cases kind with
  | capturing number name => cases hkind
  | plain => rfl
  | atomic => rfl
  | lookahead negated => cases negated <;> rfl
  | lookbehind negated => cases negated <;> rfl

/-- A plain group in which case does not count is entered behind its mark. -/
theorem enters_ignoreCase (hflags : reading.flags = .none)
    (hgroups : reading.groups.Follows known past)
    {text : List Char} (hrest : reading.cursor.rest = '(' :: '?' :: 'i' :: ':' :: text) :
    reading.Enters known past text .plain { ignoreCase := true } := by
  refine ⟨reading.cursor.position + 4, reading.cursor.position, reading.groups, hgroups, ?_⟩
  rw [run_eq_advance (by rw [hflags]; rfl) hrest (by simp)]
  have hswitch : readFlags false reading.flags ('i' :: ':' :: text) (reading.cursor.position + 2) =
      .ok ({ ignoreCase := true }, true, ⟨text, reading.cursor.position + 4⟩) := by
    rw [hflags]
    rfl
  have hadvance : reading.advance '(' reading.cursor.position
      ⟨'?' :: 'i' :: ':' :: text, reading.cursor.position + 1⟩ =
      reading.switchFlags reading.cursor.position
        ⟨'i' :: ':' :: text, reading.cursor.position + 2⟩ := rfl
  rw [hadvance, switchFlags, hswitch]
  rfl

/-- Behind a question mark and a bracket, a name that is read opens a capturing group. -/
theorem openMarked_name {c : Char} (hequals : c ≠ '=') (hbang : c ≠ '!') {letters : List Char}
    {start position : Nat} {name : String} {after : Cursor}
    (h : Reader.groupName.run ⟨c :: letters, position + 1⟩ = .ok (name, after)) :
    reading.openMarked start ⟨'<' :: c :: letters, position⟩ =
      reading.enterCapture (some name) start after := by
  unfold openMarked
  split
  case h_7 =>
    simp only [Cursor.drop, List.drop_one, List.tail_cons]
    rw [h]
  case h_8 hne heq =>
    cases heq
    exact (hne rfl).elim
  all_goals simp_all

/-- The next capturing group is entered behind its mark. -/
theorem enters_capturing (hcomments : reading.flags.comments = false)
    (hgroups : reading.groups.Follows known past) {name : Option String}
    (hname : known.Names (reading.groups.count + 1) name) {text : List Char} (htext : AtUnit text)
    (hrest : reading.cursor.rest =
      '(' :: ((GroupKind.capturing (reading.groups.count + 1) name).mark ++ text)) :
    reading.Enters known (past ++ [.opens (reading.groups.count + 1) name]) text
      (.capturing (reading.groups.count + 1) name) reading.flags := by
  obtain ⟨groups, hopen, hlater⟩ := hgroups.openCapture hname reading.cursor.position
  have henter (cursor : Cursor) : reading.enterCapture name reading.cursor.position cursor =
      .ok ({ reading with groups }.enter (.capturing (reading.groups.count + 1) name)
        reading.cursor.position cursor) := by
    rw [enterCapture, hopen]
    rfl
  cases name with
  | none =>
    refine ⟨reading.cursor.position + 1, reading.cursor.position, groups, hlater, ?_⟩
    -- Without a question mark behind it, a parenthesis captures.
    have hhead : text.head? ≠ some '?' := fun heq ↦ htext.unmarked '?' heq (by simp)
    have hrest : reading.cursor.rest = '(' :: text := hrest
    rw [run_eq_advance hcomments hrest (by simp)]
    show reading.openGroup _ _ >>= run = _
    rw [openGroup, if_neg hhead, henter]
    rfl
  | some name =>
    have hwritten := hname.isGroupName rfl
    have hletter := hwritten.letter
    have hrest : reading.cursor.rest = '(' :: '?' :: '<' :: (name.toList ++ '>' :: text) := by
      rw [hrest]
      simp [GroupKind.mark]
    obtain ⟨stop, hstop⟩ := Reader.reads_groupName hwritten text
      (reading.cursor.position + 1 + 1 + 1)
    have hmarked : reading.openMarked reading.cursor.position
        ⟨'<' :: (name.toList ++ '>' :: text), reading.cursor.position + 1 + 1⟩ =
        reading.enterCapture (some name) reading.cursor.position ⟨text, stop⟩ := by
      cases hletters : name.toList with
      | nil => simp [hletters] at hletter
      | cons c letters =>
        rw [hletters] at hstop hletter
        rw [List.head?_cons, Option.any_some] at hletter
        refine openMarked_name ?_ ?_ hstop
        · rintro rfl
          simp at hletter
        · rintro rfl
          simp at hletter
    refine ⟨stop, reading.cursor.position, groups, hlater, ?_⟩
    rw [run_eq_advance hcomments hrest (by simp)]
    show reading.openMarked reading.cursor.position
      ⟨'<' :: (name.toList ++ '>' :: text), reading.cursor.position + 1 + 1⟩ >>= run = _
    rw [hmarked, henter]
    rfl

end Reading

end Exemplar
