import Exemplar.Proofs.Grammar.Certainty
import Exemplar.Proofs.Grammar.Units

/-!
# The patterns of trees are read back

The pattern of a tree that fits its groups is read as the units of the tree (`Reading.rereads`), by
induction over the tree: a body in parentheses is passed before the group is met, and parts and
options are passed one after the other. The groups have to be numbered in the order in which they
begin, references have to stand behind their groups, and no digit behind the number of a reference
may continue it (`Regex.separates`). If besides the tree needs no group in front of it, its pattern
is accepted, and the tree that is read is the same up to the extents of references
(`Regex.exists_parse_render`).
-/

namespace Exemplar

open Regex (renderChar renderText)

/-- What fits groups is readable. -/
theorem Groups.Fits.isReadable {groups : Groups} {node : Regex} (h : groups.Fits node) :
    node.IsReadable := by
  cases node with
  | literal text ignoreCase => exact h
  | choice options => exact h
  | repetition body least most mode => exact ⟨h.allows, h.least_lt⟩
  | empty => exact trivial
  | set members => exact trivial
  | sequence parts => exact trivial
  | group kind body => exact trivial
  | backref id extent => exact trivial

/-- A plain group owes nothing to groups. -/
theorem Groups.fits_plain (groups : Groups) (body : Regex) : groups.Fits (.group .plain body) :=
  fun hlookaround ↦ Bool.noConfusion hlookaround

namespace Regex

/-- The pattern of a part of a sequence. -/
def renderPart : Regex → List Char
  | choice options => renderGrouped (render (choice options))
  | part => render part

/-- The text behind a part of a sequence, with the parenthesis of a choice. -/
def behindPart : Regex → List Char → List Char
  | choice _, rest => ')' :: rest
  | _, rest => rest

/-- The patterns of parts stand in a row. -/
theorem renderParts_cons (part : Regex) (parts : List Regex) :
    renderParts (part :: parts) = renderPart part ++ renderParts parts := by
  cases part <;> rfl

mutual
/-- No reference in the pattern of the tree goes on with the character behind it. So many groups
were opened before, and the rest is the text behind the pattern. -/
def separates : Regex → (opened : Nat) → (rest : List Char) → Bool
  | sequence parts, opened, rest => separatesParts parts opened rest
  | choice options, opened, rest => separatesOptions options opened rest
  | repetition body least most mode, opened, rest =>
      let rest := renderCounts least most ++ (mode.mark ++ rest)
      separates body opened (if body.needsGroup then ')' :: rest else rest)
  | group kind body, opened, rest => separates body (opened + kind.numbers.length) (')' :: rest)
  | backref id _, opened, rest => rest.head?.all fun c ↦ !id.continuesWith opened c
  | _, _, _ => true

/-- No reference in the patterns of parts goes on with the character behind it. -/
def separatesParts : List Regex → (opened : Nat) → (rest : List Char) → Bool
  | [], _, _ => true
  | part :: parts, opened, rest =>
      separates part opened (behindPart part (renderParts parts ++ rest)) &&
        separatesParts parts (opened + part.groupNumbers.length) rest

/-- No reference in the patterns of options goes on with the character behind it. -/
def separatesOptions : List Regex → (opened : Nat) → (rest : List Char) → Bool
  | [], _, _ => true
  | option :: options, opened, rest =>
      separates option opened (renderOptions options ++ rest) &&
        separatesOptions options (opened + option.groupNumbers.length) rest
end

/-- A tree without references separates them. -/
theorem separates_of_referenceIds_eq_nil {tree : Regex} (h : tree.referenceIds = []) (opened : Nat)
    (rest : List Char) : tree.separates opened rest = true := by
  induction tree generalizing opened rest with
  | empty => rfl
  | literal text ignoreCase => rfl
  | set members => rfl
  | sequence parts ih =>
    have hparts := List.flatMap_eq_nil_iff.1 (referenceIds_sequence parts ▸ h)
    rw [separates]
    clear h
    induction parts generalizing opened with
    | nil => rfl
    | cons part parts ihparts =>
      obtain ⟨hpart, hrest⟩ := List.forall_mem_cons.1 hparts
      rw [separatesParts, ih part (by simp) hpart, Bool.true_and]
      exact ihparts (fun other hother ↦ ih other (List.mem_cons_of_mem _ hother)) _ hrest
  | choice options ih =>
    have hoptions := List.flatMap_eq_nil_iff.1 (referenceIds_choice options ▸ h)
    rw [separates]
    clear h
    induction options generalizing opened with
    | nil => rfl
    | cons option options ihoptions =>
      obtain ⟨hoption, hrest⟩ := List.forall_mem_cons.1 hoptions
      rw [separatesOptions, ih option (by simp) hoption, Bool.true_and]
      exact ihoptions (fun other hother ↦ ih other (List.mem_cons_of_mem _ hother)) _ hrest
  | repetition body least most mode ih => exact ih h _ _
  | group kind body ih => exact ih (referenceIds_group kind body ▸ h) _ _
  | backref id extent => cases h

/-- A reference begins a unit. -/
theorem atUnit_reference (id : GroupId) (rest : List Char) :
    AtUnit ((toString id).toList ++ rest) := by
  cases id with
  | index number =>
    rw [Reading.toList_index]
    refine ⟨by simp, fun more heq ↦ ?_⟩
    -- A digit stands behind the backslash.
    have hdigits := (Escape.numberOf_toDigits (show 1 < 10 by decide) (by decide) number).2
    cases hlist : Nat.toDigits 10 number with
    | nil => exact absurd hlist Nat.toDigits_ne_nil
    | cons c digits =>
      rw [hlist] at heq hdigits
      cases heq
      exact absurd (hdigits 'Q' List.mem_cons_self) (by decide)
  | name name =>
    rw [Reading.toList_name]
    exact ⟨by simp, by simp⟩

/-- The pattern of a readable tree begins a unit, or it is empty. -/
theorem atUnit_render {tree : Regex} (h : tree.Everywhere IsReadable) {rest : List Char}
    (hrest : AtUnit rest) : AtUnit (tree.render ++ rest) := by
  induction tree generalizing rest with
  | empty => exact hrest
  | literal text ignoreCase =>
    cases ignoreCase with
    | true => exact atUnit_cons (by simp) _
    | false => exact atUnit_renderText text hrest
  | set members =>
    obtain ⟨text, hrender, -⟩ := members.readBracket_render
    rw [render, hrender]
    exact atUnit_cons (by simp) _
  | sequence parts ih =>
    have hparts := (everywhere_sequence.1 h).2
    rw [render]
    clear h
    induction parts with
    | nil => exact hrest
    | cons part parts ihparts =>
      obtain ⟨hpart, hothers⟩ := List.forall_mem_cons.1 hparts
      have hlater := ihparts (fun other hother ↦ ih other (List.mem_cons_of_mem _ hother)) hothers
      rw [renderParts_cons, List.append_assoc]
      unfold renderPart
      split
      · exact atUnit_cons (by simp) _
      · exact ih part (by simp) hpart hlater
  | choice options ih =>
    have hoptions := (everywhere_choice.1 h).2
    cases options with
    | nil => exact hrest
    | cons option options =>
      rw [render, List.append_assoc]
      refine ih option (by simp) (hoptions option (by simp)) ?_
      cases options with
      | nil => exact hrest
      | cons next options => exact atUnit_cons (by simp) _
  | repetition body least most mode ih =>
    have hbody := (everywhere_repetition.1 h).2
    rw [render]
    split
    · exact atUnit_cons (by simp) _
    · rename_i hneeds
      -- The body is not empty, whatever mark stands behind it.
      cases body with
      | literal text ignoreCase =>
        cases ignoreCase with
        | true => exact atUnit_cons (by simp) _
        | false =>
          cases text with
          | nil => exact absurd rfl hbody
          | cons c text =>
            rw [render, renderText, List.flatMap_cons, List.append_assoc, List.append_assoc,
              List.append_assoc]
            exact (spells_renderChar c).atUnit _
      | set members =>
        obtain ⟨text, hrender, -⟩ := members.readBracket_render
        rw [render, hrender]
        exact atUnit_cons (by simp) _
      | group kind body => exact atUnit_cons (by simp) _
      | backref id extent =>
        rw [render, List.append_assoc, List.append_assoc]
        exact atUnit_reference id _
      | empty => simp [needsGroup] at hneeds
      | sequence parts => simp [needsGroup] at hneeds
      | choice options => simp [needsGroup] at hneeds
      | repetition body least most mode => simp [needsGroup] at hneeds
  | group kind body ih => exact atUnit_cons (by simp) _
  | backref id extent => exact atUnit_reference id rest

end Regex

namespace Reading

open Regex (Everywhere IsReadable everywhere_sequence everywhere_choice everywhere_repetition
  everywhere_group)

variable {known : Groups} {reading : Reading} {past marks others : List Mark} {rest : List Char}

/-- Reading is in front of a text with the given marks, under no flags. The marks so far are on
record, the groups have the numbers from one on, and references stand behind their groups. -/
structure Starts (known : Groups) (reading : Reading) (past : List Mark) (text : List Char)
    (marks : List Mark) : Prop where
  flags : reading.flags = .none
  groups : reading.groups.Follows known past
  rest : reading.cursor.rest = text
  numbered : IsNumbered 1 ((past ++ marks).filterMap Mark.opened?)
  leadBack : LeadBack (past ++ marks)

namespace Starts

variable {text behind : List Char}

/-- Blanks and comments count when no switch is on. -/
theorem comments (h : reading.Starts known past text marks) : reading.flags.comments = false := by
  rw [h.flags]
  rfl

/-- Reading starts in front of the first of two texts. -/
theorem of_append (h : reading.Starts known past text (marks ++ others)) :
    reading.Starts known past text marks := by
  obtain ⟨hflags, hgroups, hrest, hnumbered, hback⟩ := h
  rw [← List.append_assoc] at hnumbered hback
  rw [List.filterMap_append] at hnumbered
  exact ⟨hflags, hgroups, hrest, hnumbered.of_append, hback.of_append⟩

/-- Reading starts again in front of the second of two texts. -/
theorem next (h : reading.Starts known past text (marks ++ others)) {position : Nat}
    {groups : Groups} (hgroups : groups.Follows known (past ++ marks)) (level : Level) :
    { reading with cursor := ⟨behind, position⟩, groups, level }.Starts known
      (past ++ marks) behind others :=
  ⟨h.flags, hgroups, rfl, by rw [List.append_assoc]; exact h.numbered,
    by rw [List.append_assoc]; exact h.leadBack⟩

/-- Behind a tree, so many more groups were opened. -/
theorem count_eq {tree : Regex} (h : reading.Starts known past text (tree.marks ++ others))
    {groups : Groups} (hgroups : groups.Follows known (past ++ tree.marks)) :
    groups.count = reading.groups.count + tree.groupNumbers.length := by
  rw [hgroups.count_eq, h.groups.count_eq, List.filterMap_append, List.length_append,
    Regex.filterMap_opened_marks]

end Starts

/-- The pattern of a tree is read as the units of the tree. A tree that needs no group in front of
a repetition mark is one unit, and in front of a unit, the rows of the tree are added. -/
structure Rereads (known : Groups) (tree : Regex) : Prop where
  unit {reading : Reading} {past : List Mark} {rest : List Char} : tree.needsGroup = false →
    reading.Starts known past (tree.render ++ rest) tree.marks →
    tree.separates reading.groups.count rest = true →
    reading.Meets known (past ++ tree.marks) rest (Regex.onlyUnit tree.rows)
  rows {reading : Reading} {past : List Mark} {rest : List Char} : AtUnit rest →
    reading.Starts known past (tree.render ++ rest) tree.marks →
    tree.separates reading.groups.count rest = true →
    reading.Passes known (past ++ tree.marks) rest tree.rows

/-- A tree whose pattern is one unit is read as the unit. -/
theorem Rereads.of_unit {tree unit : Regex} (hrows : tree.rows = [[unit]])
    (h : ∀ {reading : Reading} {past : List Mark} {rest : List Char},
      reading.Starts known past (tree.render ++ rest) tree.marks →
      tree.separates reading.groups.count rest = true →
      reading.Meets known (past ++ tree.marks) rest unit) : Rereads known tree where
  unit _ hstarts hseparates := by
    rw [hrows]
    exact h hstarts hseparates
  rows hrest hstarts hseparates := by
    rw [hrows]
    exact (h hstarts hseparates).passes hstarts.comments hrest

/-- A group is read as a group when its body is read. -/
theorem Rereads.meets_group {kind : GroupKind} {body : Regex} (h : Rereads known body)
    (hbody : body.Everywhere IsReadable) (hfits : known.Fits (.group kind body))
    (hstarts : reading.Starts known past ('(' :: (kind.mark ++ (body.render ++ ')' :: rest)))
      (Regex.group kind body).marks)
    (hseparates : body.separates (reading.groups.count + kind.numbers.length)
      (')' :: rest) = true) :
    reading.Meets known (past ++ (Regex.group kind body).marks) rest (.group kind body.reread) := by
  have hrender : AtUnit (body.render ++ ')' :: rest) :=
    Regex.atUnit_render hbody (atUnit_cons (by simp) rest)
  rw [Regex.marks_group] at hstarts ⊢
  have hopened := hstarts.of_append
  have henters : reading.Enters known (past ++ kind.opening)
      (body.render ++ ')' :: rest) kind .none := by
    rw [← hstarts.flags]
    cases kind with
    | capturing number name =>
      have hnumber : number = reading.groups.count + 1 := by
        have hnumbered := hopened.of_append.numbered
        rw [List.filterMap_append] at hnumbered
        rw [hstarts.groups.count_eq, Nat.add_comm]
        exact hnumbered.eq_of_append
      subst hnumber
      exact enters_capturing hstarts.comments hstarts.groups hfits.1 hrender hstarts.rest
    | plain => exact enters_of_numbers_eq_nil rfl hstarts.comments hstarts.groups hstarts.rest
    | atomic => exact enters_of_numbers_eq_nil rfl hstarts.comments hstarts.groups hstarts.rest
    | lookahead negated =>
      exact enters_of_numbers_eq_nil rfl hstarts.comments hstarts.groups hstarts.rest
    | lookbehind negated =>
      exact enters_of_numbers_eq_nil rfl hstarts.comments hstarts.groups hstarts.rest
  -- Rereading keeps the extent, so the body owes as much to the groups as it did.
  have hreread : known.Fits (.group kind (.ofRows body.rows)) := by
    refine known.stable_fits.group hfits ?_
    rw [← hbody.extent_reread]
    exact .refl _
  have hnumbered := hopened.numbered
  rw [← List.append_assoc] at hnumbered
  rw [List.append_assoc, ← List.append_assoc past, ← List.append_assoc]
  refine henters.meets rfl (Regex.rows_ne_nil hbody.wellFormed)
    (fun inside hrest hflags hgroups _ ↦ ?_) hnumbered (by simp +contextual) hreread
  have hcount : inside.groups.count = reading.groups.count + kind.numbers.length := by
    rw [hgroups.count_eq, hstarts.groups.count_eq, List.filterMap_append, List.length_append]
    cases kind <;> rfl
  refine h.rows (atUnit_cons (by simp) rest) ⟨hflags, hgroups, hrest, hnumbered, ?_⟩
    (hcount ▸ hseparates)
  rw [List.append_assoc]
  exact hopened.leadBack

/-- A body in a plain group is read as a plain group. -/
theorem Rereads.meets_grouped {body : Regex} (h : Rereads known body)
    (hbody : body.Everywhere IsReadable)
    (hstarts : reading.Starts known past (Regex.renderGrouped body.render ++ rest) body.marks)
    (hseparates : body.separates reading.groups.count (')' :: rest) = true) :
    reading.Meets known (past ++ body.marks) rest (.group .plain body.reread) := by
  have htext : Regex.renderGrouped body.render ++ rest =
      '(' :: (GroupKind.plain.mark ++ (body.render ++ ')' :: rest)) := by
    simp [Regex.renderGrouped, GroupKind.mark]
  have hmarks : (Regex.group .plain body).marks = body.marks := List.append_nil _
  rw [htext, ← hmarks] at hstarts
  rw [← hmarks]
  exact h.meets_group hbody (known.fits_plain body) hstarts hseparates

/-- A text in which case does not count is read as a plain group of its characters. -/
theorem meets_text_ignoreCase (text : List Char)
    (hstarts : reading.Starts known past ((Regex.literal text true).render ++ rest) []) :
    reading.Meets known past rest (.group .plain (.inSequence (Regex.unitsOfText text true))) := by
  have hrest : reading.cursor.rest =
      '(' :: '?' :: 'i' :: ':' :: (renderText text ++ ')' :: rest) := by
    rw [hstarts.rest]
    simp [Regex.render]
  have henters := enters_ignoreCase hstarts.flags hstarts.groups hrest
  have hnumbered := hstarts.numbered
  have htree : Regex.inSequence (Regex.unitsOfText text true) =
      .ofRows [Regex.unitsOfText text true] := rfl
  rw [List.append_nil] at hnumbered
  rw [← List.append_nil past, htree]
  refine henters.meets rfl (List.cons_ne_nil _ _)
    (fun inside hrest hflags hgroups _ ↦ ?_) hnumbered
    (by simp [GroupKind.opening]) (known.fits_plain _)
  have hpasses := passes_text (by rw [hflags]) hgroups text hrest (atUnit_cons (by simp) rest)
  rwa [hflags] at hpasses

/-- A part of a sequence is read as its units. -/
theorem Rereads.passes_part {part : Regex} (h : Rereads known part)
    (hread : part.Everywhere IsReadable) (hrest : AtUnit rest)
    (hstarts : reading.Starts known past (part.renderPart ++ rest) part.marks)
    (hseparates : part.separates reading.groups.count (part.behindPart rest) = true) :
    reading.Passes known (past ++ part.marks) rest [Regex.asPart part part.rows] := by
  by_cases hchoice : ∃ options, part = .choice options
  · -- The branches of a choice would split the row, so it is put into a group.
    obtain ⟨options, rfl⟩ := hchoice
    exact (h.meets_grouped hread hstarts hseparates).passes hstarts.comments hrest
  · have hne (options : List Regex) : part ≠ .choice options :=
      fun heq ↦ hchoice ⟨options, heq⟩
    obtain ⟨row, hrow⟩ := Regex.exists_rows_eq hne
    have htext : part.renderPart = part.render := by
      unfold Regex.renderPart
      split
      · exact absurd rfl (hne _)
      · rfl
    have hbehind : part.behindPart rest = rest := by
      unfold Regex.behindPart
      split
      · exact absurd rfl (hne _)
      · rfl
    rw [htext] at hstarts
    rw [hbehind] at hseparates
    have hpasses := h.rows hrest hstarts hseparates
    rw [hrow] at hpasses
    rw [Regex.asPart_of_ne hne, hrow, List.flatten_singleton]
    exact hpasses

/-- A text that is the only unit of a tree has one character at most. -/
theorem onlyUnit_rows_literal {tree : Regex} (hread : tree.Everywhere IsReadable)
    (hneeds : ¬ tree.needsGroup = true) (text : List Char) (ignoreCase : Bool)
    (heq : Regex.onlyUnit tree.rows = .literal text ignoreCase) : text.length ≤ 1 := by
  cases tree with
  | literal letters ignoring =>
    cases ignoring with
    | true => cases heq
    | false =>
      match letters, hread, hneeds with
      | [c], _, _ => cases heq; simp
  | set members => cases heq
  | group kind body => cases heq
  | backref id extent => cases heq
  | empty => simp [Regex.needsGroup] at hneeds
  | sequence parts => simp [Regex.needsGroup] at hneeds
  | choice options => simp [Regex.needsGroup] at hneeds
  | repetition body least most mode => simp [Regex.needsGroup] at hneeds

/-- Parts in a row are read one after the other. -/
theorem passes_parts {parts : List Regex} (h : ∀ part ∈ parts, Rereads known part)
    (hread : ∀ part ∈ parts, part.Everywhere IsReadable) (hrest : AtUnit rest)
    (hstarts : reading.Starts known past (Regex.renderParts parts ++ rest)
      (parts.flatMap Regex.marks))
    (hseparates : Regex.separatesParts parts reading.groups.count rest = true) :
    reading.Passes known (past ++ parts.flatMap Regex.marks) rest [Regex.rowOfParts parts] := by
  induction parts generalizing reading past with
  | nil =>
    rw [List.flatMap_nil, List.append_nil]
    exact .refl hstarts.groups hstarts.rest
  | cons part parts ih =>
    obtain ⟨hpart, hparts⟩ := List.forall_mem_cons.1 h
    obtain ⟨hone, hall⟩ := List.forall_mem_cons.1 hread
    have hlater : AtUnit (Regex.renderParts parts ++ rest) :=
      Regex.atUnit_render (everywhere_sequence.2 ⟨trivial, hall⟩) hrest
    rw [Regex.renderParts_cons, List.append_assoc, List.flatMap_cons] at hstarts
    rw [Regex.separatesParts, Bool.and_eq_true] at hseparates
    obtain ⟨hfirst, hnext⟩ := hseparates
    rw [Regex.rowOfParts, List.flatMap_cons, ← List.append_assoc]
    refine (hpart.passes_part hone hlater hstarts.of_append hfirst).andThen
      fun position groups level hgroups ↦ ?_
    rw [← hstarts.count_eq hgroups] at hnext
    exact ih hparts hall (hstarts.next hgroups level) hnext

/-- Options are read one after the other, with bars between them. -/
theorem passes_options {option : Regex} {options : List Regex}
    (h : ∀ tree ∈ option :: options, Rereads known tree)
    (hread : ∀ tree ∈ option :: options, tree.Everywhere IsReadable) (hrest : AtUnit rest)
    (hstarts : reading.Starts known past (option.render ++ (Regex.renderOptions options ++ rest))
      ((option :: options).flatMap Regex.marks))
    (hseparates : Regex.separatesOptions (option :: options) reading.groups.count rest = true) :
    reading.Passes known (past ++ (option :: options).flatMap Regex.marks) rest
      (Regex.rowsOfOptions (option :: options)) := by
  rw [Regex.separatesOptions, Bool.and_eq_true] at hseparates
  obtain ⟨hfirst, hnext⟩ := hseparates
  induction options generalizing reading past option with
  | nil =>
    rw [List.flatMap_singleton] at hstarts ⊢
    rw [Regex.rowsOfOptions, Regex.rowsOfOptions, List.append_nil]
    exact (h option (by simp)).rows hrest hstarts hfirst
  | cons next options ih =>
    obtain ⟨hoption, hoptions⟩ := List.forall_mem_cons.1 h
    obtain ⟨hone, hall⟩ := List.forall_mem_cons.1 hread
    -- Behind the first option stands a bar, which ends its row, and reading goes on behind the bar.
    have hbar : AtUnit (Regex.renderOptions (next :: options) ++ rest) := atUnit_cons (by simp) _
    have hrows : Regex.rowsOfOptions (next :: options) ≠ [] :=
      List.append_ne_nil_of_left_ne_nil (Regex.rows_ne_nil (hall next (by simp)).wellFormed) _
    have htext : Regex.renderOptions (next :: options) ++ rest =
        '|' :: (next.render ++ (Regex.renderOptions options ++ rest)) := by
      simp [Regex.renderOptions]
    rw [List.flatMap_cons] at hstarts ⊢
    have hpasses := hoption.rows hbar hstarts.of_append hfirst
    rw [htext] at hpasses
    rw [Regex.rowsOfOptions, ← List.append_assoc]
    refine hpasses.orElse hstarts.comments (Regex.rows_ne_nil hone.wellFormed) hrows
      fun position groups level hgroups ↦ ?_
    rw [← hstarts.count_eq hgroups, Regex.separatesOptions, Bool.and_eq_true] at hnext
    exact ih hoptions hall (hstarts.next hgroups level) hnext.1 hnext.2

/-- A text is read as its characters, in a plain group when case does not count. -/
theorem rereads_literal {text : List Char} (hsome : text ≠ []) (ignoreCase : Bool) :
    Rereads known (.literal text ignoreCase) := by
  have hmarks (past : List Mark) : past ++ (Regex.literal text ignoreCase).marks = past :=
    List.append_nil past
  cases ignoreCase with
  | true =>
    exact .of_unit rfl fun hstarts _ ↦ (hmarks _).symm ▸ meets_text_ignoreCase text hstarts
  | false =>
    refine ⟨fun {reading past rest} hneeds hstarts _ ↦ ?_, fun hrest hstarts _ ↦ ?_⟩
    · have hone : text.length = 1 := by
        have hlength := List.length_pos_of_ne_nil hsome
        simp [Regex.needsGroup] at hneeds
        omega
      obtain ⟨c, rfl⟩ := List.length_eq_one_iff.1 hone
      have hcursor : reading.cursor.rest = renderChar c ++ rest := by
        rw [hstarts.rest]
        simp [Regex.render, renderText]
      have hmeets := meets_char hstarts.comments hstarts.groups c hcursor
      rw [hstarts.flags] at hmeets
      exact (hmarks past).symm ▸ hmeets
    · have hpasses := passes_text hstarts.comments hstarts.groups text hstarts.rest hrest
      rw [hstarts.flags] at hpasses
      exact (hmarks _).symm ▸ hpasses

/-- The mark of a repetition binds one unit: its body in a plain group, or the body where it is a
unit itself. -/
theorem rereads_repetition {body : Regex} (h : Rereads known body)
    (hread : body.Everywhere IsReadable) {least : Nat} {most : Bound} {mode : RepetitionMode}
    (hcounts : Quantifier.AreCounts least most) :
    Rereads known (.repetition body least most mode) where
  unit hneeds := by simp [Regex.needsGroup] at hneeds
  rows {reading past rest} hrest hstarts hseparates := by
    rw [Regex.render, List.append_assoc, List.append_assoc] at hstarts
    rw [Regex.rows]
    rw [Regex.separates] at hseparates
    by_cases hneeds : body.needsGroup = true
    · rw [if_pos hneeds] at hstarts hseparates ⊢
      have hmeets := h.meets_grouped hread hstarts hseparates
      exact hmeets.passes_repetition hstarts.comments (by simp) hcounts hrest
    · rw [if_neg hneeds] at hstarts hseparates ⊢
      have hmeets := h.unit (Bool.eq_false_iff.2 hneeds) hstarts hseparates
      exact hmeets.passes_repetition hstarts.comments (onlyUnit_rows_literal hread hneeds) hcounts
        hrest

/-- The pattern of a tree that fits the groups is read as the units of the tree. -/
theorem rereads {tree : Regex} (hfits : tree.Everywhere known.Fits) : Rereads known tree := by
  have hread : tree.Everywhere IsReadable := hfits.mono fun _ ↦ Groups.Fits.isReadable
  induction tree with
  | empty =>
    refine ⟨fun hneeds ↦ (by simp [Regex.needsGroup] at hneeds), fun hrest hstarts _ ↦ ?_⟩
    exact (List.append_nil _).symm ▸ .refl hstarts.groups hstarts.rest
  | literal text ignoreCase => exact rereads_literal hread ignoreCase
  | set members =>
    refine .of_unit rfl fun {reading past rest} hstarts _ ↦ ?_
    exact (List.append_nil past).symm ▸
      meets_set hstarts.flags hstarts.groups members hstarts.rest
  | sequence parts ih =>
    obtain ⟨-, hfits⟩ := everywhere_sequence.1 hfits
    obtain ⟨-, hread⟩ := everywhere_sequence.1 hread
    have hparts : ∀ part ∈ parts, Rereads known part := fun part hpart ↦
      ih part hpart (hfits part hpart) (hread part hpart)
    refine ⟨fun hneeds ↦ (by simp [Regex.needsGroup] at hneeds),
      fun hrest hstarts hseparates ↦ ?_⟩
    rw [Regex.marks_sequence] at hstarts ⊢
    exact passes_parts hparts hread hrest hstarts hseparates
  | choice options ih =>
    obtain ⟨hsome, hfits⟩ := everywhere_choice.1 hfits
    obtain ⟨-, hread⟩ := everywhere_choice.1 hread
    have hoptions : ∀ option ∈ options, Rereads known option := fun option hoption ↦
      ih option hoption (hfits option hoption) (hread option hoption)
    refine ⟨fun hneeds ↦ (by simp [Regex.needsGroup] at hneeds),
      fun hrest hstarts hseparates ↦ ?_⟩
    rw [Regex.marks_choice] at hstarts ⊢
    cases options with
    | nil => exact absurd rfl hsome
    | cons option options =>
      rw [Regex.render, List.append_assoc] at hstarts
      exact passes_options hoptions hread hrest hstarts hseparates
  | repetition body least most mode ih =>
    obtain ⟨hcounts, hfits⟩ := everywhere_repetition.1 hfits
    obtain ⟨-, hread⟩ := everywhere_repetition.1 hread
    exact rereads_repetition (ih hfits hread) hread hcounts
  | group kind body ih =>
    obtain ⟨hkind, hbody⟩ := everywhere_group.1 hfits
    obtain ⟨-, hread⟩ := everywhere_group.1 hread
    refine .of_unit rfl fun {reading past rest} hstarts hseparates ↦ ?_
    have htext : (Regex.group kind body).render ++ rest =
        '(' :: (kind.mark ++ (body.render ++ ')' :: rest)) := by
      simp [Regex.render]
    rw [htext] at hstarts
    exact (ih hbody hread).meets_group hread hkind hstarts hseparates
  | backref id extent =>
    refine .of_unit rfl fun {reading past rest} hstarts hseparates ↦ ?_
    have hnext : ∀ c ∈ rest.head?, id.continuesWith reading.groups.count c = false := by
      simpa [Regex.separates, Option.all_eq_true] using hseparates
    exact meets_reference hstarts.comments hstarts.groups
      (hstarts.leadBack past id [] rfl) hfits hnext hstarts.rest

end Reading

namespace Regex

variable {known : Groups} {tree : Regex}

/-- A tree that is read from the pattern of a tree, under no flags, is the same up to the extents of
references. -/
theorem exists_parse_render (hfits : tree.Everywhere known.Fits) (hpossible : tree.Possible)
    (hnumbered : Reading.IsNumbered 1 tree.groupNumbers) (hback : LeadBack tree.marks)
    (hseparates : tree.separates 0 [] = true) (hneeded : tree.certainty.needed = []) :
    ∃ read, parse tree.render .none = .ok read ∧ read.bare = tree.reread.bare := by
  have hread : tree.Everywhere IsReadable := hfits.mono fun _ ↦ Groups.Fits.isReadable
  have hstarts : (Reading.start tree.render .none).Starts known [] (tree.render ++ []) tree.marks :=
    ⟨rfl, .start known, (List.append_nil _).symm,
    (filterMap_opened_marks tree).symm ▸ hnumbered, hback⟩
  have hend : AtUnit [] := ⟨nofun, nofun⟩
  obtain ⟨position, groups, rows, -, hnarrows, hpasses⟩ :=
    (Reading.rereads hfits).rows hend hstarts hseparates
  have hsome : rows ≠ [] := by
    rintro rfl
    exact rows_ne_nil hread.wellFormed (List.forall₂_nil_left_iff.1 hnarrows)
  have hlevel : ((Reading.start tree.render .none).level.addRows rows).tree = ofRows rows :=
    Level.tree_addRows hsome
  have hrun : (Reading.start tree.render .none).run = .ok (ofRows rows, groups) := by
    rw [hpasses, Reading.run_eq_done rfl rfl, hlevel]
  have hbare : (ofRows rows).bare = tree.reread.bare := (Narrows.ofRows hnarrows).bare_eq
  -- What is needed does not depend on what rereading and the extents of references change.
  have hnone : (ofRows rows).certainty.needed = [] := by
    rw [certainty, summarize_eq_of_bare _ hbare,
      summarize_reread Certainty.lawful_summary hread.wellFormed]
    exact hneeded
  have hread' : (ofRows rows).Possible :=
    possible_bare.1 (hbare ▸ possible_bare.2 (rereadable_possible.reread hpossible))
  exact ⟨ofRows rows, parse_of_run rfl hrun hnone hread', hbare⟩

end Regex

end Exemplar
