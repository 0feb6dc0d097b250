import Exemplar.Grammar.References
import Exemplar.Proofs.Regex.NormalForm
import Exemplar.Proofs.Regex.Possible
import Exemplar.Regex.Render

/-!
# The tree that is read from the pattern of a tree

`tree.reread` is the tree that reading makes of the pattern `tree.render`. It differs from the tree
in shape only: a text is read character by character, and a body in a plain group is a group. Both
have the same normal form (`simplify_reread`), and what holds of the nodes of the one holds of those
of the other (`Rereadable.reread`).
-/

namespace Exemplar

/-- The number of a group that captures. -/
def GroupKind.numbers : GroupKind → List Nat
  | capturing number _ => [number]
  | _ => []

namespace Regex

mutual
/-- The numbers of the capturing groups in a tree, in the order in which the groups begin. -/
def groupNumbers : Regex → List Nat
  | sequence parts => groupNumbersOfAll parts
  | choice options => groupNumbersOfAll options
  | repetition body .. => groupNumbers body
  | group kind body => kind.numbers ++ groupNumbers body
  | _ => []

/-- The numbers of the capturing groups in several trees. -/
def groupNumbersOfAll : List Regex → List Nat
  | [] => []
  | tree :: trees => groupNumbers tree ++ groupNumbersOfAll trees
end

/-- The tree of branches, which are rows of units. -/
def ofRows (rows : List (List Regex)) : Regex :=
  joinOptions (rows.map inSequence)

/-- The unit of a branch that has no other one. -/
def onlyUnit : List (List Regex) → Regex
  | [[unit]] => unit
  | rows => ofRows rows

/-- The units of a part of a sequence, whose branches are given. A choice is put into a group. -/
def asPart : Regex → List (List Regex) → List Regex
  | choice _, rows => [group .plain (ofRows rows)]
  | _, rows => rows.flatten

/-- The units of the characters of a text. -/
def unitsOfText (text : List Char) (ignoreCase : Bool) : List Regex :=
  text.map fun c ↦ literal [c] ignoreCase

mutual
/-- The branches that are read from the pattern of a tree, each as a row of units. -/
def rows : Regex → List (List Regex)
  | empty => [[]]
  | literal text true => [[group .plain (inSequence (unitsOfText text true))]]
  | literal text false => [unitsOfText text false]
  | set members => [[set members]]
  | sequence parts => [rowOfParts parts]
  | choice options => rowsOfOptions options
  | repetition body least most mode =>
      let unit :=
        if body.needsGroup then group .plain (ofRows (rows body)) else onlyUnit (rows body)
      [[repetition unit least most mode]]
  | group kind body => [[group kind (ofRows (rows body))]]
  | backref id extent => [[backref id extent]]

/-- The row of units that is read from the patterns of parts in a row. -/
def rowOfParts : List Regex → List Regex
  | [] => []
  | part :: parts => asPart part (rows part) ++ rowOfParts parts

/-- The branches that are read from the patterns of several options. -/
def rowsOfOptions : List Regex → List (List Regex)
  | [] => []
  | option :: options => rows option ++ rowsOfOptions options
end

/-- The tree that is read from the pattern of a tree. -/
def reread (tree : Regex) : Regex :=
  ofRows tree.rows

/-- A tree that is no choice has one branch. -/
theorem exists_rows_eq {tree : Regex} (h : ∀ options, tree ≠ choice options) :
    ∃ row, tree.rows = [row] := by
  cases tree with
  | choice options => exact absurd rfl (h options)
  | literal text ignoreCase => cases ignoreCase <;> exact ⟨_, rfl⟩
  | empty => exact ⟨_, rfl⟩
  | set members => exact ⟨_, rfl⟩
  | sequence parts => exact ⟨_, rfl⟩
  | repetition body least most mode => exact ⟨_, rfl⟩
  | group kind body => exact ⟨_, rfl⟩
  | backref id extent => exact ⟨_, rfl⟩

/-- A part that is no choice has the units of its branch. -/
theorem asPart_of_ne {tree : Regex} (h : ∀ options, tree ≠ choice options)
    (rows : List (List Regex)) :
    asPart tree rows = rows.flatten := by
  unfold asPart
  split
  · exact absurd rfl (h _)
  · rfl

/-- A well-formed tree has a branch. -/
theorem rows_ne_nil {tree : Regex} (h : tree.WellFormed) : tree.rows ≠ [] := by
  induction tree with
  | choice options ih =>
    rw [wellFormed_choice] at h
    cases options with
    | nil => exact absurd rfl h.1
    | cons option options =>
      have hoption := ih option (by simp) (h.2 option (by simp))
      exact List.append_ne_nil_of_left_ne_nil hoption _
  | literal text ignoreCase => cases ignoreCase <;> exact List.cons_ne_nil _ _
  | empty => exact List.cons_ne_nil _ _
  | set members => exact List.cons_ne_nil _ _
  | sequence parts ih => exact List.cons_ne_nil _ _
  | repetition body least most mode ih => exact List.cons_ne_nil _ _
  | group kind body ih => exact List.cons_ne_nil _ _
  | backref id extent => exact List.cons_ne_nil _ _

/-- The options of a choice have the branches of each of them. -/
theorem rowsOfOptions_eq_flatMap (options : List Regex) :
    rowsOfOptions options = options.flatMap rows := by
  induction options with
  | nil => rfl
  | cons option options ih => rw [rowsOfOptions, ih, List.flatMap_cons]

/-! ## What rereading keeps -/

/-- A property of trees that is kept when a tree is taken apart and put together again in the way
that reading does it. A text of one character is good, and so are the parts of good trees. Good
trees in a row, one of several good trees and a good tree in a plain group are good. The body of a
repetition may be replaced by a good one, and that of a group by one that is good if the body
was. -/
structure Rereadable (good : Regex → Prop) : Prop where
  character (c : Char) (ignoreCase : Bool) : good (literal [c] ignoreCase)
  parts {parts : List Regex} : good (sequence parts) → ∀ part ∈ parts, good part
  options {options : List Regex} : good (choice options) → ∀ option ∈ options, good option
  body {body : Regex} {least : Nat} {most : Bound} {mode : RepetitionMode} :
    good (repetition body least most mode) → good body
  inSequence {parts : List Regex} : (∀ part ∈ parts, good part) → good (inSequence parts)
  anyOf {options : List Regex} : (∀ option ∈ options, good option) → good (anyOf options)
  repetition {body body' : Regex} {least : Nat} {most : Bound} {mode : RepetitionMode} :
    good (repetition body least most mode) → good body' →
    good (repetition body' least most mode)
  group {kind : GroupKind} {body body' : Regex} :
    good (group kind body) → (good body → good body') → good (group kind body')
  plain {body : Regex} : good body → good (Regex.group .plain body)

namespace Rereadable

variable {good : Regex → Prop}

/-- Branches of good units make a good tree. -/
theorem ofRows (hgood : Rereadable good) {rows : List (List Regex)}
    (h : ∀ row ∈ rows, ∀ unit ∈ row, good unit) : good (ofRows rows) := by
  have hbranches : ∀ branch ∈ rows.map Regex.inSequence, good branch := by
    simpa using fun row hrow ↦ hgood.inSequence (h row hrow)
  unfold Regex.ofRows joinOptions
  split
  · rename_i branch heq
    exact hbranches branch (by simp [heq])
  · exact hgood.anyOf hbranches

/-- The units that are read from the pattern of a good tree are good. -/
theorem rows (hgood : Rereadable good) {tree : Regex} (h : good tree) :
    ∀ row ∈ tree.rows, ∀ unit ∈ row, good unit := by
  have htext (text : List Char) (ignoreCase : Bool) :
      ∀ unit ∈ unitsOfText text ignoreCase, good unit := by
    simpa [unitsOfText] using fun c _ ↦ hgood.character c ignoreCase
  have hsingle {unit : Regex} (hunit : good unit) :
      ∀ row ∈ [[unit]], ∀ other ∈ row, good other := by simpa using hunit
  induction tree with
  | empty => simp [Regex.rows]
  | literal text ignoreCase =>
    cases ignoreCase with
    | true => exact hsingle (hgood.plain (hgood.inSequence (htext text true)))
    | false =>
      refine List.forall_mem_cons.2 ⟨htext text false, ?_⟩
      simp
  | set members => exact hsingle h
  | sequence parts ih =>
    have hparts := hgood.parts h
    refine List.forall_mem_cons.2 ⟨?_, by simp⟩
    clear h
    induction parts with
    | nil => simp [rowOfParts]
    | cons part parts ihparts =>
      obtain ⟨hpart, hrest⟩ := List.forall_mem_cons.1 hparts
      have hrows := ih part (by simp) hpart
      rw [rowOfParts]
      refine List.forall_mem_append.2 ⟨?_, ihparts
        (fun other hother ↦ ih other (List.mem_cons_of_mem _ hother)) hrest⟩
      unfold asPart
      split
      · simpa using hgood.plain (hgood.ofRows hrows)
      · simpa using fun unit row hrow ↦ hrows row hrow unit
  | choice options ih =>
    have hoptions := hgood.options h
    rw [Regex.rows, rowsOfOptions_eq_flatMap]
    intro row hrow
    obtain ⟨option, hoption, hrow⟩ := List.mem_flatMap.1 hrow
    exact ih option hoption (hoptions option hoption) row hrow
  | repetition body least most mode ih =>
    have hrows := ih (hgood.body h)
    refine hsingle (hgood.repetition h ?_)
    split
    · exact hgood.plain (hgood.ofRows hrows)
    · unfold onlyUnit
      split
      · rename_i unit heq
        exact hrows [unit] (by simp [heq]) unit (by simp)
      · exact hgood.ofRows hrows
  | group kind body ih => exact hsingle (hgood.group h fun hbody ↦ hgood.ofRows (ih hbody))
  | backref id extent => exact hsingle h

/-- The tree that is read from the pattern of a good tree is good. -/
theorem reread (hgood : Rereadable good) {tree : Regex} (h : good tree) : good tree.reread :=
  hgood.ofRows (hgood.rows h)

end Rereadable

/-- A node of a well-formed tree that is no empty text, as it is read from a pattern. -/
def IsReadable : Regex → Prop
  | literal text _ => text ≠ []
  | node => IsBuilt node

/-- Readable nodes make a well-formed tree. -/
theorem Everywhere.wellFormed {tree : Regex} (h : tree.Everywhere IsReadable) :
    tree.WellFormed := by
  refine h.mono fun node hnode ↦ ?_
  cases node with
  | literal text ignoreCase => exact trivial
  | backref id extent => exact trivial
  | empty => exact trivial
  | set members => exact trivial
  | sequence parts => exact trivial
  | choice options => exact hnode
  | repetition body least most mode => exact hnode
  | group kind body => exact trivial

/-- Rereading keeps the nodes readable. -/
theorem rereadable_isReadable : Rereadable (Everywhere IsReadable) where
  character c _ := List.cons_ne_nil c []
  parts h := (everywhere_sequence.1 h).2
  options h := (everywhere_choice.1 h).2
  body h := (everywhere_repetition.1 h).2
  inSequence {parts} h := by
    cases parts with
    | nil => exact trivial
    | cons part parts => exact everywhere_sequence.2 ⟨trivial, h⟩
  anyOf {options} h := by
    cases options with
    | nil => exact trivial
    | cons option options => exact everywhere_choice.2 ⟨List.cons_ne_nil _ _, h⟩
  repetition h hbody := everywhere_repetition.2 ⟨(everywhere_repetition.1 h).1, hbody⟩
  group h hbody := everywhere_group.2 ⟨trivial, hbody (everywhere_group.1 h).2⟩
  plain h := everywhere_group.2 ⟨trivial, h⟩

/-- Rereading keeps a tree possible. -/
theorem rereadable_possible : Rereadable Possible where
  character _ _ := trivial
  parts h := (possible_sequence.1 h).2
  options h := (possible_choice.1 h).2
  body h := h.2
  inSequence h := possible_inSequence h
  anyOf h := possible_anyOf h
  repetition h hbody := ⟨h.1, hbody⟩
  group h hbody hnegated := hbody (h hnegated)
  plain h _ := h

/-! ## The normal form of the tree that is read -/

/-- The normal form of units in a row. -/
theorem simplify_inSequence (row : List Regex) :
    (inSequence row).simplify = joinParts (prependAll (row.map simplify) []) := by
  cases row with
  | nil => rfl
  | cons unit row =>
    show (sequence (unit :: row)).simplify = _
    rw [simplify, simplifyAll_eq_map]

/-- Branches have the normal form of a tree if they contribute the same options. -/
theorem simplify_ofRows {tree : Regex} (htree : tree.Everywhere IsNormal) {rows : List (List Regex)}
    (h : rows.flatMap (fun row ↦ asOptions (inSequence row).simplify) = asOptions tree) :
    (ofRows rows).simplify = tree := by
  have htree := joinOptions_asOptions htree
  match rows with
  | [] =>
    rw [← h] at htree
    rw [← htree]
    rfl
  | [row] =>
    rw [List.flatMap_singleton] at h
    show (inSequence row).simplify = tree
    rw [← joinOptions_asOptions (isNormal_simplify _), h, htree]
  | first :: second :: rest =>
    show (choice ((first :: second :: rest).map inSequence)).simplify = tree
    rw [simplify, simplifyAll_eq_map, ← htree, ← h, List.map_map, List.flatMap_map]
    rfl

/-- The characters of a text make the text again. -/
theorem prependAll_unitsOfText {text : List Char} (h : text ≠ []) (ignoreCase : Bool)
    (rest : List Regex) :
    prependAll ((unitsOfText text ignoreCase).map simplify) rest =
      prepend (literal text ignoreCase) rest := by
  have hunits : (unitsOfText text ignoreCase).map simplify = unitsOfText text ignoreCase := by
    simp [unitsOfText, simplify]
  rw [hunits]
  induction text with
  | nil => exact absurd rfl h
  | cons c text ih =>
    cases text with
    | nil => rfl
    | cons next text =>
      have ih := ih (by simp) (by simp [unitsOfText, simplify])
      rw [unitsOfText, List.map_cons, prependAll, ← unitsOfText, ih, prepend_literal_prepend]
      rfl

/-- The characters of a text in a row have the normal form of the text. -/
theorem simplify_unitsOfText (text : List Char) (ignoreCase : Bool) :
    (inSequence (unitsOfText text ignoreCase)).simplify = ofText text ignoreCase := by
  cases text with
  | nil => rfl
  | cons c text =>
    rw [simplify_inSequence, prependAll_unitsOfText (by simp)]
    rfl

/-- The units that are read from the pattern of a tree have the normal form of the tree, as a part
of a sequence and as options of a choice. -/
structure KeepsNormalForm (tree : Regex) : Prop where
  part (rest : List Regex) :
    prependAll ((asPart tree tree.rows).map simplify) rest = prepend tree.simplify rest
  options : tree.rows.flatMap (fun row ↦ asOptions (inSequence row).simplify) =
    asOptions tree.simplify

namespace KeepsNormalForm

variable {tree : Regex}

/-- The tree that is read has the normal form of the tree. -/
theorem simplify_reread (h : KeepsNormalForm tree) : tree.reread.simplify = tree.simplify :=
  simplify_ofRows tree.isNormal_simplify h.options

/-- A tree of one branch keeps its normal form if the units of the branch do. -/
theorem of_row {row : List Regex} (hchoice : ∀ options, tree ≠ choice options)
    (hrow : tree.rows = [row])
    (h : ∀ rest, prependAll (row.map simplify) rest = prepend tree.simplify rest) :
    KeepsNormalForm tree where
  part rest := by
    rw [hrow, asPart_of_ne hchoice, List.flatten_singleton, h]
  options := by
    rw [hrow, List.flatMap_singleton, simplify_inSequence, h,
      joinParts_prepend tree.isNormal_simplify]

/-- A tree of one unit keeps its normal form if the unit does. -/
theorem of_unit {unit : Regex} (hchoice : ∀ options, tree ≠ choice options)
    (hrow : tree.rows = [[unit]]) (h : unit.simplify = tree.simplify) : KeepsNormalForm tree :=
  of_row hchoice hrow fun rest ↦ by rw [List.map_singleton, h]; rfl

end KeepsNormalForm

/-- The units of parts in a row are the parts when the units of each part are the part. -/
theorem prependAll_rowOfParts {parts : List Regex} (h : ∀ part ∈ parts, KeepsNormalForm part)
    (rest : List Regex) :
    prependAll ((rowOfParts parts).map simplify) rest = prependAll (parts.map simplify) rest := by
  induction parts with
  | nil => rfl
  | cons part parts ih =>
    obtain ⟨hpart, hparts⟩ := List.forall_mem_cons.1 h
    rw [rowOfParts, List.map_append, prependAll_eq_foldr, List.foldr_append,
      ← prependAll_eq_foldr, ← prependAll_eq_foldr, ih hparts, hpart.part, List.map_cons,
      prependAll]

/-- Every option contributes its own branches, in order. -/
theorem flatMap_rows_choice {options : List Regex} (hsome : options ≠ [])
    (hwell : ∀ option ∈ options, option.WellFormed)
    (h : ∀ option ∈ options, KeepsNormalForm option) :
    (choice options).rows.flatMap (fun row ↦ asOptions (inSequence row).simplify) =
      asOptions (choice options).simplify := by
  have hsimple : ∀ option ∈ options.map simplify, option.Everywhere IsNormal := by
    simpa using fun option _ ↦ option.isNormal_simplify
  have hwell : ∀ option ∈ options.map simplify, option.WellFormed := by
    simpa using fun option hoption ↦ (hwell option hoption).simplify
  have hne := flatMap_asOptions_ne_nil (by simpa using hsome) hwell
  rw [simplify, simplifyAll_eq_map, asOptions_joinOptions hne (asOptions_of_mem hsimple), rows,
    rowsOfOptions_eq_flatMap, List.flatMap_assoc, List.flatMap_map]
  rw [List.flatMap_def, List.flatMap_def,
    List.map_congr_left fun option hoption ↦ (h option hoption).options]

/-- Whether or not the body of a repetition is put into a group, its normal form is that of the
body. -/
theorem simplify_repeatedUnit {body : Regex} (h : KeepsNormalForm body) :
    (if body.needsGroup then group .plain (ofRows body.rows) else onlyUnit body.rows).simplify =
      body.simplify := by
  have heq := h.simplify_reread
  split
  · exact heq
  · unfold onlyUnit
    split
    · rename_i unit hrows
      have honly : (inSequence [unit]).simplify = unit.simplify := by
        rw [simplify_inSequence]
        exact joinParts_prepend unit.isNormal_simplify
      rw [← honly, ← heq, reread, hrows]
      rfl
    · exact heq

/-- What is read from the pattern of a tree keeps the normal form of the tree. -/
theorem keepsNormalForm {tree : Regex} (h : tree.Everywhere IsReadable) :
    KeepsNormalForm tree := by
  induction tree with
  | empty => exact .of_row (by simp) rfl fun rest ↦ rfl
  | literal text ignoreCase =>
    cases ignoreCase with
    | false => exact .of_row (by simp) rfl (prependAll_unitsOfText h false)
    | true =>
      refine .of_unit (by simp) rfl ?_
      rw [simplify, simplify_inSequence, prependAll_unitsOfText h true]
      rfl
  | set members => exact .of_unit (by simp) rfl rfl
  | sequence parts ih =>
    have hparts := (everywhere_sequence.1 h).2
    refine .of_row (by simp) rfl fun rest ↦ ?_
    rw [simplify, simplifyAll_eq_map, prepend_joinParts, prependAll_prependAll]
    exact prependAll_rowOfParts (fun part hpart ↦ ih part hpart (hparts part hpart)) rest
  | choice options ih =>
    obtain ⟨hsome, hoptions⟩ := everywhere_choice.1 h
    have hown :=
      flatMap_rows_choice hsome (fun option hoption ↦ (hoptions option hoption).wellFormed)
      fun option hoption ↦ ih option hoption (hoptions option hoption)
    -- As a part, the choice is put into a plain group, which its normal form does not have.
    refine ⟨fun rest ↦ ?_, hown⟩
    have heq := simplify_ofRows (choice options).isNormal_simplify hown
    rw [← heq]
    rfl
  | repetition body least most mode ih =>
    have hbody := (everywhere_repetition.1 h).2
    refine .of_unit (by simp) rfl ?_
    rw [simplify, simplify, simplify_repeatedUnit (ih hbody)]
  | group kind body ih =>
    have hbody := (everywhere_group.1 h).2
    have heq := (ih hbody).simplify_reread
    refine .of_unit (by simp) rfl ?_
    show (group kind body.reread).simplify = (group kind body).simplify
    cases kind with
    | plain => exact heq
    | capturing number name => exact congrArg (group _) heq
    | atomic => exact congrArg (group _) heq
    | lookahead negated => exact congrArg (group _) heq
    | lookbehind negated => exact congrArg (group _) heq
  | backref id extent => exact .of_unit (by simp) rfl rfl

/-- The tree that is read from the pattern of a tree has the normal form of the tree. -/
theorem Everywhere.simplify_reread {tree : Regex} (h : tree.Everywhere IsReadable) :
    tree.reread.simplify = tree.simplify :=
  (keepsNormalForm h).simplify_reread

/-- The tree that is read from the pattern of a tree has the extent of the tree. -/
theorem Everywhere.extent_reread {tree : Regex} (h : tree.Everywhere IsReadable) :
    tree.reread.extent = tree.extent := by
  have hreread := (rereadable_isReadable.reread h).wellFormed
  rw [← extent_simplify hreread, h.simplify_reread, extent_simplify h.wellFormed]

end Regex

end Exemplar
