import Exemplar.Proofs.Regex.Simplify

/-!
# Normal forms

A simplified tree is in normal form: no sequence and no choice can be flattened or joined any
further, and no repetition and no group can be dropped (`isNormal_simplify`). A tree in normal form
is its own normal form (`simplify_of_isNormal`), so simplifying twice is simplifying once
(`simplify_simplify`).
-/

namespace Exemplar.Regex

/-- What a node of a simplified tree is. -/
def IsNormal : Regex → Prop
  | sequence parts => joinParts (prependAll parts []) = sequence parts
  | choice options => 2 ≤ options.length ∧ ∀ option ∈ options, asOptions option = [option]
  | repetition body least most _ =>
      body ≠ empty ∧ most ≠ 0 ∧ ¬ (least = 1 ∧ most = 1) ∧ most.Allows least
  | group kind _ => kind ≠ .plain
  | _ => True

/-- Trees that contribute themselves to a choice contribute all options of the choice. -/
theorem flatMap_asOptions_of_forall {trees : List Regex}
    (h : ∀ tree ∈ trees, asOptions tree = [tree]) : trees.flatMap asOptions = trees := by
  induction trees with
  | nil => rfl
  | cons tree trees ih =>
    obtain ⟨htree, htrees⟩ := List.forall_mem_cons.1 h
    rw [List.flatMap_cons, htree, ih htrees, List.singleton_append]

/-- Two or more options make a choice. -/
theorem joinOptions_of_two_le {options : List Regex} (h : 2 ≤ options.length) :
    joinOptions options = choice options := by
  match options, h with
  | first :: second :: rest, _ => rfl

/-- A tree in normal form is its own normal form. -/
theorem simplify_of_isNormal {tree : Regex} (h : tree.Everywhere IsNormal) :
    tree.simplify = tree := by
  induction tree with
  | empty => rfl
  | literal text ignoreCase => rfl
  | set members => rfl
  | sequence parts ih =>
    rw [everywhere_sequence] at h
    have hparts : parts.map simplify = parts :=
      (List.map_congr_left fun part hpart ↦ ih part hpart (h.2 part hpart)).trans (List.map_id _)
    rw [simplify, simplifyAll_eq_map, hparts]
    exact h.1
  | choice options ih =>
    rw [everywhere_choice] at h
    have hoptions : options.map simplify = options :=
      (List.map_congr_left fun option hoption ↦ ih option hoption (h.2 option hoption)).trans
        (List.map_id _)
    rw [simplify, simplifyAll_eq_map, hoptions, flatMap_asOptions_of_forall h.1.2,
      joinOptions_of_two_le h.1.1]
  | repetition body least most mode ih =>
    rw [everywhere_repetition] at h
    obtain ⟨⟨hbody, hmost, hone, hallows⟩, hinside⟩ := h
    rw [simplify, ih hinside, joinCopies, if_neg (by simp [hbody, hmost]), if_neg hone, repeated,
      Bound.raise_of_allows hallows]
  | group kind body ih =>
    rw [everywhere_group] at h
    cases kind with
    | plain => exact absurd rfl h.1
    | capturing number name => rw [simplify, ih h.2]; simp
    | atomic => rw [simplify, ih h.2]; simp
    | lookahead negated => rw [simplify, ih h.2]; simp
    | lookbehind negated => rw [simplify, ih h.2]; simp
  | backref id extent => rfl

/-- Putting two texts of the same kind in front of a row is putting the joined text there. -/
theorem prepend_literal_prepend (left right : List Char) (ignoreCase : Bool) (rest : List Regex) :
    prepend (literal left ignoreCase) (prepend (literal right ignoreCase) rest) =
      prepend (literal (left ++ right) ignoreCase) rest := by
  have halone (h : prepend (literal right ignoreCase) rest = literal right ignoreCase :: rest)
      (h' : prepend (literal (left ++ right) ignoreCase) rest =
        literal (left ++ right) ignoreCase :: rest) :
      prepend (literal left ignoreCase) (prepend (literal right ignoreCase) rest) =
        prepend (literal (left ++ right) ignoreCase) rest := by
    rw [h, h', prepend, if_pos rfl]
  cases rest with
  | nil => exact halone rfl rfl
  | cons head rest =>
    cases head with
    | literal next ignoreCase' =>
      by_cases hcase : ignoreCase = ignoreCase'
      · subst hcase
        rw [prepend, if_pos rfl, prepend, if_pos rfl, prepend, if_pos rfl, List.append_assoc]
      · exact halone (by rw [prepend, if_neg hcase]) (by rw [prepend, if_neg hcase])
    | empty => exact halone rfl rfl
    | set members => exact halone rfl rfl
    | sequence parts => exact halone rfl rfl
    | choice options => exact halone rfl rfl
    | repetition body least most mode => exact halone rfl rfl
    | group kind body => exact halone rfl rfl
    | backref id extent => exact halone rfl rfl

/-- Putting the parts of a row in front of another row is putting the trees of the row there. -/
theorem prependAll_prepend (tree : Regex) (row rest : List Regex) :
    prependAll (prepend tree row) rest = prepend tree (prependAll row rest) := by
  induction tree generalizing row with
  | empty => rfl
  | sequence parts ih =>
    rw [prepend, prependAll_eq_foldr parts, prepend, prependAll_eq_foldr parts]
    induction parts with
    | nil => rfl
    | cons part parts ihparts =>
      rw [List.foldr_cons, List.foldr_cons, ih part (by simp),
        ihparts fun other hother ↦ ih other (List.mem_cons_of_mem _ hother)]
  | literal text ignoreCase =>
    rcases prepend_literal_eq text ignoreCase row with ⟨next, row', rfl, heq⟩ | heq
    · rw [heq, prependAll, prependAll, prepend_literal_prepend]
    · rw [heq, prependAll]
  | set members => rfl
  | choice options ih => rfl
  | repetition body least most mode ih => rfl
  | group kind body ih => rfl
  | backref id extent => rfl

/-- Joined parts are put in front of a row one after the other. -/
theorem prepend_joinParts (parts rest : List Regex) :
    prepend (joinParts parts) rest = prependAll parts rest := by
  unfold joinParts
  split
  · rfl
  · cases parts with
    | nil => rfl
    | cons part parts => rfl

/-- Parts that were put in a row are in a row. -/
theorem prependAll_prependAll (trees rest : List Regex) :
    prependAll (prependAll trees []) rest = prependAll trees rest := by
  induction trees with
  | nil => rfl
  | cons tree trees ih => rw [prependAll, prependAll_prepend, ih, ← prependAll]

/-- A tree in normal form is the only part of a sequence. -/
theorem joinParts_prepend {tree : Regex} (h : tree.Everywhere IsNormal) :
    joinParts (prepend tree []) = tree := by
  cases tree with
  | sequence parts => exact h.here
  | empty => rfl
  | literal text ignoreCase => rfl
  | set members => rfl
  | choice options => rfl
  | repetition body least most mode => rfl
  | group kind body => rfl
  | backref id extent => rfl

/-- A tree in normal form is the choice of the options that it contributes. -/
theorem joinOptions_asOptions {tree : Regex} (h : tree.Everywhere IsNormal) :
    joinOptions (asOptions tree) = tree := by
  cases tree with
  | choice options => exact joinOptions_of_two_le h.here.1
  | empty => rfl
  | literal text ignoreCase => rfl
  | set members => rfl
  | sequence parts => rfl
  | repetition body least most mode => rfl
  | group kind body => rfl
  | backref id extent => rfl

/-- The options that trees in normal form contribute contribute themselves. -/
theorem asOptions_of_mem {trees : List Regex} (h : ∀ tree ∈ trees, tree.Everywhere IsNormal) :
    ∀ option ∈ trees.flatMap asOptions, asOptions option = [option] := by
  intro option hoption
  obtain ⟨tree, htree, hoption⟩ := List.mem_flatMap.1 hoption
  have hnormal := h tree htree
  cases tree with
  | choice options => exact hnormal.here.2 option hoption
  | empty => rw [List.mem_singleton.1 hoption]; rfl
  | literal text ignoreCase => rw [List.mem_singleton.1 hoption]; rfl
  | set members => rw [List.mem_singleton.1 hoption]; rfl
  | sequence parts => rw [List.mem_singleton.1 hoption]; rfl
  | repetition body least most mode => rw [List.mem_singleton.1 hoption]; rfl
  | group kind body => rw [List.mem_singleton.1 hoption]; rfl
  | backref id extent => rw [List.mem_singleton.1 hoption]; rfl

/-- A choice of options that contribute themselves contributes these options. -/
theorem asOptions_joinOptions {options : List Regex} (hsome : options ≠ [])
    (h : ∀ option ∈ options, asOptions option = [option]) :
    asOptions (joinOptions options) = options := by
  match options with
  | [option] => exact h option (by simp)
  | first :: second :: rest => rfl

/-- The normal form of a tree is in normal form. -/
theorem isNormal_simplify (tree : Regex) : tree.simplify.Everywhere IsNormal := by
  induction tree with
  | empty => exact trivial
  | literal text ignoreCase => exact trivial
  | set members => exact trivial
  | sequence parts ih =>
    have hsimple : ∀ part ∈ parts.map Regex.simplify, part.Everywhere IsNormal := by
      simpa using ih
    have hparts := Everywhere.prependAll (fun _ _ _ _ _ ↦ trivial) hsimple
    have hjoin : joinParts (prependAll (prependAll (parts.map Regex.simplify) []) []) =
        joinParts (prependAll (parts.map Regex.simplify) []) := by
      rw [prependAll_prependAll]
    rw [Regex.simplify, simplifyAll_eq_map]
    generalize prependAll (parts.map Regex.simplify) [] = row at hparts hjoin
    rcases row with _ | ⟨first, _ | ⟨second, rest⟩⟩
    · exact trivial
    · exact hparts first (by simp)
    · exact everywhere_sequence.2 ⟨hjoin, hparts⟩
  | choice options ih =>
    have hsimple : ∀ option ∈ options.map Regex.simplify, option.Everywhere IsNormal := by
      simpa using ih
    have hoptions := Everywhere.asOptions hsimple
    have hown := asOptions_of_mem hsimple
    rw [Regex.simplify, simplifyAll_eq_map]
    generalize (options.map Regex.simplify).flatMap asOptions = row at hoptions hown
    rcases row with _ | ⟨first, _ | ⟨second, rest⟩⟩
    · exact trivial
    · exact hoptions first (by simp)
    · exact everywhere_choice.2 ⟨⟨by simp, hown⟩, hoptions⟩
  | repetition body least most mode ih =>
    rw [Regex.simplify]
    unfold joinCopies
    split
    · exact trivial
    · rename_i hsome
      split
      · exact ih
      · rename_i hone
        rw [not_or] at hsome
        have hallows := most.allows_raise least
        refine everywhere_repetition.2 ⟨⟨hsome.2, ?_, ?_, hallows⟩, ih⟩
        · exact fun hzero ↦ hsome.1 (Bound.eq_zero_of_raise_eq_zero hzero)
        · rintro ⟨rfl, hraise⟩
          have hallows := (Bound.eq_zero_or_allows_one most).resolve_left hsome.1
          exact hone ⟨rfl, Bound.raise_of_allows hallows ▸ hraise⟩
  | group kind body ih =>
    cases kind with
    | plain => exact ih
    | capturing number name => exact everywhere_group.2 ⟨GroupKind.noConfusion, ih⟩
    | atomic => exact everywhere_group.2 ⟨GroupKind.noConfusion, ih⟩
    | lookahead negated => exact everywhere_group.2 ⟨GroupKind.noConfusion, ih⟩
    | lookbehind negated => exact everywhere_group.2 ⟨GroupKind.noConfusion, ih⟩
  | backref id extent => exact trivial

/-- Simplifying twice is simplifying once. -/
theorem simplify_simplify (tree : Regex) : tree.simplify.simplify = tree.simplify :=
  simplify_of_isNormal tree.isNormal_simplify

end Exemplar.Regex
