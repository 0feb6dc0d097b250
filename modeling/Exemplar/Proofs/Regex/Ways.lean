import Exemplar.Proofs.Grammar.Certainty
import Exemplar.Proofs.Regex.Paths

/-!
# Ways through a tree

A way through a tree takes one option of every choice, goes through the body of a repetition as
often as its counts allow, and never enters an assertion. On its way it captures groups (`Passes`).
A way to a node goes through what stands before the node, and enters the body of a repetition
whatever its counts are (`Reaches`).

The groups that have certainly captured behind a tree are those that every way through the tree
captures (`mem_certain_iff_passes`). So a reference is uncertain when some way to it captures no
group to which it leads (`IsUncertain`), and where the node is in the tree says which groups are
certain before it (`isUncertain_sequence`, `isUncertain_choice`, `isUncertain_repetition`,
`isUncertain_group`).
-/

namespace Exemplar.Regex

mutual
/-- A way through the tree captures groups, which are listed by the references that lead to them.
It goes through all parts of a sequence, through any option of a choice and through as many copies
of a repetition as are allowed. A capturing group captures behind its body, and no way leads into
an assertion. -/
inductive Passes : Regex → List GroupId → Prop
  | empty : Passes empty []
  | literal (text : List Char) (ignoreCase : Bool) : Passes (literal text ignoreCase) []
  | set (members : CharSet) : Passes (set members) []
  | sequence {parts : List Regex} {ids : List GroupId} (h : PassesAll parts ids) :
      Passes (sequence parts) ids
  | choice {options : List Regex} {option : Regex} {ids : List GroupId}
      (hoption : option ∈ options) (h : Passes option ids) : Passes (choice options) ids
  | repetition {body : Regex} {least : Nat} {most : Bound} {mode : RepetitionMode}
      {ids : List GroupId} (count : Nat) (hleast : least ≤ count) (hmost : most.Allows count)
      (h : PassesAll (List.replicate count body) ids) : Passes (repetition body least most mode) ids
  | capturing {number : Nat} {name : Option String} {body : Regex} {ids : List GroupId}
      (h : Passes body ids) : Passes (group (.capturing number name) body)
        (ids ++ groupIds number name)
  | plain {body : Regex} {ids : List GroupId} (h : Passes body ids) : Passes (group .plain body) ids
  | atomic {body : Regex} {ids : List GroupId} (h : Passes body ids) :
      Passes (group .atomic body) ids
  | assertion {kind : GroupKind} (hkind : kind.isLookaround = true) (body : Regex) :
      Passes (group kind body) []
  | backref (id : GroupId) (extent : Extent) : Passes (backref id extent) []

/-- A way through several trees in a row captures groups. -/
inductive PassesAll : List Regex → List GroupId → Prop
  | nil : PassesAll [] []
  | cons {tree : Regex} {trees : List Regex} {ids others : List GroupId} (h : Passes tree ids)
      (h' : PassesAll trees others) : PassesAll (tree :: trees) (ids ++ others)
end

/-- A way to the node at a path captures groups before it gets there. The way to a part goes
through the parts before it, the way to an option through none of the others, and the way into a
copy through any number of copies before it. A way leads into a group unless it is an assertion. -/
inductive Reaches : Regex → List Nat → List GroupId → Prop
  | here (tree : Regex) : Reaches tree [] []
  | sequence {parts : List Regex} {index : Nat} {part : Regex} {path : List Nat}
      {before inside : List GroupId}
      (hpart : parts[index]? = some part) (hbefore : PassesAll (parts.take index) before)
      (h : Reaches part path inside) : Reaches (sequence parts) (index :: path) (before ++ inside)
  | choice {options : List Regex} {index : Nat} {option : Regex} {path : List Nat}
      {inside : List GroupId}
      (hoption : options[index]? = some option) (h : Reaches option path inside) :
      Reaches (choice options) (index :: path) inside
  | repetition {body : Regex} {least : Nat} {most : Bound} {mode : RepetitionMode} {path : List Nat}
      {before inside : List GroupId} (count : Nat)
        (hbefore : PassesAll (List.replicate count body) before)
      (h : Reaches body path inside) :
        Reaches (repetition body least most mode) (0 :: path) (before ++ inside)
  | group {kind : GroupKind} {body : Regex} {path : List Nat} {inside : List GroupId}
      (hkind : kind.isLookaround = false) (h : Reaches body path inside) :
      Reaches (group kind body) (0 :: path) inside

/-- The reference at the path is uncertain where the groups that are known have captured: some way
to it captures no group to which it leads. -/
def IsUncertain (known : GroupId → Prop) (tree : Regex) (path : List Nat) (id : GroupId) : Prop :=
  ¬ known id ∧ ∃ extent ids, tree.at? path = some (backref id extent) ∧
  tree.Reaches path ids ∧ id ∉ ids

variable {tree body : Regex} {parts options : List Regex} {id : GroupId} {ids : List GroupId}
  {path : List Nat} {known : GroupId → Prop}

/-- A path below a node that is no assertion passes through one when the rest of it does. -/
theorem not_isInAssertion_cons {index : Nat} {child : Regex}
    (hchild : tree.children[index]? = some child) (hroot : tree.isAssertion = false)
    (h : ¬ child.IsInAssertion path) :
    ¬ tree.IsInAssertion (index :: path) := by
  rw [isInAssertion_cons hchild, hroot]
  exact not_or.2 ⟨Bool.false_ne_true, h⟩

/-- No way leads into an assertion. -/
theorem Reaches.not_isInAssertion (h : tree.Reaches path ids) : ¬ tree.IsInAssertion path := by
  induction h with
  | here tree => exact not_isInAssertion_nil tree
  | sequence hpart _ _ ih => exact not_isInAssertion_cons hpart rfl ih
  | choice hoption _ ih => exact not_isInAssertion_cons hoption rfl ih
  | repetition count _ _ ih => exact not_isInAssertion_cons rfl rfl ih
  | group hkind _ ih => exact not_isInAssertion_cons rfl hkind ih

/-! ## Groups that every way captures -/

/-- Behind a sequence those groups are certain that are certain behind some part. -/
theorem certain_sequence (parts : List Regex) :
    (sequence parts).certainty.certain = parts.flatMap (·.certainty.certain) := by
  rw [certainty, summarize, summarizeAll_eq_map]
  induction parts with
  | nil => rfl
  | cons part parts ih => exact congrArg (part.certainty.certain ++ ·) ih

/-- Behind a choice those groups are certain that are certain behind every option. -/
theorem mem_certain_choice (h : options ≠ []) :
    id ∈ (choice options).certainty.certain ↔
      ∀ option ∈ options, id ∈ option.certainty.certain := by
  rw [certainty, summarize, summarizeAll_eq_map]
  induction options with
  | nil => exact absurd rfl h
  | cons option options ih =>
    cases options with
    | nil =>
      rw [List.forall_mem_singleton]
      rfl
    | cons next options =>
      rw [List.forall_mem_cons, ← ih (by simp)]
      show id ∈ option.certainty.certain.filter _ ↔ _
      rw [List.mem_filter, decide_eq_true_eq]

/-- Behind a repetition those groups are certain that are certain behind the body, if there is a
copy. -/
theorem certain_repetition {least : Nat} {most : Bound} {mode : RepetitionMode} :
    (repetition body least most mode).certainty.certain =
      if least = 0 then [] else body.certainty.certain :=
  rfl

/-- What is certain behind one of several trees in a row is captured on every way through them when
every way through the tree captures it. -/
theorem PassesAll.mem_of_mem {trees : List Regex} (h : PassesAll trees ids) (htree : tree ∈ trees)
    (hall : ∀ ids, tree.Passes ids → id ∈ ids) : id ∈ ids := by
  induction trees generalizing ids with
  | nil => cases htree
  | cons first rest ih =>
    cases h with
    | cons hfirst hrest =>
      rcases List.mem_cons.1 htree with rfl | htree
      · exact List.mem_append_left _ (hall _ hfirst)
      · exact List.mem_append_right _ (ih hrest htree)

/-- Every way through a tree captures the groups that are certain behind it. -/
theorem Passes.mem_of_certain (h : tree.Passes ids) (hwell : tree.WellFormed)
    (hid : id ∈ tree.certainty.certain) : id ∈ ids := by
  induction tree generalizing ids with
  | empty => cases hid
  | literal text ignoreCase => cases hid
  | set members => cases hid
  | sequence parts ih =>
    rw [certain_sequence] at hid
    obtain ⟨part, hpart, hid⟩ := List.mem_flatMap.1 hid
    cases h with
    | sequence h =>
      exact h.mem_of_mem hpart fun ids hpasses ↦
        ih part hpart hpasses (wellFormed_sequence.1 hwell part hpart) hid
  | choice options ih =>
    obtain ⟨hsome, hoptions⟩ := wellFormed_choice.1 hwell
    cases h with
    | choice hoption h =>
      exact ih _ hoption h (hoptions _ hoption) ((mem_certain_choice hsome).1 hid _ hoption)
  | repetition body least most mode ih =>
    rw [certain_repetition] at hid
    split at hid
    · cases hid
    · rename_i hleast
      cases h with
      | repetition count hcount _ h =>
        -- There is a copy, and a way through it captures the group.
        exact h.mem_of_mem (List.mem_replicate.2 ⟨by omega, rfl⟩) fun ids hpasses ↦
          ih hpasses (wellFormed_repetition.1 hwell).2 hid
  | group kind body ih =>
    have hbody := wellFormed_group.1 hwell
    cases h with
    | capturing h =>
      rcases List.mem_append.1 hid with hid | hid
      · exact List.mem_append_right _ hid
      · exact List.mem_append_left _ (ih h hbody hid)
    | plain h => exact ih h hbody hid
    | atomic h => exact ih h hbody hid
    | assertion hkind =>
      cases kind with
      | lookahead negated => cases hid
      | lookbehind negated => cases hid
      | capturing number name => cases hkind
      | plain => cases hkind
      | atomic => cases hkind
  | backref other extent => cases hid

/-- A way through several trees in a row captures nothing that some way through each of them does
not. -/
theorem exists_passesAll {trees : List Regex}
    (h : ∀ tree ∈ trees, ∃ ids, tree.Passes ids ∧ id ∉ ids) :
    ∃ ids, PassesAll trees ids ∧ id ∉ ids := by
  induction trees with
  | nil => exact ⟨[], .nil, List.not_mem_nil⟩
  | cons tree trees ih =>
    obtain ⟨⟨first, hfirst, hnot⟩, hrest⟩ := List.forall_mem_cons.1 h
    obtain ⟨others, hothers, hnot'⟩ := ih hrest
    exact ⟨first ++ others, .cons hfirst hothers,
      fun hid ↦ (List.mem_append.1 hid).elim hnot hnot'⟩

/-- What is not certain behind a tree is not captured on some way through it. -/
theorem exists_passes (hwell : tree.WellFormed) (hid : id ∉ tree.certainty.certain) :
    ∃ ids, tree.Passes ids ∧ id ∉ ids := by
  induction tree with
  | empty => exact ⟨[], .empty, List.not_mem_nil⟩
  | literal text ignoreCase => exact ⟨[], .literal text ignoreCase, List.not_mem_nil⟩
  | set members => exact ⟨[], .set members, List.not_mem_nil⟩
  | sequence parts ih =>
    rw [certain_sequence, List.mem_flatMap] at hid
    obtain ⟨ids, hpasses, hnot⟩ := exists_passesAll fun part hpart ↦
      ih part hpart (wellFormed_sequence.1 hwell part hpart) fun hpartId ↦
        hid ⟨part, hpart, hpartId⟩
    exact ⟨ids, .sequence hpasses, hnot⟩
  | choice options ih =>
    obtain ⟨hsome, hoptions⟩ := wellFormed_choice.1 hwell
    rw [mem_certain_choice hsome] at hid
    obtain ⟨option, hoption, hid⟩ :
      ∃ option ∈ options, id ∉ option.certainty.certain := by
      simpa using hid
    obtain ⟨ids, hpasses, hnot⟩ := ih option hoption (hoptions option hoption) hid
    exact ⟨ids, .choice hoption hpasses, hnot⟩
  | repetition body least most mode ih =>
    obtain ⟨⟨hmost, -⟩, hbody⟩ := wellFormed_repetition.1 hwell
    rw [certain_repetition] at hid
    have hcopies : ∀ copy ∈ List.replicate least body, ∃ ids, copy.Passes ids ∧
        id ∉ ids := by
      intro copy hcopy
      obtain ⟨hleast, rfl⟩ := List.mem_replicate.1 hcopy
      rw [if_neg hleast] at hid
      exact ih hbody hid
    -- The way goes through the fewest copies, which are none when there may be none.
    obtain ⟨ids, hpasses, hnot⟩ := exists_passesAll hcopies
    exact ⟨ids, .repetition least (Nat.le_refl _) hmost hpasses, hnot⟩
  | group kind body ih =>
    have hbody := wellFormed_group.1 hwell
    cases kind with
    | capturing number name =>
      have hid : id ∉ groupIds number name ++ body.certainty.certain := hid
      rw [List.mem_append, not_or] at hid
      obtain ⟨ids, hpasses, hnot⟩ := ih hbody hid.2
      exact ⟨_, .capturing hpasses, fun hin ↦ (List.mem_append.1 hin).elim hnot hid.1⟩
    | plain =>
      obtain ⟨ids, hpasses, hnot⟩ := ih hbody hid
      exact ⟨ids, .plain hpasses, hnot⟩
    | atomic =>
      obtain ⟨ids, hpasses, hnot⟩ := ih hbody hid
      exact ⟨ids, .atomic hpasses, hnot⟩
    | lookahead negated => exact ⟨[], .assertion rfl body, List.not_mem_nil⟩
    | lookbehind negated => exact ⟨[], .assertion rfl body, List.not_mem_nil⟩
  | backref other extent => exact ⟨[], .backref other extent, List.not_mem_nil⟩

/-- The groups that have certainly captured behind a tree are those that every way through it
captures. -/
theorem mem_certain_iff_passes (hwell : tree.WellFormed) :
    id ∈ tree.certainty.certain ↔ ∀ ids, tree.Passes ids → id ∈ ids := by
  refine ⟨fun hid ids hpasses ↦ hpasses.mem_of_certain hwell hid, fun hall ↦ ?_⟩
  by_contra hid
  obtain ⟨ids, hpasses, hnot⟩ := exists_passes hwell hid
  exact hnot (hall ids hpasses)

/-! ## Uncertain references -/

/-- The root of a tree is no uncertain reference when it is none. -/
theorem not_isUncertain_nil (h : ∀ other extent, tree ≠ backref other extent) :
    ¬ IsUncertain known tree [] id := by
  rintro ⟨-, extent, ids, hat, -⟩
  exact h _ _ (Option.some.inj hat)

/-- No reference is uncertain in a tree without children that is none. -/
theorem not_isUncertain_of_leaf (hchildren : tree.children = [])
    (h : ∀ other extent, tree ≠ backref other extent) : ¬ IsUncertain known tree path id := by
  intro huncertain
  cases path with
  | nil => exact not_isUncertain_nil h huncertain
  | cons index path =>
    obtain ⟨-, extent, ids, hat, -⟩ := huncertain
    obtain ⟨child, hchild, -⟩ := at?_cons_eq_some.1 hat
    rw [hchildren] at hchild
    cases hchild

/-- A reference is uncertain when its group is not known. -/
theorem isUncertain_backref {other : GroupId} {extent : Extent} :
    IsUncertain known (backref other extent) path id ↔
      path = [] ∧ id = other ∧ ¬ known id := by
  constructor
  · rintro ⟨hknown, extent', ids, hat, hreaches, -⟩
    cases hreaches
    cases hat
    exact ⟨rfl, rfl, hknown⟩
  · rintro ⟨rfl, rfl, hknown⟩
    exact ⟨hknown, extent, [], rfl, .here _, List.not_mem_nil⟩

/-- A reference in a part is uncertain when neither what is known nor what is certain behind the
parts before it makes it certain. -/
theorem isUncertain_sequence (hwell : ∀ part ∈ parts, part.WellFormed) :
    IsUncertain known (sequence parts) path id ↔
      ∃ index part rest, path = index :: rest ∧ parts[index]? = some part ∧
        IsUncertain (fun id ↦ known id ∨
          id ∈ (parts.take index).flatMap (·.certainty.certain)) part rest id := by
  constructor
  · rintro ⟨hknown, extent, ids, hat, hreaches, hid⟩
    cases hreaches with
    | here => cases hat
    | @sequence _ index part rest before inside hpart hbefore hinside =>
      obtain ⟨child, hchild, hat⟩ := at?_cons_eq_some.1 hat
      cases hpart.symm.trans hchild
      rw [List.mem_append, not_or] at hid
      refine ⟨index, part, rest, rfl, hpart, not_or.2 ⟨hknown, fun hcertain ↦ hid.1 ?_⟩,
        extent, inside, hat, hinside, hid.2⟩
      obtain ⟨earlier, hearlier, hcertain⟩ := List.mem_flatMap.1 hcertain
      exact hbefore.mem_of_mem hearlier fun ids hpasses ↦
        hpasses.mem_of_certain (hwell earlier (List.mem_of_mem_take hearlier)) hcertain
  · rintro ⟨index, part, rest, rfl, hpart, hknown, extent, inside, hat, hinside, hid⟩
    obtain ⟨hknown, hcertain⟩ := not_or.1 hknown
    have hearlier : ∀ earlier ∈ parts.take index, ∃ ids, earlier.Passes ids ∧ id ∉ ids :=
      fun earlier hearlier ↦ exists_passes
        (hwell earlier (List.mem_of_mem_take hearlier)) fun hin ↦
        hcertain (List.mem_flatMap.2 ⟨earlier, hearlier, hin⟩)
    obtain ⟨before, hbefore, hnot⟩ := exists_passesAll hearlier
    exact ⟨hknown, extent, before ++ inside, at?_cons_eq_some.2 ⟨part, hpart, hat⟩,
      .sequence hpart hbefore hinside, fun hin ↦ (List.mem_append.1 hin).elim hnot hid⟩

/-- A reference in an option is uncertain when it is in the option alone. -/
theorem isUncertain_choice :
    IsUncertain known (choice options) path id ↔
      ∃ index option rest, path = index :: rest ∧ options[index]? = some option ∧
        IsUncertain known option rest id := by
  constructor
  · rintro ⟨hknown, extent, ids, hat, hreaches, hid⟩
    cases hreaches with
    | here => cases hat
    | @choice _ index option rest _ hoption hinside =>
      obtain ⟨child, hchild, hat⟩ := at?_cons_eq_some.1 hat
      cases hoption.symm.trans hchild
      exact ⟨index, option, rest, rfl, hoption, hknown, extent, ids, hat, hinside, hid⟩
  · rintro ⟨index, option, rest, rfl, hoption, hknown, extent, ids, hat, hinside, hid⟩
    exact ⟨hknown, extent, ids, at?_cons_eq_some.2 ⟨option, hoption, hat⟩,
      .choice hoption hinside, hid⟩

/-- A reference in a repetition is uncertain when it is in the first copy. -/
theorem isUncertain_repetition {least : Nat} {most : Bound} {mode : RepetitionMode} :
    IsUncertain known (repetition body least most mode) path id ↔
      ∃ rest, path = 0 :: rest ∧ IsUncertain known body rest id := by
  constructor
  · rintro ⟨hknown, extent, ids, hat, hreaches, hid⟩
    cases hreaches with
    | here => cases hat
    | @repetition _ _ _ _ rest before inside count hbefore hinside =>
      exact ⟨rest, rfl, hknown, extent, inside, hat, hinside,
        fun hin ↦ hid (List.mem_append_right _ hin)⟩
  · rintro ⟨rest, rfl, hknown, extent, ids, hat, hinside, hid⟩
    exact ⟨hknown, extent, [] ++ ids, hat, .repetition 0 .nil hinside, hid⟩

/-- A reference in a group is uncertain when it is in the body, unless the group is an assertion. -/
theorem isUncertain_group {kind : GroupKind} :
    IsUncertain known (group kind body) path id ↔
      kind.isLookaround = false ∧ ∃ rest, path = 0 :: rest ∧
      IsUncertain known body rest id := by
  constructor
  · rintro ⟨hknown, extent, ids, hat, hreaches, hid⟩
    cases hreaches with
    | here => cases hat
    | @group _ _ rest _ hkind hinside =>
      exact ⟨hkind, rest, rfl, hknown, extent, ids, hat, hinside, hid⟩
  · rintro ⟨hkind, rest, rfl, hknown, extent, ids, hat, hinside, hid⟩
    exact ⟨hknown, extent, ids, hat, .group hkind hinside, hid⟩

/-! ## The first tree of a row and the others -/

/-- Only what is known of the group of a reference matters. -/
theorem isUncertain_congr {known' : GroupId → Prop} (h : known id ↔ known' id) :
    IsUncertain known tree path id ↔ IsUncertain known' tree path id := by
  rw [IsUncertain, IsUncertain, h]

/-- A reference in a sequence is in the first part, or behind it. -/
theorem isUncertain_sequence_cons {part : Regex}
    (hwell : ∀ other ∈ part :: parts, other.WellFormed) :
    IsUncertain known (sequence (part :: parts)) path id ↔
      (∃ rest, path = 0 :: rest ∧ IsUncertain known part rest id) ∨
        ∃ index rest, path = (index + 1) :: rest ∧
          IsUncertain (fun id ↦ known id ∨ id ∈ part.certainty.certain) (sequence parts)
            (index :: rest) id := by
  have hrest := fun other hother ↦ hwell other (List.mem_cons_of_mem _ hother)
  rw [isUncertain_sequence hwell]
  constructor
  · rintro ⟨index, other, rest, rfl, hother, h⟩
    cases index with
    | zero =>
      cases hother
      exact .inl ⟨rest, rfl, (isUncertain_congr (by simp)).1 h⟩
    | succ index =>
      refine .inr ⟨index, rest, rfl,
        (isUncertain_sequence hrest).2 ⟨index, other, rest, rfl, hother, ?_⟩⟩
      exact (isUncertain_congr (by simp [or_assoc])).1 h
  · rintro (⟨rest, rfl, h⟩ | ⟨index, rest, rfl, h⟩)
    · exact ⟨0, part, rest, rfl, rfl, (isUncertain_congr (by simp)).1 h⟩
    · obtain ⟨_, other, _, ⟨⟩, hother, h⟩ := (isUncertain_sequence hrest).1 h
      exact ⟨index + 1, other, rest, rfl, hother, (isUncertain_congr (by simp [or_assoc])).1 h⟩

/-- A reference in a choice is in the first option or in another one. -/
theorem isUncertain_choice_cons {option : Regex} :
    IsUncertain known (choice (option :: options)) path id ↔
      (∃ rest, path = 0 :: rest ∧ IsUncertain known option rest id) ∨
        ∃ index rest, path = (index + 1) :: rest ∧
          IsUncertain known (choice options) (index :: rest) id := by
  rw [isUncertain_choice]
  constructor
  · rintro ⟨index, other, rest, rfl, hother, h⟩
    cases index with
    | zero =>
      cases hother
      exact .inl ⟨rest, rfl, h⟩
    | succ index =>
      exact .inr ⟨index, rest, rfl,
        isUncertain_choice.2 ⟨index, other, rest, rfl, hother, h⟩⟩
  · rintro (⟨rest, rfl, h⟩ | ⟨index, rest, rfl, h⟩)
    · exact ⟨0, option, rest, rfl, rfl, h⟩
    · obtain ⟨_, other, _, ⟨⟩, hother, h⟩ := isUncertain_choice.1 h
      exact ⟨index + 1, other, rest, rfl, hother, h⟩

end Exemplar.Regex
