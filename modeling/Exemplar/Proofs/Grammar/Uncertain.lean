import Exemplar.Proofs.Regex.Sites
import Exemplar.Proofs.Regex.Ways

/-!
# The reference that is refused

The check of references follows a tree together with a list of positions, of which it takes one for
each reference, those in assertions included. When it succeeds, it has taken as many positions as
there are references in the tree, and no reference is uncertain. When it fails, it fails at the
first uncertain reference of the tree, with the position that belongs to the references before that
one (`ReferenceCheck.Locates`). Both hold of every tree that fits its groups
(`ReferenceCheck.locates`), and of the check of a whole pattern (`Groups.check_eq_error`).
-/

namespace Exemplar

namespace ReferenceCheck

open Regex (IsUncertain)

variable {α β : Type} {known known' : GroupId → Prop} {tree child : Regex}
  {check : ReferenceCheck α}
  {next : α → ReferenceCheck β} {positions : List Nat} {located : Located}

/-- A check in two parts fails when the first part does, or when the second one does from there. -/
theorem bind_run_eq_error :
    (check >>= next).run positions = .error located ↔
      check.run positions = .error located ∨
        ∃ result rest, check.run positions = .ok (result, rest) ∧
          (next result).run rest = .error located := by
  rw [StateT.run_bind]
  cases check.run positions with
  | error located' => simp [Bind.bind, Except.bind]
  | ok outcome =>
    constructor
    · exact fun h ↦ .inr ⟨outcome.1, outcome.2, rfl, h⟩
    · rintro (h | ⟨result, rest, ⟨⟩, h⟩)
      · cases h
      · exact h

/-- The position that belongs to the reference at a path, when the positions of all references of
the tree stand first. -/
def positionAt (tree : Regex) (path : List Nat) (positions : List Nat) : Nat :=
  (positions.drop ((tree.sitesBefore path).countP Site.isReference)).headD 0

/-- The check passes the references of a tree, or refuses the first one that is uncertain where the
groups that are known have captured. A check that succeeds took the positions of all references,
and one that fails names the position that belongs to the reference. -/
structure Locates (known : GroupId → Prop) (tree : Regex) (check : ReferenceCheck α) : Prop where
  ok {positions rest : List Nat} {value : α} (h : check.run positions = .ok (value, rest)) :
    rest = positions.drop tree.referenceCount ∧ ∀ path id, ¬ IsUncertain known tree path id
  error {positions : List Nat} {located : Located} (h : check.run positions = .error located) :
    ∃ path id, IsUncertain known tree path id ∧
      (∀ path' id', IsUncertain known tree path' id' → path ≤ path') ∧
      located = ⟨.uncertainGroup id, positionAt tree path positions⟩

namespace Locates

/-- A check that passes a tree without uncertain references. -/
theorem of_none (hnone : ∀ path id, ¬ IsUncertain known tree path id)
    (hcheck : ∀ positions, ∃ value,
      check.run positions = .ok (value, positions.drop tree.referenceCount)) :
    Locates known tree check where
  ok {positions rest value} h := by
    obtain ⟨value', hvalue⟩ := hcheck positions
    cases hvalue.symm.trans h
    exact ⟨rfl, hnone⟩
  error {positions located} h := by
    obtain ⟨value, hvalue⟩ := hcheck positions
    cases hvalue.symm.trans h

/-- A check that passes a tree without children that is no reference. -/
theorem of_leaf (hchildren : tree.children = [])
    (hother : ∀ id extent, tree ≠ .backref id extent)
    (hcheck : ∀ positions, ∃ value,
      check.run positions = .ok (value, positions.drop tree.referenceCount)) :
    Locates known tree check :=
  .of_none (fun _ _ ↦ Regex.not_isUncertain_of_leaf hchildren hother) hcheck

/-- A check behind which a value is computed. -/
theorem map (h : Locates known tree check) (f : α → β) :
    Locates known tree (check >>= fun value ↦ pure (f value)) where
  ok hrun := by
    obtain ⟨value, rest, hcheck, hpure⟩ := bind_run_eq_ok.1 hrun
    obtain ⟨-, rfl⟩ := pure_run_eq_ok.1 hpure
    exact h.ok hcheck
  error hrun := by
    rcases bind_run_eq_error.1 hrun with hcheck | ⟨value, rest, -, hpure⟩
    · exact h.error hcheck
    · cases hpure

/-- The check of the only child of a tree. -/
theorem only (h : Locates known child check) (hchildren : tree.children = [child])
    (hcount : tree.referenceCount = child.referenceCount)
    (huncertain : ∀ path id, IsUncertain known tree path id ↔
      ∃ rest, path = 0 :: rest ∧ IsUncertain known child rest id) :
    Locates known tree check where
  ok hrun := by
    obtain ⟨hrest, hnone⟩ := h.ok hrun
    refine ⟨hcount ▸ hrest, fun path id hpath ↦ ?_⟩
    obtain ⟨rest, -, hrest⟩ := (huncertain path id).1 hpath
    exact hnone rest id hrest
  error hrun := by
    obtain ⟨path, id, hpath, hfirst, hlocated⟩ := h.error hrun
    have hchild : tree.children[0]? = some child := by rw [hchildren]; rfl
    refine ⟨0 :: path, id, (huncertain _ _).2 ⟨path, rfl, hpath⟩,
      fun path' id' hpath' ↦ ?_, ?_⟩
    · obtain ⟨rest, rfl, hrest⟩ := (huncertain path' id').1 hpath'
      exact Regex.cons_path_le_cons.2 (.inr ⟨rfl, hfirst rest id' hrest⟩)
    · rw [hlocated, positionAt, positionAt, Regex.sitesBefore_cons hchild]
      rfl

/-- The check of the first child of a tree and then of the others, which are the children of
another tree. -/
theorem cons (h : Locates known child check) (others : Regex)
    (hchildren : tree.children = child :: others.children)
    (hcount : tree.referenceCount = child.referenceCount + others.referenceCount)
    (huncertain : ∀ path id, IsUncertain known tree path id ↔
      (∃ rest, path = 0 :: rest ∧ IsUncertain known child rest id) ∨
        ∃ index rest, path = (index + 1) :: rest ∧ IsUncertain known' others (index :: rest) id)
    (hother : ∀ id extent, others ≠ .backref id extent)
    (hnext : ∀ {positions rest : List Nat} {value : α},
      check.run positions = .ok (value, rest) → Locates known' others (next value)) :
    Locates known tree (check >>= next) where
  ok hrun := by
    obtain ⟨value, middle, hcheck, hothers⟩ := bind_run_eq_ok.1 hrun
    obtain ⟨rfl, hnone⟩ := h.ok hcheck
    obtain ⟨hrest, hnone'⟩ := (hnext hcheck).ok hothers
    refine ⟨by rw [hrest, hcount, List.drop_drop], fun path id hpath ↦ ?_⟩
    rcases (huncertain path id).1 hpath with ⟨rest, -, hrest⟩ | ⟨index, rest, -, hrest⟩
    · exact hnone rest id hrest
    · exact hnone' _ id hrest
  error {positions located} hrun := by
    have hchild : tree.children[0]? = some child := by rw [hchildren]; rfl
    rcases bind_run_eq_error.1 hrun with hcheck | ⟨value, middle, hcheck, hothers⟩
    · -- The first uncertain reference is in the first child.
      obtain ⟨path, id, hpath, hfirst, hlocated⟩ := h.error hcheck
      refine ⟨0 :: path, id, (huncertain _ _).2 (.inl ⟨path, rfl, hpath⟩),
        fun path' id' hpath' ↦ ?_, ?_⟩
      · rcases (huncertain path' id').1 hpath' with
          ⟨rest, rfl, hrest⟩ | ⟨index, rest, rfl, hrest⟩
        · exact Regex.cons_path_le_cons.2 (.inr ⟨rfl, hfirst rest id' hrest⟩)
        · exact Regex.cons_path_le_cons.2 (.inl (Nat.succ_pos index))
      · rw [hlocated, positionAt, positionAt, Regex.sitesBefore_cons hchild]
        rfl
    · -- No reference in the first child is uncertain, and the positions of all of them were taken.
      obtain ⟨rfl, hnone⟩ := h.ok hcheck
      obtain ⟨path, id, hpath, hfirst, hlocated⟩ := (hnext hcheck).error hothers
      cases path with
      | nil => exact absurd hpath (Regex.not_isUncertain_nil hother)
      | cons index path =>
        refine ⟨(index + 1) :: path, id, (huncertain _ _).2 (.inr ⟨index, path, rfl, hpath⟩),
          fun path' id' hpath' ↦ ?_, ?_⟩
        · rcases (huncertain path' id').1 hpath' with
            ⟨rest, rfl, hrest⟩ | ⟨index', rest, rfl, hrest⟩
          · exact absurd hrest (hnone rest id')
          · rcases Regex.cons_path_le_cons.1 (hfirst _ id' hrest) with hlt | ⟨rfl, hle⟩
            · exact Regex.cons_path_le_cons.2 (.inl (Nat.succ_lt_succ hlt))
            · exact Regex.cons_path_le_cons.2 (.inr ⟨rfl, hle⟩)
        · have hsites : tree.sitesBefore ((index + 1) :: path) =
              child.sites ++ others.sitesBefore (index :: path) := by
            rw [Regex.sitesBefore, Regex.sitesBefore, hchildren, List.take_succ_cons,
              Regex.sitesOfAll, List.getElem?_cons_succ, List.append_assoc]
          rw [hlocated, positionAt, positionAt, hsites, List.countP_append,
            Regex.countP_isReference_sites, List.drop_drop]

end Locates

variable {groups : Groups} {captured : List Nat}

/-- The checks of the parts of a sequence pass their references, or refuse the first uncertain
one. -/
theorem certainAfter_locates {parts : List Regex}
    (hfits : ∀ part ∈ parts, part.Everywhere groups.Fits)
    (h : ∀ part ∈ parts, ∀ {captured : List Nat},
      Locates (groups.HasCaptured captured) part (certain groups part captured)) :
    Locates (groups.HasCaptured captured) (.sequence parts)
      (certainAfter groups parts captured) := by
  induction parts generalizing captured with
  | nil => exact .of_leaf rfl (by simp) fun _ ↦ ⟨captured, rfl⟩
  | cons part parts ih =>
    obtain ⟨hpart, hparts⟩ := List.forall_mem_cons.1 hfits
    have hwell : ∀ other ∈ part :: parts, other.WellFormed :=
      fun other hother ↦ groups.stable_fits.wellFormed (hfits other hother)
    refine (h part (by simp)).cons (.sequence parts) rfl rfl
      (fun path id ↦ Regex.isUncertain_sequence_cons hwell) (by simp) fun {_ _ after} hrun ↦ ?_
    -- Behind the part, the groups have captured that are certain behind it.
    have hknown : groups.HasCaptured after =
        fun id ↦ groups.HasCaptured captured id ∨ id ∈ part.certainty.certain :=
      funext fun id ↦ propext ((agrees hpart).certain hrun id)
    rw [← hknown]
    exact ih hparts fun other hother ↦ h other (List.mem_cons_of_mem _ hother)

/-- The checks of several options pass their references, or refuse the first uncertain one. -/
theorem certainOfAny_locates {options : List Regex}
    (h : ∀ option ∈ options, Locates (groups.HasCaptured captured) option
      (certain groups option captured)) :
    Locates (groups.HasCaptured captured) (.choice options)
      (certainOfAny groups options captured) := by
  induction options with
  | nil => exact .of_leaf rfl (by simp) fun _ ↦ ⟨captured, rfl⟩
  | cons option options ih =>
    obtain ⟨hfirst, hrest⟩ := List.forall_mem_cons.1 h
    cases options with
    | nil =>
      refine hfirst.only rfl rfl fun path id ↦
        Regex.isUncertain_choice_cons.trans (or_iff_left ?_)
      rintro ⟨index, rest, -, h⟩
      exact Regex.not_isUncertain_of_leaf rfl (by simp) h
    | cons next options =>
      exact hfirst.cons (.choice (next :: options)) rfl rfl
        (fun path id ↦ Regex.isUncertain_choice_cons) (by simp) fun _ ↦ (ih hrest).map _

/-- The check of a reference passes it, or refuses it when it is uncertain. -/
theorem backref_locates (id : GroupId) (extent : Extent) :
    Locates (groups.HasCaptured captured) (.backref id extent)
      (certain groups (.backref id extent) captured) where
  ok hrun := by
    rw [certain_backref_run] at hrun
    split at hrun
    · rename_i hany
      cases hrun
      refine ⟨rfl, fun path other hpath ↦ ?_⟩
      obtain ⟨-, rfl, hnot⟩ := Regex.isUncertain_backref.1 hpath
      exact hnot (Groups.any_number?_iff.1 hany)
    · cases hrun
  error hrun := by
    rw [certain_backref_run] at hrun
    split at hrun
    · cases hrun
    · rename_i hany
      cases hrun
      refine ⟨[], id, Regex.isUncertain_backref.2
        ⟨rfl, rfl, fun hid ↦ hany (Groups.any_number?_iff.2 hid)⟩,
        fun path other hpath ↦ ?_, rfl⟩
      obtain ⟨rfl, -⟩ := Regex.isUncertain_backref.1 hpath
      exact le_refl _

/-- The check of a tree that fits the groups passes its references, or refuses the first uncertain
one. -/
theorem locates (hfits : tree.Everywhere groups.Fits) :
    Locates (groups.HasCaptured captured) tree (certain groups tree captured) := by
  induction tree generalizing captured with
  | empty => exact .of_leaf rfl (by simp) fun _ ↦ ⟨captured, rfl⟩
  | literal text ignoreCase => exact .of_leaf rfl (by simp) fun _ ↦ ⟨captured, rfl⟩
  | set members => exact .of_leaf rfl (by simp) fun _ ↦ ⟨captured, rfl⟩
  | sequence parts ih =>
    have hparts := (Regex.everywhere_sequence.1 hfits).2
    exact certainAfter_locates hparts fun part hpart ↦ ih part hpart (hparts part hpart)
  | choice options ih =>
    have hoptions := (Regex.everywhere_choice.1 hfits).2
    exact certainOfAny_locates fun option hoption ↦ ih option hoption (hoptions option hoption)
  | repetition body least most mode ih =>
    have hbody := (Regex.everywhere_repetition.1 hfits).2
    exact ((ih hbody).map _).only rfl rfl fun path id ↦ Regex.isUncertain_repetition
  | group kind body ih =>
    have hbody := (Regex.everywhere_group.1 hfits).2
    have hgroup (hkind : kind.isLookaround = false) (path : List Nat) (id : GroupId) :
        IsUncertain (groups.HasCaptured captured) (.group kind body) path id ↔
          ∃ rest, path = 0 :: rest ∧ IsUncertain (groups.HasCaptured captured) body rest id :=
      Regex.isUncertain_group.trans (and_iff_right hkind)
    have hassertion (hkind : kind.isLookaround = true) (path : List Nat) (id : GroupId) :
        ¬ IsUncertain (groups.HasCaptured captured) (.group kind body) path id :=
      fun h ↦ Bool.false_ne_true ((Regex.isUncertain_group.1 h).1.symm.trans hkind)
    cases kind with
    | capturing number name => exact ((ih hbody).map _).only rfl rfl (hgroup rfl)
    | plain => exact (ih hbody).only rfl rfl (hgroup rfl)
    | atomic => exact (ih hbody).only rfl rfl (hgroup rfl)
    | lookahead negated => exact .of_none (hassertion rfl) fun _ ↦ ⟨captured, rfl⟩
    | lookbehind negated => exact .of_none (hassertion rfl) fun _ ↦ ⟨captured, rfl⟩
  | backref id extent => exact backref_locates id extent

end ReferenceCheck

/-- The check of a whole pattern refuses its first reference that is uncertain when nothing has
captured. -/
theorem Groups.check_eq_error {groups : Groups} {tree : Regex} {located : Located}
    (hfits : tree.Everywhere groups.Fits) (h : groups.check tree = .error located) :
    ∃ path id, Regex.IsUncertain (fun _ ↦ False) tree path id ∧
      (∀ path' id', Regex.IsUncertain (fun _ ↦ False) tree path' id' → path ≤ path') ∧
      located =
        ⟨.uncertainGroup id,
          ReferenceCheck.positionAt tree path groups.references.reverse⟩ := by
  have hnone : groups.HasCaptured [] = fun _ ↦ False :=
    funext fun id ↦ propext (iff_false_intro Groups.not_hasCaptured_nil)
  rw [← hnone]
  refine (ReferenceCheck.locates hfits).error ?_
  unfold Groups.check at h
  cases hrun : (ReferenceCheck.certain groups tree []).run groups.references.reverse with
  | error located' =>
    rw [hrun] at h
    cases h
    rfl
  | ok outcome =>
    rw [hrun] at h
    cases h

end Exemplar
