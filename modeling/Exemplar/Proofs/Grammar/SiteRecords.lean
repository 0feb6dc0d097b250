import Exemplar.Proofs.Grammar.Sites

/-!
# The record of sites

While a pattern is read, the record of the groups keeps the positions at which references were
read, and the position at which the first set without members was read. Every step keeps this so
(`RecordsReferences.step`, `RecordsSets.step`), and hence they are all on record when the pattern
was read to its end (`exists_readsAt_of_run`, `firstEmptySet_of_run`).
-/

namespace Exemplar.Reading

/-- The positions at which the references were read are on record, in the order of the references,
the latest one first. -/
structure RecordsReferences (first reading : Reading) : Prop where
  length_eq : reading.groups.references.length = reading.sites.countP Site.isReference
  exists_readsAt {before after : List Site} {id : GroupId}
    (h : reading.sites = before ++ .reference id :: after) :
    ∃ position, reading.groups.references.reverse[before.countP Site.isReference]? =
      some position ∧ first.ReadsAt before (.reference id) position

/-- The position at which the first set without members was read is on record, and when there is
none on record, every set has members. -/
structure RecordsSets (first reading : Reading) : Prop where
  isEmptySet_eq_false (h : reading.groups.firstEmptySet = none) :
    ∀ site ∈ reading.sites, site.isEmptySet = false
  exists_readsAt {position : Nat} (h : reading.groups.firstEmptySet = some position) :
    ∃ before members after, reading.sites = before ++ .set members :: after ∧
      members.isEmpty = true ∧
      (∀ site ∈ before, site.isEmptySet = false) ∧
      first.ReadsAt before (.set members) position

variable {first reading next last : Reading} {text : List Char} {flags : Flags}
  {before after added : List Site} {site : Site} {position : Nat} {id : GroupId} {members : CharSet}
  {tree : Regex} {groups : Groups}

/-- A site of two rows is a site of the first row or of the second. -/
theorem split_of_append_eq {sites : List Site} (h : sites ++ added = before ++ site :: after) :
    (∃ middle, sites = before ++ site :: middle) ∨
      ∃ middle, before = sites ++ middle ∧ added = middle ++ site :: after := by
  rcases List.append_eq_append_iff.1 h with
    ⟨middle, hbefore, hadded⟩ | ⟨middle, hsites, hafter⟩
  · exact .inr ⟨middle, hbefore, hadded⟩
  · cases middle with
    | nil => exact .inr ⟨[], by simpa using hsites.symm, by simpa using hafter.symm⟩
    | cons other middle =>
      obtain ⟨rfl, -⟩ := List.cons.inj hafter
      exact .inl ⟨middle, hsites⟩

/-- The site that is read by a step that leads on. -/
theorem readsAt_of_step (hcomes : first.ComesTo reading) (hstep : reading.step = .ok (.more next))
    (hsites : next.sites = reading.sites ++ [site]) :
    first.ReadsAt reading.sites site reading.unitStart :=
  ⟨reading, next, hcomes, hstep, rfl, hsites, rfl⟩

/-! ## References -/

namespace RecordsReferences

/-- Nothing is on record at the start of a pattern. -/
theorem atStart (text : List Char) (flags : Flags) :
    (Reading.start text flags).RecordsReferences (Reading.start text flags) where
  length_eq := rfl
  exists_readsAt h := by
    have hnone : [] = _ ++ Site.reference _ :: _ := h
    simp at hnone

/-- Sites without references leave the record as it is. -/
theorem append (h : first.RecordsReferences reading)
    (hadded : ∀ site ∈ added, site.isReference = false)
    (hsites : next.sites = reading.sites ++ added)
    (hreferences : next.groups.references = reading.groups.references) :
    first.RecordsReferences next where
  length_eq := by
    have hnone : added.countP Site.isReference = 0 := List.countP_eq_zero.2 (by simpa using hadded)
    rw [hreferences, hsites, List.countP_append, hnone, h.length_eq]
    rfl
  exists_readsAt {before after id} hsplit := by
    rw [hreferences]
    rcases split_of_append_eq (hsites.symm.trans hsplit) with
      ⟨middle, hread⟩ | ⟨middle, -, rfl⟩
    · exact h.exists_readsAt hread
    · cases hadded (.reference id) (by simp)

/-- A reference adds its position. -/
theorem concat (h : first.RecordsReferences reading)
    (hreads : first.ReadsAt reading.sites (.reference id) position)
    (hsites : next.sites = reading.sites ++ [.reference id])
    (hreferences : next.groups.references = position :: reading.groups.references) :
    first.RecordsReferences next where
  length_eq := by
    rw [hreferences, hsites, List.countP_append, List.length_cons, h.length_eq]
    rfl
  exists_readsAt {before after other} hsplit := by
    rw [hreferences, List.reverse_cons]
    rcases split_of_append_eq (hsites.symm.trans hsplit) with
      ⟨middle, hread⟩ | ⟨middle, rfl, hadded⟩
    · obtain ⟨position', hposition, hreads'⟩ := h.exists_readsAt hread
      refine ⟨position', ?_, hreads'⟩
      rw [List.getElem?_append_left (List.getElem?_eq_some_iff.1 hposition).1, hposition]
    · -- The reference is the one that was added.
      obtain ⟨rfl, hother⟩ : middle = [] ∧ Site.reference other = .reference id := by
        cases middle with
        | nil => exact ⟨rfl, (List.cons.inj hadded).1.symm⟩
        | cons site middle => simp at hadded
      rw [List.append_nil, hother]
      refine ⟨position, ?_, hreads⟩
      rw [← h.length_eq, ← List.length_reverse]
      exact List.getElem?_concat_length ..

/-- Every step keeps the record. -/
theorem step (h : first.RecordsReferences reading) (hcomes : first.ComesTo reading)
    (hstep : reading.step = .ok (.more next)) : first.RecordsReferences next := by
  obtain ⟨c, rest, -, hnotes⟩ := notes_of_step hstep
  cases hnotes with
  | nothing added hadded hsites hrecord =>
    exact h.append (fun site hsite ↦ (hadded site hsite).1) hsites hrecord.1
  | reference id _ hsites hreferences _ =>
    exact h.concat (readsAt_of_step hcomes hstep hsites) hsites hreferences
  | bracket members _ hsites hrecord =>
    refine h.append (List.forall_mem_singleton.2 rfl) hsites ?_
    rw [hrecord, Groups.noteSet]
    split <;> rfl

/-- Reading on keeps the record. -/
theorem comesTo (h : first.RecordsReferences first) (hlast : first.ComesTo last) :
    first.RecordsReferences last := by
  induction hlast with
  | refl => exact h
  | tail hcomes hstep ih => exact ih.step hcomes hstep

end RecordsReferences

/-! ## Sets -/

namespace RecordsSets

/-- Nothing is on record at the start of a pattern. -/
theorem atStart (text : List Char) (flags : Flags) :
    (Reading.start text flags).RecordsSets (Reading.start text flags) where
  isEmptySet_eq_false _ := List.forall_mem_nil _
  exists_readsAt h := by cases h

/-- Sites leave the record as it is, unless they are the first sets without members. -/
theorem append (h : first.RecordsSets reading)
    (hadded : reading.groups.firstEmptySet = none → ∀ site ∈ added, site.isEmptySet = false)
    (hsites : next.sites = reading.sites ++ added)
    (hempty : next.groups.firstEmptySet = reading.groups.firstEmptySet) :
    first.RecordsSets next where
  isEmptySet_eq_false hnone := by
    have hnone' := hempty.symm.trans hnone
    rw [hsites]
    exact List.forall_mem_append.2 ⟨h.isEmptySet_eq_false hnone', hadded hnone'⟩
  exists_readsAt hsome := by
    obtain ⟨before, members, after, hread, hmembers, hbefore, hreads⟩ :=
      h.exists_readsAt (hempty.symm.trans hsome)
    refine ⟨before, members, after ++ added, ?_, hmembers, hbefore, hreads⟩
    rw [hsites, hread, List.append_assoc, List.cons_append]

/-- A set adds its position if it is the first one without members. -/
theorem concat (h : first.RecordsSets reading)
    (hreads : first.ReadsAt reading.sites (.set members) position)
    (hsites : next.sites = reading.sites ++ [.set members])
    (hrecord : next.groups = reading.groups.noteSet members position) : first.RecordsSets next := by
  by_cases hnew : members.isEmpty = true ∧ reading.groups.firstEmptySet = none
  · have hempty : next.groups.firstEmptySet = some position := by
      rw [hrecord, Groups.noteSet, if_pos hnew]
    refine ⟨fun hnone ↦ ?_, fun hsome ↦ ?_⟩
    · cases hempty.symm.trans hnone
    · obtain rfl := Option.some.inj (hempty.symm.trans hsome)
      exact ⟨reading.sites, members, [], hsites, hnew.1, h.isEmptySet_eq_false hnew.2, hreads⟩
  · refine h.append (fun hnone ↦ List.forall_mem_singleton.2 ?_) hsites ?_
    · exact Bool.eq_false_iff.2 fun hisEmpty ↦ hnew ⟨hisEmpty, hnone⟩
    · rw [hrecord, Groups.noteSet, if_neg hnew]

/-- Every step keeps the record. -/
theorem step (h : first.RecordsSets reading) (hcomes : first.ComesTo reading)
    (hstep : reading.step = .ok (.more next)) : first.RecordsSets next := by
  obtain ⟨c, rest, -, hnotes⟩ := notes_of_step hstep
  cases hnotes with
  | nothing added hadded hsites hrecord =>
    exact h.append (fun _ site hsite ↦ (hadded site hsite).2) hsites hrecord.2
  | reference id _ hsites _ hempty =>
    exact h.append (fun _ ↦ List.forall_mem_singleton.2 rfl) hsites hempty
  | bracket members _ hsites hrecord =>
    exact h.concat (readsAt_of_step hcomes hstep hsites) hsites hrecord

/-- Reading on keeps the record. -/
theorem comesTo (h : first.RecordsSets first) (hlast : first.ComesTo last) :
    first.RecordsSets last := by
  induction hlast with
  | refl => exact h
  | tail hcomes hstep ih => exact ih.step hcomes hstep

end RecordsSets

/-! ## The end of a pattern -/

/-- When a pattern was read to its end, the positions of all its references are on record. -/
theorem exists_readsAt_of_run (hrun : (Reading.start text flags).run = .ok (tree, groups))
    (h : tree.sites = before ++ .reference id :: after) :
    ∃ position, groups.references.reverse[before.countP Site.isReference]? = some position ∧
      (Reading.start text flags).ReadsAt before (.reference id) position := by
  obtain ⟨last, hlast, hsites, rfl⟩ := exists_comesTo_of_run hrun
  exact ((RecordsReferences.atStart text flags).comesTo hlast).exists_readsAt (hsites.trans h)

/-- When a pattern was read to its end, the position of its first set without members is on record,
if it has such sets. -/
theorem firstEmptySet_of_run (hrun : (Reading.start text flags).run = .ok (tree, groups)) :
    (groups.firstEmptySet = none ∧ ∀ site ∈ tree.sites, site.isEmptySet = false) ∨
      ∃ position before members after, groups.firstEmptySet = some position ∧
        tree.sites = before ++ .set members :: after ∧ members.isEmpty = true ∧
        (∀ site ∈ before, site.isEmptySet = false) ∧
        (Reading.start text flags).ReadsAt before (.set members) position := by
  obtain ⟨last, hlast, hsites, rfl⟩ := exists_comesTo_of_run hrun
  have hrecords := (RecordsSets.atStart text flags).comesTo hlast
  cases hempty : last.groups.firstEmptySet with
  | none => exact .inl ⟨rfl, hsites ▸ hrecords.isEmptySet_eq_false hempty⟩
  | some position =>
    obtain ⟨before, members, after, hread, hrest⟩ := hrecords.exists_readsAt hempty
    exact .inr ⟨position, before, members, after, rfl, hsites ▸ hread, hrest⟩

end Exemplar.Reading
