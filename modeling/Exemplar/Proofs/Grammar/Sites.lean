import Exemplar.Proofs.Grammar.Located
import Exemplar.Proofs.Grammar.Numbering
import Exemplar.Proofs.Regex.Sites
import Mathlib.Logic.Relation

/-!
# Where sets and references are read

The sites of a pattern are read from left to right, each by one step that begins at its first
character (`Reading.ReadsAt`). Every step adds sites behind those that were read
(`Reading.Effect.notes`), so a site is read at one position only, and later sites are read further
on (`ReadsAt.lt`). A reference is read behind a backslash, and a set without members behind a
bracket (`ReadsAt.backslash`, `ReadsAt.bracket`).
-/

namespace Exemplar

/-- A unit that is repeated has the sites of the unit. -/
theorem Regex.Repeats.sites_eq {unit unit' : Regex} (h : unit.Repeats unit') :
    unit'.sites = unit.sites := by
  cases h with
  | once => rfl
  | repeated quantifier =>
    unfold Quantifier.apply
    split
    · split
      · rw [sites_sequence, List.flatMap_cons, List.flatMap_singleton, sites_ofText,
          Regex.repeated, sites, sites_ofText]
        rfl
      · rfl
    · rfl

/-- A plain unit has no references and no sets without members. -/
theorem Regex.IsPlainUnit.forall_mem_sites {unit : Regex} (h : unit.IsPlainUnit) :
    ∀ site ∈ unit.sites, site.isReference = false ∧ site.isEmptySet = false := by
  cases h with
  | empty => exact List.forall_mem_nil _
  | text chars ignoreCase =>
    rw [sites_ofText]
    exact List.forall_mem_nil _
  | set hmembers => exact List.forall_mem_singleton.2 ⟨rfl, hmembers⟩
  | lineBreak => decide +kernel

namespace Level

/-- The sites in the branches and units of a level, in the order of the text. -/
def sites (level : Level) : List Site :=
  level.branches.reverse.flatMap Regex.sites ++ level.units.reverse.flatMap Regex.sites

/-- The sites of another unit stand behind the others. -/
theorem sites_add (level : Level) (unit : Regex) :
    (level.add unit).sites = level.sites ++ unit.sites := by
  simp [sites, add]

/-- Another branch adds no sites. -/
theorem sites_nextBranch (level : Level) : level.nextBranch.sites = level.sites := by
  simp [sites, nextBranch, branch, Regex.sites_inSequence]

/-- The tree of a level has the sites of the level. -/
theorem sites_tree (level : Level) : level.tree.sites = level.sites := by
  unfold tree
  split
  · rename_i hbranches
    simp [sites, branch, hbranches, Regex.sites_inSequence]
  · simp [sites, branch, Regex.sites_inSequence, Regex.sites_anyOf]

end Level

namespace Groups

variable {groups later : Groups}

/-- Two records have the same references and the same first set without members. -/
def SameSites (groups later : Groups) : Prop :=
  later.references = groups.references ∧ later.firstEmptySet = groups.firstEmptySet

/-- Opening a group puts no site on record. -/
theorem sameSites_openCapture {name : Option String} {start : Nat} {kind : GroupKind}
    (h : groups.openCapture name start = .ok (kind, later)) : groups.SameSites later := by
  unfold openCapture at h
  cases name with
  | none =>
    cases h
    exact ⟨rfl, rfl⟩
  | some name =>
    simp only at h
    split at h <;> cases h
    exact ⟨rfl, rfl⟩

/-- Closing a group puts no site on record. -/
theorem sameSites_close (groups : Groups) (kind : GroupKind) (extent : Extent) :
    groups.SameSites (groups.close kind extent) := by
  unfold close
  split <;> exact ⟨rfl, rfl⟩

end Groups

namespace Reading

/-- The sites that were read, in the order of the text. -/
def sites (reading : Reading) : List Site :=
  reading.frames.reverse.flatMap (·.level.sites) ++ reading.level.sites

/-- What a step that goes on after the character `c` at `start` does to the sites and to their
record. At most sets with members are read, or a reference behind a backslash, or a set behind its
bracket. -/
inductive Notes (reading : Reading) (c : Char) (start : Nat) (next : Reading) : Prop
  | nothing (added : List Site) (hadded : ∀ site ∈ added, site.isReference = false ∧
      site.isEmptySet = false)
      (hsites : next.sites = reading.sites ++ added)
        (hrecord : reading.groups.SameSites next.groups)
  | reference (id : GroupId) (hmark : c = '\\')
      (hsites : next.sites = reading.sites ++ [.reference id])
      (hreferences : next.groups.references = start :: reading.groups.references)
      (hempty : next.groups.firstEmptySet = reading.groups.firstEmptySet)
  | bracket (members : CharSet) (hmark : c = '[')
      (hsites : next.sites = reading.sites ++ [.set members])
      (hrecord : next.groups = reading.groups.noteSet members start)

variable {reading next : Reading} {c : Char} {start : Nat} {cursor : Cursor}

/-- The sites of a unit that is added stand behind the others. -/
theorem sites_addUnit (reading : Reading) (unit : Regex) (groups : Groups) (cursor : Cursor) :
    ({ reading with cursor, groups, level := reading.level.add unit } : Reading).sites =
      reading.sites ++ unit.sites := by
  simp [sites, Level.sites_add]

/-- A group that is opened adds no sites. -/
theorem sites_enter (reading : Reading) (kind : GroupKind) (start : Nat) (cursor : Cursor) :
    (reading.enter kind start cursor).sites = reading.sites := by
  have hlevel : ({} : Level).sites = [] := rfl
  simp [sites, enter, hlevel]

namespace Notes

/-- A step that leaves the sites as they are. -/
theorem of_sites_eq (hsites : next.sites = reading.sites)
    (hrecord : reading.groups.SameSites next.groups) : reading.Notes c start next :=
  .nothing [] (by simp) (by simpa using hsites) hrecord

end Notes

/-- Every effect of a step adds sites, and puts some of them on record. -/
theorem Effect.notes (h : reading.Effect c start next) : reading.Notes c start next := by
  cases h with
  | @unit unit unit' cursor hplain hunit =>
    refine .nothing unit.sites hplain.forall_mem_sites ?_ ⟨rfl, rfl⟩
    exact (sites_addUnit ..).trans (congrArg (reading.sites ++ ·) hunit.repeats.sites_eq)
  | @reference id number extent unit' cursor hmark hnumber hextent hunit =>
    refine .reference id hmark ?_ rfl rfl
    exact (sites_addUnit ..).trans (congrArg (reading.sites ++ ·) hunit.repeats.sites_eq)
  | @bracket members unit' cursor hmark hunit =>
    refine .bracket members hmark ?_ rfl
    exact (sites_addUnit ..).trans (congrArg (reading.sites ++ ·) hunit.repeats.sites_eq)
  | branch => exact .of_sites_eq (congrArg (_ ++ ·) reading.level.sites_nextBranch) ⟨rfl, rfl⟩
  | @enter kind opening flags cursor hkind =>
    exact .of_sites_eq (sites_enter reading kind opening cursor) ⟨rfl, rfl⟩
  | capture hname hopen => exact .of_sites_eq (sites_enter ..) (Groups.sameSites_openCapture hopen)
  | switch => exact .of_sites_eq rfl ⟨rfl, rfl⟩
  | close hframes hbounded hunit =>
    refine .of_sites_eq ?_ (Groups.sameSites_close ..)
    simp [sites, hframes, Level.sites_add, hunit.repeats.sites_eq, Regex.sites, Level.sites_tree]

/-- Every step that goes on after a character adds sites, and puts some of them on record. -/
theorem notes_of_advance (h : reading.advance c start cursor = .ok next) :
    reading.Notes c start next :=
  (effect_of_advance h).notes

/-! ## Positions of sites -/

/-- One reading comes to another by steps that lead on. -/
def ComesTo : Reading → Reading → Prop :=
  Relation.ReflTransGen fun reading next ↦ reading.step = .ok (.more next)

/-- The position of the next character that counts. -/
def unitStart (reading : Reading) : Nat :=
  (reading.cursor.skip reading.flags.comments).position

/-- The site is read behind the sites before it, by a step that begins at the position. -/
def ReadsAt (first : Reading) (before : List Site) (site : Site) (position : Nat) : Prop :=
  ∃ reading next, first.ComesTo reading ∧ reading.step = .ok (.more next) ∧
    reading.sites = before ∧ next.sites = before ++ [site] ∧ reading.unitStart = position

variable {first last : Reading} {text : List Char} {before before' after : List Site}
  {site site' : Site}
  {position position' : Nat} {id : GroupId} {members : CharSet} {tree : Regex} {groups : Groups}

/-- A step that leads on adds sites, and puts some of them on record. -/
theorem notes_of_step (h : reading.step = .ok (.more next)) : ∃ c rest,
    (reading.cursor.skip reading.flags.comments).rest = c :: rest ∧
      reading.Notes c reading.unitStart next := by
  obtain ⟨c, rest, hrest, hadvance⟩ := exists_advance_of_step h
  exact ⟨c, rest, hrest, notes_of_advance hadvance⟩

/-- Sites that were read are kept. -/
theorem Notes.sites_isPrefix (h : reading.Notes c start next) : reading.sites <+: next.sites := by
  cases h with
  | nothing added _ hsites _ => exact ⟨added, hsites.symm⟩
  | reference id _ hsites _ _ => exact ⟨_, hsites.symm⟩
  | bracket members _ hsites _ => exact ⟨_, hsites.symm⟩

namespace ComesTo

/-- The sites that were read at some point are read later on. -/
theorem sites_isPrefix (h : first.ComesTo last) : first.sites <+: last.sites := by
  induction h with
  | refl => exact List.prefix_refl _
  | tail _ hstep ih =>
    obtain ⟨c, rest, -, hnotes⟩ := notes_of_step hstep
    exact ih.trans hnotes.sites_isPrefix

/-- Reading stays in the text. -/
theorem on (h : first.ComesTo last) (hfirst : first.On text) : last.On text := by
  induction h with
  | refl => exact hfirst
  | tail _ hstep ih => exact ih.step.ok hstep

/-- No characters are given back. -/
theorem rest_length_le (h : first.ComesTo last) :
    last.cursor.rest.length ≤ first.cursor.rest.length := by
  induction h with
  | refl => exact Nat.le_refl _
  | tail _ hstep ih => exact Nat.le_trans (Nat.le_of_lt (step_shortens hstep)) ih

/-- Of two readings that are come to, one comes to the other. -/
theorem total {other : Reading} (h : first.ComesTo last) (hother : first.ComesTo other) :
    last.ComesTo other ∨ other.ComesTo last :=
  Relation.ReflTransGen.total_of_right_unique
    (fun _ _ _ hstep hstep' ↦ ReadingStep.more.inj (Except.ok.inj (hstep.symm.trans hstep'))) h
      hother

end ComesTo

/-- Reading to the end comes to a reading outside all groups, whose tree and record are returned. -/
theorem exists_comesTo_of_run (hrun : reading.run = .ok (tree, groups)) :
    ∃ last, reading.ComesTo last ∧ last.sites = tree.sites ∧ last.groups = groups := by
  fun_induction Reading.run reading with
  | case1 reading located hstep => cases hrun
  | case2 reading tree' groups' hstep =>
    cases hrun
    obtain ⟨hframes, rfl, rfl⟩ := step_eq_done hstep
    refine ⟨reading, .refl, ?_, rfl⟩
    rw [sites, hframes, Level.sites_tree]
    rfl
  | case3 reading next hstep ih =>
    obtain ⟨last, hlast, hreturned⟩ := ih hrun
    exact ⟨last, .head hstep hlast, hreturned⟩

/-- A step that leads on ends behind the character at which it began. -/
theorem unitStart_lt_of_step (h : reading.step = .ok (.more next)) (hon : reading.On text) :
    reading.unitStart < next.cursor.position := by
  obtain ⟨c, rest, hrest, hadvance⟩ := exists_advance_of_step h
  have hnext : next.On text := hon.step.ok h
  refine (hon.cursor.skip _).position_lt hnext.cursor ?_
  rw [hrest]
  exact Nat.lt_succ_of_le (advance_le hadvance)

/-- The next character that counts is not behind the cursor. -/
theorem position_le_unitStart (hon : reading.On text) :
    reading.cursor.position ≤ reading.unitStart := by
  have hlength := hon.cursor.length_eq
  have hlength' := (hon.cursor.skip reading.flags.comments).length_eq
  have hle := reading.cursor.skip_rest_length_le reading.flags.comments
  unfold unitStart
  omega

/-- A reading that comes to another one is that one, or its step ends before the other one
begins. -/
theorem ComesTo.eq_or_lt {next' : Reading} (h : reading.ComesTo last)
    (hstep : reading.step = .ok (.more next)) (hstep' : last.step = .ok (.more next'))
    (hon : reading.On text) :
    reading = last ∧ next = next' ∨
    next.sites <+: last.sites ∧ reading.unitStart < last.unitStart := by
  rcases Relation.ReflTransGen.cases_head h with rfl | ⟨middle, hmiddle, hlater⟩
  · exact .inl ⟨rfl, ReadingStep.more.inj (Except.ok.inj (hstep.symm.trans hstep'))⟩
  · obtain rfl : next = middle := ReadingStep.more.inj (Except.ok.inj (hstep.symm.trans hmiddle))
    have hlast : last.On text := ComesTo.on h hon
    have hlt := unitStart_lt_of_step hstep hon
    have hle := position_le_unitStart hlast
    have hrest := ComesTo.rest_length_le hlater
    have hlength := (hon.step.ok hstep).cursor.length_eq
    have hlength' := hlast.cursor.length_eq
    exact .inr ⟨ComesTo.sites_isPrefix hlater, by omega⟩

namespace ReadsAt

/-- Two sites are the same one, or the one that is read first stands before the other in the
text. -/
theorem eq_or_lt (h : first.ReadsAt before site position)
    (h' : first.ReadsAt before' site' position') (hon : first.On text) :
    (before = before' ∧ site = site' ∧ position = position') ∨
      (before ++ [site] <+: before' ∧ position < position') ∨
        (before' ++ [site'] <+: before ∧ position' < position) := by
  obtain ⟨reading, next, hreading, hstep, rfl, hsites, rfl⟩ := h
  obtain ⟨reading', next', hreading', hstep', rfl, hsites', rfl⟩ := h'
  rcases hreading.total hreading' with hlater | hearlier
  · rcases hlater.eq_or_lt hstep hstep' (hreading.on hon) with ⟨rfl, rfl⟩ | hlt
    · have hsite : [site] = [site'] := List.append_cancel_left (hsites.symm.trans hsites')
      exact .inl ⟨rfl, List.singleton_inj.1 hsite, rfl⟩
    · exact .inr (.inl (hsites ▸ hlt))
  · rcases hearlier.eq_or_lt hstep' hstep (hreading'.on hon) with ⟨rfl, rfl⟩ | hlt
    · have hsite : [site] = [site'] := List.append_cancel_left (hsites.symm.trans hsites')
      exact .inl ⟨rfl, List.singleton_inj.1 hsite, rfl⟩
    · exact .inr (.inr (hsites' ▸ hlt))

/-- Sites that are read later are read further on in the text. -/
theorem lt (h : first.ReadsAt before site position) (h' : first.ReadsAt before' site' position')
    (hon : first.On text) (hlater : before ++ [site] <+: before') : position < position' := by
  have hlength : before.length + 1 ≤ before'.length := by simpa using hlater.length_le
  rcases h.eq_or_lt h' hon with ⟨rfl, -, -⟩ | hlt | hgt
  · omega
  · exact hlt.2
  · have hlength' : before'.length + 1 ≤ before.length := by simpa using hgt.1.length_le
    omega

/-- One site is read at a position. -/
theorem before_eq (h : first.ReadsAt before site position)
    (h' : first.ReadsAt before' site' position) (hon : first.On text) : before = before' := by
  rcases h.eq_or_lt h' hon with ⟨hbefore, -, -⟩ | hlt | hgt
  · exact hbefore
  · exact absurd hlt.2 (Nat.lt_irrefl _)
  · exact absurd hgt.2 (Nat.lt_irrefl _)

/-- What is read is the character at the position. -/
theorem exists_notes (h : first.ReadsAt before site position) (hon : first.On text) :
    ∃ (reading next : Reading) (c : Char), text[position]? = some c ∧ reading.sites = before ∧
      next.sites = before ++ [site] ∧ reading.Notes c position next := by
  obtain ⟨reading, next, hreading, hstep, hbefore, hsites, rfl⟩ := h
  obtain ⟨c, rest, hrest, hnotes⟩ := notes_of_step hstep
  have hskip := (hreading.on hon).cursor.skip reading.flags.comments
  refine ⟨reading, next, c, ?_, hbefore, hsites, hnotes⟩
  rw [unitStart, ← List.head?_drop, ← hskip.rest_eq, hrest]
  rfl

/-- A reference is read behind a backslash. -/
theorem backslash (h : first.ReadsAt before (.reference id) position) (hon : first.On text) :
    text[position]? = some '\\' := by
  obtain ⟨reading, next, c, hc, rfl, hsites, hnotes⟩ := h.exists_notes hon
  cases hnotes with
  | nothing added hadded hsites' _ =>
    obtain rfl := List.append_cancel_left (hsites'.symm.trans hsites)
    cases (hadded _ (List.mem_singleton_self _)).1
  | reference _ hmark => exact hc.trans (congrArg some hmark)
  | bracket members _ hsites' _ => cases List.append_cancel_left (hsites'.symm.trans hsites)

/-- A set without members is read behind a bracket. -/
theorem bracket (h : first.ReadsAt before (.set members) position) (hon : first.On text)
    (hempty : members.isEmpty = true) : text[position]? = some '[' := by
  obtain ⟨reading, next, c, hc, rfl, hsites, hnotes⟩ := h.exists_notes hon
  cases hnotes with
  | nothing added hadded hsites' _ =>
    obtain rfl := List.append_cancel_left (hsites'.symm.trans hsites)
    cases hempty.symm.trans (hadded _ (List.mem_singleton_self _)).2
  | reference _ _ hsites' => cases List.append_cancel_left (hsites'.symm.trans hsites)
  | bracket _ hmark _ _ => exact hc.trans (congrArg some hmark)

end ReadsAt

end Reading

end Exemplar
