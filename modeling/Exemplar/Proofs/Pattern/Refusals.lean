import Exemplar.Pattern
import Exemplar.Proofs.Grammar.Faults
import Exemplar.Proofs.Grammar.SiteRecords
import Exemplar.Proofs.Grammar.Uncertain
import Exemplar.Proofs.Regex.Mandatory

/-!
# Patterns that are refused behind their end

A pattern that was read to its end is refused for its first reference that is uncertain, at the
backslash of that reference (`isAtReference_of_compile`). When no reference is uncertain, it is
refused if it is impossible, which is so when one of its sets without members is mandatory. Then
the error is at the bracket of the first set without members. That set is mandatory unless one that
is not stands before all mandatory ones (`isAtEmptySet_of_compile`,
`not_isMandatory_optionalFirst`).
-/

namespace Exemplar

variable {source : String} {flags : Flags} {error : CompileError} {id : GroupId} {tree : Regex}
  {groups : Groups} {path : List Nat}

/-- A pattern that does not compile has an error with its text, and with the fault and the place
that were found. -/
theorem Pattern.compile_eq_error (h : Pattern.compile source flags = .error error) :
    error.pattern = source ∧ Regex.parse source.toList flags = .error error.located := by
  unfold Pattern.compile at h
  split at h
  · cases h
  · rename_i located hparse
    cases h
    exact ⟨rfl, hparse⟩

/-- A pattern that is refused for an uncertain reference is refused by the check of its
references. -/
theorem Pattern.check_of_compile (h : Pattern.compile source flags = .error error)
    (hfault : error.located.fault = .uncertainGroup id) :
    ∃ tree groups, (Reading.start source.toList flags).run = .ok (tree, groups) ∧
      groups.check tree = .error error.located := by
  rcases Regex.parse_eq_error (Pattern.compile_eq_error h).2 with
    hrun | ⟨tree, groups, hrun, hcheck | ⟨-, hlocated⟩⟩
  · have hfails := (Reading.failsInReading_run _).of_error hrun
    rw [hfault] at hfails
    exact hfails.elim
  · exact ⟨tree, groups, hrun, hcheck⟩
  · rw [hlocated] at hfault
    cases hfault

/-- A pattern that is refused because it is impossible is refused when it was read to its end. -/
theorem Pattern.prune_of_compile (h : Pattern.compile source flags = .error error)
    (hfault : error.located.fault = .impossible) :
    ∃ tree groups, (Reading.start source.toList flags).run = .ok (tree, groups) ∧
      tree.prune = none ∧ error.located.position = groups.firstEmptySet.getD 0 := by
  rcases Regex.parse_eq_error (Pattern.compile_eq_error h).2 with
    hrun | ⟨tree, groups, hrun, hcheck | ⟨hprune, hlocated⟩⟩
  · have hfails := (Reading.failsInReading_run _).of_error hrun
    rw [hfault] at hfails
    exact hfails.elim
  · have hfits := (Reading.Sound.start source.toList flags).run hrun
    obtain ⟨path, id, -, -, hlocated⟩ := Groups.check_eq_error hfits hcheck
    rw [hlocated] at hfault
    cases hfault
  · exact ⟨tree, groups, hrun, hprune, by rw [hlocated]⟩

namespace CompileError

/-- The message for a construct for which no string can be generated. -/
def unsupported (error : CompileError) (text : String) : String :=
  s!"Unsupported construct: {text} near index {error.located.position}\n{error.diagnostic.caret}"

/-- A fault that does not break the language is shown as a construct for which no string can be
generated. -/
theorem message_eq_unsupported (h : error.located.fault.kind = .unsupported) :
    error.diagnostic.message = error.unsupported error.located.fault.description := by
  rw [Diagnostic.message, diagnostic, h]
  rfl

end CompileError

/-! ## Uncertain references -/

/-- The error is about the reference at the path, which is the first uncertain one of the tree. The
error shows the pattern from which the tree was read, and its message names the reference and the
position. The reference is outside of assertions, some way to it captures no group to which it
leads, and it was read at the position of the error, where its backslash is. All uncertain
references were read, and none of them before this one. -/
structure CompileError.IsAtReference (error : CompileError) (source : String) (flags : Flags)
    (tree : Regex) (path : List Nat) (id : GroupId) : Prop where
  pattern : error.pattern = source
  read : ∃ groups, (Reading.start source.toList flags).run = .ok (tree, groups)
  uncertain : Regex.IsUncertain (fun _ ↦ False) tree path id
  outside : ¬ tree.IsInAssertion path
  readsAt : (Reading.start source.toList flags).ReadsAt (tree.sitesBefore path) (.reference id)
    error.located.position
  backslash : source.toList[error.located.position]? = some '\\'
  leftmost : ∀ path' id', Regex.IsUncertain (fun _ ↦ False) tree path' id' →
    ∃ position, (Reading.start source.toList flags).ReadsAt (tree.sitesBefore path')
      (.reference id') position ∧ error.located.position ≤ position
  message : error.diagnostic.message =
    error.unsupported s!"backreference {id} to a group that may not have captured"

namespace Pattern

/-- The position that belongs to a reference is the one at which it was read. -/
theorem readsAt_positionAt {extent : Extent}
    (hrun : (Reading.start source.toList flags).run = .ok (tree, groups))
    (h : tree.at? path = some (.backref id extent)) :
    (Reading.start source.toList flags).ReadsAt (tree.sitesBefore path) (.reference id)
      (ReferenceCheck.positionAt tree path groups.references.reverse) := by
  obtain ⟨after, hsites⟩ := Regex.exists_sites_eq h
  obtain ⟨position, hposition, hreads⟩ := Reading.exists_readsAt_of_run hrun hsites
  have hfound : ReferenceCheck.positionAt tree path groups.references.reverse = position := by
    rw [ReferenceCheck.positionAt, List.headD_eq_head?_getD, List.head?_drop, hposition]
    rfl
  rwa [hfound]

/-- A pattern that is refused for an uncertain reference is refused at the first one. -/
theorem isAtReference_of_compile (h : compile source flags = .error error)
    (hfault : error.located.fault = .uncertainGroup id) :
    ∃ tree path, error.IsAtReference source flags tree path id := by
  obtain ⟨tree, groups, hrun, hcheck⟩ := check_of_compile h hfault
  have hfits := (Reading.Sound.start source.toList flags).run hrun
  have hon := Reading.On.atStart source.toList flags
  obtain ⟨path, other, huncertain, hfirst, hlocated⟩ := Groups.check_eq_error hfits hcheck
  obtain rfl : other = id := by
    rw [hlocated] at hfault
    exact Fault.uncertainGroup.inj hfault
  obtain ⟨extent, ids, hat, hreaches, -⟩ := huncertain.2
  have hreads := readsAt_positionAt hrun hat
  have hposition : error.located.position =
      ReferenceCheck.positionAt tree path groups.references.reverse := by
    rw [hlocated]
  rw [← hposition] at hreads
  refine ⟨tree, path, (compile_eq_error h).1, ⟨groups, hrun⟩, huncertain,
    hreaches.not_isInAssertion, hreads, hreads.backslash hon,
    fun path' id' huncertain' ↦ ?_, ?_⟩
  · obtain ⟨extent', ids', hat', -, -⟩ := huncertain'.2
    have hreads' := readsAt_positionAt hrun hat'
    refine ⟨_, hreads', ?_⟩
    rcases eq_or_lt_of_le (hfirst path' id' huncertain') with rfl | hlt
    · exact Nat.le_of_eq hposition
    · exact Nat.le_of_lt
        (hreads.lt hreads' hon (Regex.sitesBefore_append_isPrefix hat rfl hat' hlt))
  · rw [CompileError.message_eq_unsupported (by rw [hfault]; rfl), hfault]
    rfl

/-- The pattern refers to its second group three times: in an assertion, behind the group of which
the second group is one of two options, and in a part that may be absent. -/
def uncertainEcho : CompileError :=
  ⟨"((a)|b)(?=\\2\x7b0,2\x7d)\\1(?:c\\2)?", ⟨.uncertainGroup (.index 2), 24⟩⟩

/-- The pattern is refused at its last reference. -/
theorem isAtReference_uncertainEcho :
    compile uncertainEcho.pattern .none = .error uncertainEcho ∧
      ∃ tree path, uncertainEcho.IsAtReference uncertainEcho.pattern .none tree path
        (.index 2) := by
  have hcompile : compile uncertainEcho.pattern .none = .error uncertainEcho := by decide +kernel
  exact ⟨hcompile, isAtReference_of_compile hcompile rfl⟩

end Pattern

/-! ## Impossible patterns -/

/-- The error is about the set without members at the path, which is the first one of the tree. The
error shows the pattern from which the tree was read, and its message has the position, at which
the set was read and where its opening bracket is. The set comes before all others without members,
of which one is mandatory. This one is mandatory unless one that is not comes before all mandatory
ones. -/
structure CompileError.IsAtEmptySet (error : CompileError) (source : String) (flags : Flags)
    (tree : Regex) (path : List Nat) : Prop where
  pattern : error.pattern = source
  read : ∃ groups, (Reading.start source.toList flags).run = .ok (tree, groups)
  readsAt : ∃ members, tree.at? path = some (.set members) ∧ members.isEmpty = true ∧
    (Reading.start source.toList flags).ReadsAt (tree.sitesBefore path)
      (.set members) error.located.position
  bracket : source.toList[error.located.position]? = some '['
  first : ∀ path', tree.HasEmptySetAt path' → path ≤ path'
  exists_mandatory : ∃ path', tree.HasEmptySetAt path' ∧ tree.IsMandatory path'
  isMandatory_iff : tree.IsMandatory path ↔
    ∀ path', tree.HasEmptySetAt path' → ¬ tree.IsMandatory path' →
      ∃ path'', tree.HasEmptySetAt path'' ∧ tree.IsMandatory path'' ∧ path'' < path'
  message : error.diagnostic.message = error.unsupported "character class that matches nothing"

namespace Pattern

/-- Of the sets without members, the first one was read at the position that is on record. -/
theorem exists_first_emptySet (hrun : (Reading.start source.toList flags).run = .ok (tree, groups))
    {needed : List Nat} (hneeded : tree.HasEmptySetAt needed) :
    ∃ path members, tree.at? path = some (.set members) ∧ members.isEmpty = true ∧
      (∀ path', tree.HasEmptySetAt path' → path ≤ path') ∧
      (Reading.start source.toList flags).ReadsAt (tree.sitesBefore path) (.set members)
        (groups.firstEmptySet.getD 0) := by
  rcases Reading.firstEmptySet_of_run hrun with
    ⟨-, hnone⟩ | ⟨position, before, members, after, hposition, hsites, hmembers,
    hbefore, hreads⟩
  · -- There is one, so its position is on record.
    obtain ⟨others, hat, hothers⟩ := hneeded
    obtain ⟨after, hsites⟩ := Regex.exists_sites_eq hat
    have hfull : (Site.set others).isEmptySet = false := hnone _ (by simp [hsites, Regex.sites])
    cases hothers.symm.trans hfull
  · obtain ⟨path, node, hat, hleaf, hnode, rfl⟩ := Regex.exists_path_of_sites_eq hsites
    obtain rfl := Regex.eq_set_of_sites hleaf hnode
    refine ⟨path, members, hat, hmembers, fun path' hempty ↦ le_of_not_gt fun hlt ↦ ?_, ?_⟩
    · -- No set before the first one is without members.
      obtain ⟨others, hat', hothers⟩ := hempty
      obtain ⟨rest, hrest⟩ := Regex.sitesBefore_append_isPrefix hat' rfl hat hlt
      have hfull : (Site.set others).isEmptySet = false :=
        hbefore _ (by rw [← hrest]; simp [Regex.sites])
      cases hothers.symm.trans hfull
    · rw [hposition]
      exact hreads

/-- A pattern that is refused because it is impossible is refused at its first set without
members. -/
theorem isAtEmptySet_of_compile (h : compile source flags = .error error)
    (hfault : error.located.fault = .impossible) :
    ∃ tree path, error.IsAtEmptySet source flags tree path := by
  obtain ⟨tree, groups, hrun, hprune, hposition⟩ := prune_of_compile h hfault
  have hfits := (Reading.Sound.start source.toList flags).run hrun
  have hwell := groups.stable_fits.wellFormed hfits
  obtain ⟨needed, hneeded, hmandatory⟩ := (Regex.prune_eq_none_iff hwell).1 hprune
  obtain ⟨path, members, hat, hmembers, hfirst, hreads⟩ := exists_first_emptySet hrun hneeded
  rw [← hposition] at hreads
  have hempty : tree.HasEmptySetAt path := ⟨members, hat, hmembers⟩
  refine ⟨tree, path, (compile_eq_error h).1, ⟨groups, hrun⟩,
    ⟨members, hat, hmembers, hreads⟩, hreads.bracket (.atStart _ _) hmembers, hfirst,
    ⟨needed, hneeded, hmandatory⟩,
    ⟨fun hpath path' hempty' hnot ↦ ?_, fun hall ↦ ?_⟩, ?_⟩
  · refine ⟨path, hempty, hpath, lt_of_le_of_ne (hfirst path' hempty') ?_⟩
    rintro rfl
    exact hnot hpath
  · by_contra hpath
    obtain ⟨path', hempty', -, hlt⟩ := hall path hempty hpath
    exact absurd hlt (not_lt.2 (hfirst path' hempty'))
  · rw [CompileError.message_eq_unsupported (by rw [hfault]; rfl), hfault]
    rfl

/-- The pattern is impossible because both options of a choice are, and it has another set without
members behind them that it can do without. -/
def impossibleOptions : CompileError :=
  ⟨"(x[a&&b]|[c&&d]e)+(?:[a&&b]|x)", ⟨.impossible, 2⟩⟩

/-- The pattern is refused at the set in the first option. -/
theorem isAtEmptySet_impossibleOptions :
    compile impossibleOptions.pattern .none = .error impossibleOptions ∧
      ∃ tree path, impossibleOptions.IsAtEmptySet impossibleOptions.pattern .none tree path := by
  have hcompile : compile impossibleOptions.pattern .none = .error impossibleOptions := by
    decide +kernel
  exact ⟨hcompile, isAtEmptySet_of_compile hcompile rfl⟩

/-- A pattern with a set without members that may be absent, and another one behind it. -/
def optionalFirst : String :=
  "[a&&b]?[c&&d]"

/-- The pattern is refused at the set that may be absent: no mandatory set was read there. -/
theorem not_isMandatory_optionalFirst :
    compile optionalFirst .none = .error ⟨optionalFirst, ⟨.impossible, 0⟩⟩ ∧
      ¬ ∃ tree groups path members,
      (Reading.start optionalFirst.toList .none).run = .ok (tree, groups) ∧
        tree.at? path = some (.set members) ∧
        (Reading.start optionalFirst.toList .none).ReadsAt (tree.sitesBefore path)
          (.set members) 0 ∧
        tree.IsMandatory path := by
  refine ⟨by decide +kernel, ?_⟩
  rintro ⟨tree, groups, path, members, hrun, hat, hreads, hmandatory⟩
  have hresult : (Reading.start optionalFirst.toList .none).run.map (fun outcome ↦
      (outcome.1, outcome.2.firstEmptySet)) =
        .ok (.sequence [.repetition (.set ∅) 0 1 .greedy, .set ∅], some 0) := by decide +kernel
  rw [hrun] at hresult
  obtain ⟨rfl, hposition⟩ := Prod.mk.inj (Except.ok.inj hresult)
  -- The set at the position of the error is the first one, which is in the repetition.
  have hempty : (Regex.sequence [.repetition (.set ∅) 0 1 .greedy, .set ∅]).HasEmptySetAt
      [0, 0] := ⟨∅, rfl, rfl⟩
  obtain ⟨first, others, hat', -, hfirst, hreads'⟩ := exists_first_emptySet hrun hempty
  rw [hposition] at hreads'
  obtain rfl : path = first :=
    Regex.path_eq_of_sitesBefore_eq hat rfl (by simp [Regex.sites]) hat' rfl
    (by simp [Regex.sites]) (hreads.before_eq hreads' (.atStart _ _))
  have hle := hfirst _ hempty
  cases path with
  | nil => cases hat
  | cons index rest =>
    obtain ⟨rfl, -⟩ := (Regex.cons_path_le_cons.1 hle).resolve_left (Nat.not_lt_zero index)
    cases rest with
    | nil => cases hat
    | cons index rest => exact hmandatory [0] _ ⟨index :: rest, rfl⟩ (by simp) rfl rfl

end Pattern

end Exemplar
