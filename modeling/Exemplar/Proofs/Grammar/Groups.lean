import Exemplar.Proofs.Grammar.Yields
import Exemplar.Proofs.Regex.Everywhere
import Exemplar.Regex.Sized

/-!
# What is known of the groups of a pattern

`groups.Fits node` says what the node of a tree owes to the groups of its pattern: a capturing group
has the number, the name and the extent that are on record, and a backreference has the extent of
its group. Reading only adds to what is known (`Groups.Grows`), so whatever fits the groups at one
point fits them later.
-/

namespace Exemplar

/-- A record of another key does not matter. -/
theorem lookup_cons_of_ne {α β : Type} [BEq α] [LawfulBEq α] {key other : α}
    (h : other ≠ key) (value : β) (entries : List (α × β)) :
    ((key, value) :: entries).lookup other = entries.lookup other := by
  rw [List.lookup_cons, beq_false_of_ne h]

namespace Groups

/-- The group of a number was opened under the given name or under none. No other name leads to the
group, and the name can be written. -/
structure Names (groups : Groups) (number : Nat) (name : Option String) : Prop where
  opened : number ≤ groups.count
  lookup_iff (other : String) : groups.names.lookup other = some number ↔ name = some other
  isGroupName {other : String} : name = some other → IsGroupName other

/-- What a node of a tree owes to the groups of its pattern, and to being read from a text. -/
def Fits (groups : Groups) : Regex → Prop
  | .literal text _ => text ≠ []
  | .choice options => options ≠ []
  | .repetition _ least most _ => Quantifier.AreCounts least most
  | .group (.capturing number name) body =>
      groups.Names number name ∧
        ∃ extent, groups.closed.lookup number = some extent ∧ body.extent.Within extent
  | .group kind body => kind.isLookaround = true → body.maxLength ≠ .unbounded
  | .backref id extent =>
      ∃ number, groups.number? id = some number ∧ groups.closed.lookup number = some extent
  | _ => True

/-- Later groups agree with what is known, and what is new concerns new groups: no group, name or
extent is forgotten, and no name is given to an old group. -/
structure Grows (groups later : Groups) : Prop where
  count_le : groups.count ≤ later.count
  lookup_names {name : String} {number : Nat} :
    groups.names.lookup name = some number → later.names.lookup name = some number
  of_lookup_names {name : String} {number : Nat} : number ≤ groups.count →
    later.names.lookup name = some number → groups.names.lookup name = some number
  lookup_closed {number : Nat} {extent : Extent} :
    groups.closed.lookup number = some extent → later.closed.lookup number = some extent

/-- The names and extents on record belong to groups that were opened. -/
structure Counted (groups : Groups) : Prop where
  names {name : String} {number : Nat} :
    groups.names.lookup name = some number → number ≤ groups.count
  closed {number : Nat} {extent : Extent} :
    groups.closed.lookup number = some extent → number ≤ groups.count

variable {groups later : Groups}

/-- A group is found under its number and under its name. -/
theorem Names.number?_eq {number : Nat} {name : Option String} (h : groups.Names number name)
    {id : GroupId} (hid : id ∈ groupIds number name) : groups.number? id = some number := by
  rcases List.mem_cons.1 hid with rfl | hid
  · rfl
  · obtain ⟨other, hother, rfl⟩ := List.mem_map.1 hid
    exact (h.lookup_iff other).2 (Option.mem_toList.1 hother)

/-- A reference leads to a group under its number and its name and under nothing else. -/
theorem Names.number?_eq_iff {number : Nat} {name : Option String} (h : groups.Names number name)
    {id : GroupId} : groups.number? id = some number ↔ id ∈ groupIds number name := by
  refine ⟨fun hid ↦ ?_, h.number?_eq⟩
  cases id with
  | index index =>
    cases hid
    exact List.mem_cons_self
  | name other =>
    have hname : name = some other := (h.lookup_iff other).1 hid
    subst hname
    exact List.mem_cons_of_mem _ (List.mem_singleton_self _)

/-- A group keeps its name. -/
theorem Names.grows {number : Nat} {name : Option String} (h : groups.Names number name)
    (hgrows : groups.Grows later) : later.Names number name where
  opened := Nat.le_trans h.opened hgrows.count_le
  lookup_iff other := by
    rw [← h.lookup_iff other]
    exact ⟨hgrows.of_lookup_names h.opened, hgrows.lookup_names⟩
  isGroupName := h.isGroupName

/-- What fits the groups at one point fits them later. -/
theorem Fits.grows {node : Regex} (h : groups.Fits node) (hgrows : groups.Grows later) :
    later.Fits node := by
  cases node with
  | group kind body =>
    cases kind with
    | capturing number name =>
      obtain ⟨hnames, extent, hclosed, hwithin⟩ := h
      exact ⟨hnames.grows hgrows, extent, hgrows.lookup_closed hclosed, hwithin⟩
    | plain => exact h
    | atomic => exact h
    | lookahead negated => exact h
    | lookbehind negated => exact h
  | backref id extent =>
    obtain ⟨number, hnumber, hclosed⟩ := h
    refine ⟨number, ?_, hgrows.lookup_closed hclosed⟩
    cases id with
    | index index => exact hnumber
    | name name => exact hgrows.lookup_names hnumber
  | empty => exact h
  | literal text ignoreCase => exact h
  | set members => exact h
  | sequence parts => exact h
  | choice options => exact h
  | repetition body least most mode => exact h

/-- What fits the groups outlives the rewriting of a tree. -/
theorem stable_fits (groups : Groups) : Regex.Stable groups.Fits where
  isBuilt {tree} h := by
    cases tree with
    | choice options => exact h
    | repetition body least most mode => exact ⟨h.allows, h.least_lt⟩
    | empty => exact trivial
    | literal text ignoreCase => exact trivial
    | set members => exact trivial
    | sequence parts => exact trivial
    | group kind body => exact trivial
    | backref id extent => exact trivial
  empty := trivial
  literal hleft _ := List.append_ne_nil_of_left_ne_nil hleft _
  sequence _ := trivial
  choice h := h
  repetition h := h
  group {kind body body'} h hwithin := by
    have hbounded (h : body.maxLength ≠ .unbounded) : body'.maxLength ≠ .unbounded := by
      intro heq
      have hle := hwithin.ceiling_le
      rw [show body'.extent.max = .unbounded from heq] at hle
      exact h hle
    cases kind with
    | capturing number name =>
      obtain ⟨hnames, extent, hclosed, hbody⟩ := h
      exact ⟨hnames, extent, hclosed, hwithin.trans hbody⟩
    | plain => exact fun hlookaround ↦ nomatch hlookaround
    | atomic => exact fun hlookaround ↦ nomatch hlookaround
    | lookahead negated => exact fun _ ↦ hbounded (h rfl)
    | lookbehind negated => exact fun _ ↦ hbounded (h rfl)

namespace Grows

/-- Groups that have the same record agree with it. -/
theorem of_eq (hcount : later.count = groups.count) (hnames : later.names = groups.names)
    (hclosed : later.closed = groups.closed) : groups.Grows later where
  count_le := Nat.le_of_eq hcount.symm
  lookup_names h := hnames ▸ h
  of_lookup_names _ h := hnames ▸ h
  lookup_closed h := hclosed ▸ h

/-- Opening a group adds to what is known. -/
theorem openCapture {name : Option String} {start : Nat} {kind : GroupKind}
    (h : groups.openCapture name start = .ok (kind, later)) : groups.Grows later := by
  unfold Groups.openCapture at h
  cases name with
  | none =>
    cases h
    exact ⟨Nat.le_succ _, fun h ↦ h, fun _ h ↦ h, fun h ↦ h⟩
  | some name =>
    simp only at h
    split at h
    · cases h
    · rename_i hnew
      cases h
      have hnew : groups.names.lookup name = none := by
        simpa only [Bool.not_eq_true, Option.isSome_eq_false_iff,
          Option.isNone_iff_eq_none] using hnew
      refine ⟨Nat.le_succ _, fun {other number} h ↦ ?_,
        fun {other number} hle h ↦ ?_, fun h ↦ h⟩
      · have hne : other ≠ name := by rintro rfl; simp [hnew] at h
        rwa [lookup_cons_of_ne hne]
      · by_cases hother : other = name
        · subst hother
          simp at h
          omega
        · rwa [lookup_cons_of_ne hother] at h

/-- Closing a group adds to what is known if the group was open. -/
theorem close {kind : GroupKind} (extent : Extent)
    (h : ∀ number name, kind = .capturing number name → groups.closed.lookup number = none) :
    groups.Grows (groups.close kind extent) := by
  unfold Groups.close
  split
  · rename_i number name
    refine ⟨Nat.le_refl _, fun h ↦ h, fun _ h ↦ h, fun {other found} hfound ↦ ?_⟩
    have hne : other ≠ number := by
      rintro rfl
      rw [h _ name rfl] at hfound
      cases hfound
    rwa [lookup_cons_of_ne hne]
  · exact .of_eq rfl rfl rfl

end Grows

namespace Counted

/-- Groups that have the same record are counted when it is. -/
theorem of_eq (h : groups.Counted) (hcount : later.count = groups.count)
    (hnames : later.names = groups.names) (hclosed : later.closed = groups.closed) :
    later.Counted where
  names hlookup := hcount ▸ h.names (hnames ▸ hlookup)
  closed hlookup := hcount ▸ h.closed (hclosed ▸ hlookup)

/-- A group that is opened is counted. -/
theorem openCapture (h : groups.Counted) {name : Option String} {start : Nat} {kind : GroupKind}
    (hopen : groups.openCapture name start = .ok (kind, later)) : later.Counted := by
  unfold Groups.openCapture at hopen
  cases name with
  | none =>
    cases hopen
    exact ⟨fun hlookup ↦ Nat.le_succ_of_le (h.names hlookup),
      fun hlookup ↦ Nat.le_succ_of_le (h.closed hlookup)⟩
  | some name =>
    simp only at hopen
    split at hopen
    · cases hopen
    · cases hopen
      refine ⟨fun {other number} hlookup ↦ ?_,
        fun hlookup ↦ Nat.le_succ_of_le (h.closed hlookup)⟩
      by_cases hother : other = name
      · subst hother
        simp at hlookup
        exact Nat.le_of_eq hlookup.symm
      · rw [lookup_cons_of_ne hother] at hlookup
        exact Nat.le_succ_of_le (h.names hlookup)

/-- Closing a group that was opened keeps the record counted. -/
theorem close (h : groups.Counted) {kind : GroupKind} (extent : Extent)
    (hopened : ∀ number name, kind = .capturing number name → number ≤ groups.count) :
    (groups.close kind extent).Counted := by
  unfold Groups.close
  split
  · rename_i number name
    refine ⟨h.names, fun {other found} hlookup ↦ ?_⟩
    by_cases hother : other = number
    · subst hother
      exact hopened _ name rfl
    · rw [lookup_cons_of_ne hother] at hlookup
      exact h.closed hlookup
  · exact h

end Counted

/-- Opening a group puts no extent on record. -/
theorem closed_openCapture {name : Option String} {start : Nat} {kind : GroupKind}
    (h : groups.openCapture name start = .ok (kind, later)) : later.closed = groups.closed := by
  unfold Groups.openCapture at h
  cases name with
  | none => cases h; rfl
  | some name =>
    simp only at h
    split at h
    · cases h
    · cases h
      rfl

/-- A group that is opened has the next number and its own name, and it is not closed. -/
theorem openCapture_names (h : groups.Counted) {name : Option String} {start : Nat}
    {kind : GroupKind} (hname : ∀ other, name = some other → IsGroupName other)
    (hopen : groups.openCapture name start = .ok (kind, later)) :
    kind = .capturing (groups.count + 1) name ∧ later.Names (groups.count + 1) name ∧
      later.closed.lookup (groups.count + 1) = none := by
  have hclosed : groups.closed.lookup (groups.count + 1) = none := by
    cases hlookup : groups.closed.lookup (groups.count + 1) with
    | none => rfl
    | some extent => exact absurd (h.closed hlookup) (by omega)
  have hnext (other : String) : groups.names.lookup other ≠ some (groups.count + 1) :=
    fun hlookup ↦ absurd (h.names hlookup) (by omega)
  unfold Groups.openCapture at hopen
  cases name with
  | none =>
    cases hopen
    refine ⟨rfl, ⟨Nat.le_refl _, fun other ↦ ?_, hname _⟩, hclosed⟩
    simp [hnext]
  | some name =>
    simp only at hopen
    split at hopen
    · cases hopen
    · cases hopen
      refine ⟨rfl, ⟨Nat.le_refl _, fun other ↦ ?_, hname _⟩, hclosed⟩
      by_cases hother : other = name
      · subst hother
        simp
      · rw [lookup_cons_of_ne hother]
        simp [hnext, Ne.symm hother]

/-- Taking note of a set does not change what is known of groups. -/
theorem noteSet_eq (groups : Groups) (members : CharSet) (start : Nat) :
    (groups.noteSet members start).count = groups.count ∧
      (groups.noteSet members start).names = groups.names ∧
      (groups.noteSet members start).closed = groups.closed := by
  unfold noteSet
  split <;> exact ⟨rfl, rfl, rfl⟩

/-- A reference that is allowed leads to a group that was closed, and its position is put on
record. -/
theorem refer_eq_ok {id : GroupId} {number start : Nat} {unit : Regex}
    (h : groups.refer id number start = .ok (unit, later)) :
    ∃ extent, groups.closed.lookup number = some extent ∧ unit = .backref id extent ∧
      later = { groups with references := start :: groups.references } := by
  unfold refer at h
  split at h
  · cases h
  · split at h
    · cases h
    · rename_i extent hlookup
      cases h
      exact ⟨extent, hlookup, rfl, rfl⟩

end Groups

end Exemplar
