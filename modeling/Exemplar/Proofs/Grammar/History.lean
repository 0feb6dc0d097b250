import Exemplar.Grammar.Reading
import Exemplar.Proofs.Grammar.Groups
import Exemplar.Proofs.Grammar.Reads
import Exemplar.Proofs.Regex.Bare

/-!
# What is on record behind the marks of a text

When a written pattern is read, the marks of groups and references are passed one after the other,
and `groups.Follows known past` says what is on record behind those that were passed: as many
groups as began in them, and the names and extents of those that ended, as far as these are known
in advance. A reference that stands behind the end of its group is allowed (`Follows.refer`), and
its number is read up to its last digit unless the next character continues it
(`extendNumber_digits`).
-/

namespace Exemplar

/-- Numbers in order from a first one. -/
def Reading.IsNumbered (first : Nat) (numbers : List Nat) : Prop :=
  numbers = List.range' first numbers.length

namespace Reading.IsNumbered

variable {first number : Nat} {numbers others : List Nat}

/-- When two lists together are in order, the first one is. -/
theorem of_append (h : IsNumbered first (numbers ++ others)) : IsNumbered first numbers := by
  unfold IsNumbered at h
  rw [List.length_append, ← List.range'_append_1] at h
  exact (List.append_inj h (by simp)).1

/-- A number behind others is the next one. -/
theorem eq_of_append (h : IsNumbered first (numbers ++ [number])) :
    number = first + numbers.length := by
  unfold IsNumbered at h
  rw [List.length_append, ← List.range'_append_1] at h
  simpa using (List.append_inj h (by simp)).2

/-- The numbers lie between the first one and their count. -/
theorem bounds_of_mem (h : IsNumbered 1 numbers) (hmem : number ∈ numbers) :
    0 < number ∧ number ≤ numbers.length := by
  rw [h, List.mem_range'_1] at hmem
  omega

end Reading.IsNumbered

/-! ## The record -/

namespace Groups

/-- A group that ended is on record. It was opened, it is known under its name, every reference to
it leads to its number, and it is no wider than it is known to be. -/
structure Answers (groups known : Groups) (number : Nat) (name : Option String) : Prop where
  names : known.Names number name
  pos : 0 < number
  opened : number ≤ groups.count
  number?_eq {id : GroupId} : id ∈ groupIds number name → groups.number? id = some number
  closed : ∃ extent outer, groups.closed.lookup number = some extent ∧
    known.closed.lookup number = some outer ∧ extent.Within outer

/-- The record behind the marks of a text. As many groups were opened as begin in the text, and the
names on record are those of groups that are known. The names of groups that begin in the text are
on record, and so are the groups that end in it. -/
structure Follows (groups known : Groups) (past : List Mark) : Prop where
  count_eq : groups.count = (past.filterMap Mark.opened?).length
  names {name : String} {number : Nat} : groups.names.lookup name = some number →
    known.names.lookup name = some number ∧ number ≤ groups.count
  opens {number : Nat} {name : String} : .opens number (some name) ∈ past →
    groups.names.lookup name = some number
  closes {number : Nat} {name : Option String} : .closes number name ∈ past →
    groups.Answers known number name

namespace Follows

variable {groups later known : Groups} {past : List Mark}

/-- Nothing is on record at the start. -/
theorem start (known : Groups) : Follows {} known [] where
  count_eq := rfl
  names h := by cases h
  opens h := by cases h
  closes h := by cases h

/-- What is not about groups does not matter. -/
theorem of_eq (h : groups.Follows known past)
    (heq : later.count = groups.count ∧ later.names = groups.names ∧
      later.closed = groups.closed) :
    later.Follows known past := by
  obtain ⟨hcount, hnames, hclosed⟩ := heq
  have hnumber (id : GroupId) : later.number? id = groups.number? id := by
    cases id with
    | index number => rfl
    | name name => rw [number?, number?, hnames]
  refine ⟨hcount.trans h.count_eq, ?_, ?_, fun hmem ↦ ?_⟩
  · rw [hnames, hcount]
    exact h.names
  · rw [hnames]
    exact h.opens
  · obtain ⟨hknown, hpos, hopened, hids, hextent⟩ := h.closes hmem
    exact ⟨hknown, hpos, hcount ▸ hopened, fun hid ↦ (hnumber _).trans (hids hid),
      hclosed ▸ hextent⟩

/-- A reference puts nothing on record. -/
theorem append_refers (h : groups.Follows known past) (id : GroupId) :
    groups.Follows known (past ++ [.refers id]) where
  count_eq := by
    rw [List.filterMap_append, List.length_append]
    exact h.count_eq
  names := h.names
  opens hmem := h.opens (by simpa using hmem)
  closes hmem := h.closes (by simpa using hmem)

/-- The next group may be opened under the name under which it is known. -/
theorem openCapture (h : groups.Follows known past) {name : Option String}
    (hname : known.Names (groups.count + 1) name) (start : Nat) :
    ∃ later, groups.openCapture name start = .ok (.capturing (groups.count + 1) name, later) ∧
      later.Follows known (past ++ [.opens (groups.count + 1) name]) := by
  have hcount : groups.count + 1 =
      ((past ++ [Mark.opens (groups.count + 1) name]).filterMap Mark.opened?).length := by
    simp [Mark.opened?, h.count_eq]
  cases name with
  | none =>
    refine ⟨_, rfl, hcount, fun hlookup ↦ ?_, fun hmem ↦ h.opens (by simpa using hmem),
      fun hmem ↦ ?_⟩
    · obtain ⟨hknown, hle⟩ := h.names hlookup
      exact ⟨hknown, Nat.le_succ_of_le hle⟩
    · obtain ⟨hknown, hpos, hopened, hids, hextent⟩ := h.closes (by simpa using hmem)
      refine ⟨hknown, hpos, Nat.le_succ_of_le hopened, fun {id} hid ↦ ?_, hextent⟩
      cases id <;> exact hids hid
  | some name =>
    have hnew : groups.names.lookup name = none := by
      cases hlookup : groups.names.lookup name with
      | none => rfl
      | some number =>
        -- A name on record belongs to a group before this one.
        obtain ⟨hknown, hle⟩ := h.names hlookup
        have hnumber := (hname.lookup_iff name).2 rfl
        rw [hknown, Option.some.injEq] at hnumber
        omega
    have hkeep {other : String} {number : Nat} (hlookup : groups.names.lookup other = some number) :
        ((name, groups.count + 1) :: groups.names).lookup other = some number := by
      have hne : other ≠ name := by
        rintro rfl
        rw [hnew] at hlookup
        cases hlookup
      rw [lookup_cons_of_ne hne, hlookup]
    refine ⟨_,
      by rw [Groups.openCapture]; simp only [hnew]; rfl, hcount, fun {other number} hlookup ↦ ?_,
      fun {number other} hmem ↦ ?_, fun hmem ↦ ?_⟩
    · by_cases hother : other = name
      · subst other
        rw [List.lookup_cons_self, Option.some.injEq] at hlookup
        subst number
        exact ⟨(hname.lookup_iff name).2 rfl, Nat.le_refl _⟩
      · rw [lookup_cons_of_ne hother] at hlookup
        obtain ⟨hknown, hle⟩ := h.names hlookup
        exact ⟨hknown, Nat.le_succ_of_le hle⟩
    · rcases List.mem_append.1 hmem with hmem | hmem
      · exact hkeep (h.opens hmem)
      · cases List.mem_singleton.1 hmem
        exact List.lookup_cons_self
    · obtain ⟨hknown, hpos, hopened, hids, hextent⟩ := h.closes (by simpa using hmem)
      refine ⟨hknown, hpos, Nat.le_succ_of_le hopened, fun {id} hid ↦ ?_, hextent⟩
      cases id with
      | index index => exact hids hid
      | name other => exact hkeep (hids hid)

/-- A group that began in the text may be closed when it is no wider than it is known to be. -/
theorem close (h : groups.Follows known past)
    (hnumbered : Reading.IsNumbered 1 (past.filterMap Mark.opened?)) {kind : GroupKind}
    {extent : Extent} (hopen : ∀ mark ∈ kind.opening, mark ∈ past)
    (hnames : ∀ number name, kind = .capturing number name → known.Names number name ∧
      ∃ outer, known.closed.lookup number = some outer ∧ extent.Within outer) :
    (groups.close kind extent).Follows known (past ++ kind.closing) := by
  unfold Groups.close
  split
  · rename_i number name
    obtain ⟨hname, outer, hlookup, hwithin⟩ := hnames number name rfl
    have hmark : .opens number name ∈ past := hopen _ (List.mem_singleton_self _)
    obtain ⟨hpos, hle⟩ := hnumbered.bounds_of_mem (List.mem_filterMap.2 ⟨_, hmark, rfl⟩)
    have hnew :
        Answers { groups with closed := (number, extent) :: groups.closed } known number name := by
      refine ⟨hname, hpos, h.count_eq ▸ hle, fun {id} hid ↦ ?_,
        extent, outer, List.lookup_cons_self, hlookup, hwithin⟩
      rcases List.mem_cons.1 hid with rfl | hid
      · rfl
      · obtain ⟨other, hother, rfl⟩ := List.mem_map.1 hid
        obtain rfl := Option.mem_toList.1 hother
        exact h.opens hmark
    refine ⟨?_, h.names, fun hmem ↦ h.opens (by simpa [GroupKind.closing] using hmem),
      fun {other name'} hmem ↦ ?_⟩
    · rw [List.filterMap_append, List.length_append]
      exact h.count_eq
    rcases List.mem_append.1 hmem with hmem | hmem
    · obtain ⟨hknown, hpos, hopened, hids, inner, outer', hinner, houter, hwithin'⟩ :=
  h.closes hmem
      refine ⟨hknown, hpos, hopened, fun {id} hid ↦ ?_, ?_⟩
      · cases id <;> exact hids hid
      · by_cases hother : other = number
        · subst other
          exact ⟨extent, outer, List.lookup_cons_self, hlookup, hwithin⟩
        · exact ⟨inner, outer', by rw [lookup_cons_of_ne hother, hinner], houter, hwithin'⟩
    · cases List.mem_singleton.1 hmem
      exact hnew
  · rename_i hkind
    have hclosing : kind.closing = [] := by
      cases kind with
      | capturing number name => exact absurd rfl (hkind number name)
      | plain => rfl
      | atomic => rfl
      | lookahead negated => rfl
      | lookbehind negated => rfl
    rw [hclosing, List.append_nil]
    exact h

/-- A reference to a group that ended is allowed, and it is no wider than it is known to be. -/
theorem refer (h : groups.Follows known past) {number : Nat} {name : Option String}
    (hmark : .closes number name ∈ past) {id : GroupId} (hid : id ∈ groupIds number name)
    {extent : Extent} (hfits : known.Fits (.backref id extent)) (start : Nat) :
    ∃ unit later, groups.refer id number start = .ok (unit, later) ∧
      Regex.Narrows unit (.backref id extent) ∧ later.Follows known (past ++ [.refers id]) := by
  obtain ⟨hknown, hpos, hopened, -, inner, outer, hinner, houter, hwithin⟩ := h.closes hmark
  obtain ⟨number', hnumber', hextent⟩ := hfits
  obtain rfl : number' = number := Option.some.inj (hnumber'.symm.trans (hknown.number?_eq hid))
  obtain rfl : extent = outer := Option.some.inj (hextent.symm.trans houter)
  refine ⟨.backref id inner, { groups with references := start :: groups.references }, ?_,
    ⟨rfl, hwithin⟩, (h.append_refers id).of_eq ⟨rfl, rfl, rfl⟩⟩
  rw [Groups.refer, if_neg (by omega), hinner]

end Follows

end Groups

/-! ## Numbers of references -/

/-- Whether the reference goes on with the character when so many groups were opened. -/
def GroupId.continuesWith (opened : Nat) : GroupId → Char → Bool
  | index number, c => c.isDigit && number * 10 + (c.toNat - '0'.toNat) ≤ opened
  | name _, _ => false

/-- The number that digits stand for behind a number. -/
def appendDigits (number : Nat) (digits : List Char) : Nat :=
  digits.foldl (fun value c ↦ value * 10 + (c.toNat - '0'.toNat)) number

/-- Digits in a row are appended one after the other. -/
theorem appendDigits_append (number : Nat) (digits others : List Char) :
    appendDigits number (digits ++ others) = appendDigits (appendDigits number digits) others :=
  List.foldl_append

/-- Digits behind a number do not make it smaller. -/
theorem le_appendDigits (number : Nat) (digits : List Char) :
    number ≤ appendDigits number digits := by
  induction digits generalizing number with
  | nil => exact Nat.le_refl _
  | cons c digits ih =>
    have hlater := ih (number * 10 + (c.toNat - '0'.toNat))
    exact Nat.le_trans (by omega) hlater

/-- The digits of a number other than zero begin with a digit other than zero. -/
theorem exists_toDigits_eq {number : Nat} (h : 0 < number) :
    ∃ c digits, Nat.toDigits 10 number = c :: digits ∧ ('1' ≤ c ∧ c ≤ '9') ∧
      (∀ d ∈ digits, d.isDigit = true) ∧
      appendDigits (c.toNat - '0'.toNat) digits = number := by
  have hchar : ∀ digit < 10, (Nat.digitChar digit).isDigit = true ∧
      (Nat.digitChar digit).toNat - '0'.toNat = digit ∧
      (0 < digit → '1' ≤ Nat.digitChar digit ∧ Nat.digitChar digit ≤ '9') := by decide
  induction number using Nat.strongRecOn with
  | ind number ih =>
    by_cases hlt : number < 10
    · obtain ⟨-, hvalue, hnonzero⟩ := hchar number hlt
      exact ⟨_, [], Nat.toDigits_of_lt_base hlt, hnonzero h, by simp, hvalue⟩
    · obtain ⟨c, digits, htext, hc, hdigits, hnumber⟩ := ih (number / 10) (by omega) (by omega)
      obtain ⟨hdigit, hvalue, -⟩ := hchar (number % 10) (Nat.mod_lt _ (by decide))
      refine ⟨c, digits ++ [(number % 10).digitChar], ?_, hc, ?_, ?_⟩
      · rw [Nat.toDigits_of_base_le (by decide) (Nat.le_of_not_lt hlt), htext, List.cons_append]
      · exact List.forall_mem_append.2 ⟨hdigits, List.forall_mem_singleton.2 hdigit⟩
      · rw [appendDigits_append, hnumber, appendDigits, List.foldl_cons, List.foldl_nil, hvalue,
          Nat.div_add_mod']

/-- A number is extended by all its digits, up to a character that does not continue it. -/
theorem Groups.extendNumber_digits (groups : Groups) {number : Nat} {digits rest : List Char}
    (hdigits : ∀ c ∈ digits, c.isDigit = true)
    (hle : appendDigits number digits ≤ groups.count)
    (hrest : ∀ c ∈ rest.head?, (GroupId.index (appendDigits number digits)).continuesWith
      groups.count c = false) :
    groups.extendNumber number (digits ++ rest) = (appendDigits number digits, digits.length) := by
  induction digits generalizing number with
  | nil =>
    cases rest with
    | nil => rfl
    | cons c rest =>
      have hnext := hrest c rfl
      rw [List.nil_append, extendNumber]
      simp only
      rw [if_neg]
      · rfl
      · rintro ⟨hdigit, hle⟩
        rw [GroupId.continuesWith, hdigit, Bool.true_and] at hnext
        exact of_decide_eq_false hnext hle
  | cons c digits ih =>
    obtain ⟨hc, hrest'⟩ := List.forall_mem_cons.1 hdigits
    have hstep := le_appendDigits (number * 10 + (c.toNat - '0'.toNat)) digits
    have hall := ih hrest' hle hrest
    rw [List.cons_append, extendNumber]
    simp only
    rw [if_pos ⟨hc, Nat.le_trans hstep hle⟩, hall]
    rfl

end Exemplar
