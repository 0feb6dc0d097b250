import Exemplar.CharSet.Property
import Exemplar.Grammar.Reading
import Exemplar.Proofs.CharSet.Algebra
import Exemplar.Proofs.Grammar.Yields

/-!
# Sets with a name have members

The sets behind escapes, behind the dot and behind property names are proper: they have members,
and they leave characters out (`isProper_of_named?`). So do their complements, and an escape never
stands for a set without members (`Reader.yields_readEscape_members`).
-/

namespace Exemplar

namespace CharSet

/-- The set has members, and there are characters that it leaves out. -/
structure IsProper (set : CharSet) : Prop where
  isEmpty : set.isEmpty = false
  isEmpty_negate : set.negate.isEmpty = false

instance (set : CharSet) : Decidable set.IsProper :=
  decidable_of_iff (set.isEmpty = false ∧ set.negate.isEmpty = false)
    ⟨fun h ↦ ⟨h.1, h.2⟩, fun h ↦ ⟨h.isEmpty, h.isEmpty_negate⟩⟩

variable {c other : Char} {run : Unicode.Run} {runs : List Unicode.Run}

/-- A set with a member and without another character is proper. -/
theorem IsProper.of_mem {set : CharSet} (h : c ∈ set) (hother : other ∉ set)
    (hhold : canHold other = true) : set.IsProper where
  isEmpty := isEmpty_eq_false_iff.2 ⟨c, h⟩
  isEmpty_negate := isEmpty_eq_false_iff.2 ⟨other, mem_negate.2 ⟨hhold, hother⟩⟩

/-- The characters of a run without gaps are in its table. -/
theorem mem_ofRuns_cons (hstep : run.step = 1) (hfirst : run.first ≤ c.toNat)
    (hlast : c.toNat ≤ run.last) (hhold : canHold c = true) : c ∈ ofRuns (run :: runs) := by
  rw [ofRuns, List.map_cons, if_pos hstep]
  refine mem_union.2 (.inl ?_)
  show (between run.first (run.last + 1)).containsCode c.toNat = true
  rw [containsCode_between, containsCode_any]
  simp [hfirst, Nat.lt_succ_iff.2 hlast, hhold]

/-- No character of a table stands before all of its runs. -/
theorem exists_first_le_of_mem_ofRuns (h : c ∈ ofRuns runs) :
    ∃ run ∈ runs, run.first ≤ c.toNat := by
  induction runs with
  | nil => cases h
  | cons run runs ih =>
    rw [ofRuns, List.map_cons] at h
    rcases mem_union.1 h with hrun | hrest
    · refine ⟨run, List.mem_cons_self, ?_⟩
      split at hrun
      · have hcode : (between run.first (run.last + 1)).containsCode c.toNat = true := hrun
        rw [containsCode_between] at hcode
        simp only [Bool.and_eq_true, decide_eq_true_eq] at hcode
        exact hcode.1.1
      · obtain ⟨index, -, hcode⟩ := List.mem_range'.1 (mem_ofCodes.1 hrun).1
        omega
    · obtain ⟨other, hother, hfirst⟩ := ih hrest
      exact ⟨other, List.mem_cons_of_mem _ hother, hfirst⟩

/-- A table of letters is proper, because its runs begin behind the digits. -/
theorem isProper_ofRuns (h : c ∈ ofRuns runs) (hdigit : ∀ run ∈ runs, '0'.toNat < run.first) :
    (ofRuns runs).IsProper := by
  refine .of_mem h (fun hmem ↦ ?_) (show canHold '0' = true by decide)
  obtain ⟨run, hrun, hle⟩ := exists_first_le_of_mem_ofRuns hmem
  exact absurd (hdigit run hrun) (Nat.not_lt.2 hle)

/-- The lower-case characters are a proper set. -/
theorem isProper_lowercase : lowercase.IsProper :=
  isProper_ofRuns (mem_ofRuns_cons (c := 'a') rfl (by decide) (by decide) (by decide))
    (by decide +kernel)

/-- The upper-case characters are a proper set. -/
theorem isProper_uppercase : uppercase.IsProper :=
  isProper_ofRuns (mem_ofRuns_cons (c := 'A') rfl (by decide) (by decide) (by decide))
    (by decide +kernel)

/-- The alphabetic characters are a proper set. -/
theorem isProper_alphabetic : alphabetic.IsProper :=
  isProper_ofRuns (mem_ofRuns_cons (c := 'A') rfl (by decide) (by decide) (by decide))
    (by decide +kernel)

/-- A set with a property name is proper. -/
theorem isProper_of_named? {name : String} {members : CharSet} (h : named? name = some members) :
    members.IsProper := by
  unfold named? at h
  split at h
  all_goals cases h
  all_goals
    first
      | exact isProper_lowercase
      | exact isProper_uppercase
      | exact isProper_alphabetic
      | decide +kernel

end CharSet

/-- The characters that the dot stands for are some. -/
theorem Flags.isEmpty_dot (flags : Flags) : flags.dot.isEmpty = false := by
  unfold Flags.dot
  split
  · decide +kernel
  · split
    · decide +kernel
    · decide +kernel

namespace Reader

/-- The sets behind escapes have members. -/
theorem isEmpty_of_lookup_sets {mark : Char} {members : CharSet}
    (h : Escape.sets.lookup mark = some members) :
    members.isEmpty = false := by
  obtain ⟨before, after, hsets, -⟩ := List.lookup_eq_some_iff.1 h
  have hall : ∀ entry ∈ Escape.sets, entry.2.isEmpty = false := by decide +kernel
  exact hall (mark, members) (by simp [hsets])

/-- A property that is read is a proper set. -/
theorem yields_property (start : Nat) : (property start).Yields (·.IsProper) := by
  refine .after fun name ↦ ?_
  split
  · rename_i members hnamed
    exact .pure (CharSet.isProper_of_named? hnamed)
  · exact .fail ..

/-- An escape that is read stands for no set without members. -/
theorem yields_readEscape_members (mark : Char) (start : Nat) :
    (readEscape start mark).Yields fun escape ↦ ∀ members, escape = .set members →
    members.isEmpty = false := by
  unfold readEscape
  split
  · exact .pure (by simp)
  · split
    · rename_i members hset
      refine .pure fun other heq ↦ ?_
      cases heq
      exact isEmpty_of_lookup_sets hset
    · split
      · exact .after fun _ ↦ .pure (by simp)
      · exact .after fun _ ↦ .pure (by simp)
      · exact .after fun _ ↦ .pure (by simp)
      · exact .after fun _ ↦ .pure (by simp)
      · refine (yields_property start).bind fun members hproper ↦ .pure fun other heq ↦ ?_
        cases heq
        exact hproper.isEmpty
      · refine (yields_property start).bind fun members hproper ↦ .pure fun other heq ↦ ?_
        cases heq
        exact hproper.isEmpty_negate
      · exact .after fun _ ↦ .pure (by simp)
      · exact .fail ..
      · exact .fail ..
      · exact .fail ..
      · split
        · exact .fail ..
        · exact .pure (by simp)

end Reader

end Exemplar
