import Exemplar.Generation.Checked
import Exemplar.Proofs.Checked.Sizing
import Exemplar.Proofs.Generation.Budget

/-!
# Checked generation

A step of a generation with checked arithmetic ends with a fault where an operation on sizes has no
result. Only two operations can do so: the number behind the largest number of copies of a
repetition, and the least length of all copies together. Where both are sizes for every repetition
of a tree, the tree is written without a fault, as it is with wrapped arithmetic
(`emit?_agreesAt`).
-/

namespace Exemplar

variable {σ α β : Type}

/-- There is no budget, or one that does not exceed the largest one. -/
abbrev UpTo (largest budget : Option Nat) : Prop :=
  Option.Rel (· ≤ ·) budget largest

namespace UpTo

variable {largest budget : Option Nat}

/-- What is left of a budget does not exceed the largest one. -/
theorem sub (h : UpTo largest budget) (written : Nat) :
    UpTo largest (budget.map (· - written)) := by
  cases h with
  | some hle => exact .some (Nat.le_trans (Nat.sub_le ..) hle)
  | none => exact .none

/-- A budget that is computed from a budget, if there is one, is found and does not exceed the
largest one when this is so for each number up to the largest budget. -/
theorem mapM_eq_some {compute? : Nat → Option Nat} {compute : Nat → Nat}
    (h : UpTo largest budget) (hcompute : ∀ limit ∈ largest, ∀ number ≤ limit,
      compute? number = some (compute number) ∧ compute number ≤ limit) :
    budget.mapM compute? = some (budget.map compute) ∧ UpTo largest (budget.map compute) := by
  cases h with
  | @some number limit hle =>
    obtain ⟨hfound, hbound⟩ := hcompute limit rfl number hle
    refine ⟨?_, .some hbound⟩
    show (some <$> compute? number : Option (Option Nat)) = _
    rw [hfound]
    rfl
  | none => exact ⟨rfl, .none⟩

end UpTo

namespace CheckedGenerator

/-- From the draft, the checked step does what the step does, without a fault. -/
def AgreesAt (draft : Draft σ) (step? : CheckedGenerator σ α) (step : Generator σ α) : Prop :=
  step?.run draft = step.checked.run draft

namespace AgreesAt

variable {draft : Draft σ} {step? : CheckedGenerator σ α} {step : Generator σ α}

/-- A step without operations on sizes agrees with itself. -/
theorem checked (step : Generator σ α) (draft : Draft σ) : AgreesAt draft step.checked step :=
  rfl

/-- Two steps in a row agree when the second one agrees behind the first one. -/
theorem bind {next? : α → CheckedGenerator σ β} {next : α → Generator σ β}
    (h : AgreesAt draft step? step)
    (hnext : ∀ value after, step.run draft = .ok value after →
      AgreesAt after (next? value) (next value)) :
    AgreesAt draft (step? >>= next?) (step >>= next) := by
  show (step? >>= next?) draft = EStateM.adaptExcept .failed (step >>= next) draft
  have hstep : step? draft = EStateM.adaptExcept .failed step draft := h
  simp only [Bind.bind, EStateM.bind, EStateM.adaptExcept] at hstep ⊢
  rw [hstep]
  cases hrun : step draft with
  | ok value after => exact hnext value after hrun
  | error error after => rfl

/-- A step behind an operation on sizes agrees when the operation finds what the step is given. -/
theorem ofOption_bind {option : Option α} {value : α} (hvalue : option = some value)
    {next? : α → CheckedGenerator σ β} {step : Generator σ β}
    (h : AgreesAt draft (next? value) step) :
    AgreesAt draft (ofOption option >>= next?) step := by
  subst hvalue
  exact h

variable {step? : CheckedGenerator σ Unit} {step : Generator σ Unit} {emission : Emission}

/-- The characters that a step writes are counted. -/
theorem measure (hwrites : step.Writes emission) (h : AgreesAt draft step? step) :
    AgreesAt draft (measure step?) (Generator.measure step) := by
  refine (checked Generator.length draft).bind fun before middle hlength ↦ ?_
  cases hlength
  refine h.bind fun value after hrun ↦ ?_
  obtain ⟨text, hlength, -⟩ := hwrites.length_le hrun
  refine (checked Generator.length after).bind fun length last hlast ↦ ?_
  cases hlast
  show AgreesAt after (ofOption (Size.sub? after.length draft.length)) _
  rw [Size.sub?_eq (by omega)]
  rfl

/-- The text that a step writes is kept. -/
theorem capturing (ids : List GroupId) (h : AgreesAt draft step? step) :
    AgreesAt draft (capturing ids step?) (Generator.capturing ids step) := by
  refine (checked Generator.length draft).bind fun before middle hlength ↦ ?_
  cases hlength
  exact h.bind fun value after hrun ↦ rfl

/-- The number of copies is drawn when the number behind the largest one is a size. -/
theorem drawCount [RandomSource σ] {least limit : Nat} (hlimit : limit + 1 < Size.modulus)
    (draft : Draft σ) :
    AgreesAt draft (drawCount least limit)
      (if limit > least then Generator.drawBetween least (Size.addWrapped limit 1)
        else pure least) := by
  rw [CheckedGenerator.drawCount, Size.add?_eq hlimit, Size.addWrapped_eq hlimit]
  split
  · rfl
  · rfl

/-- Copies are written when the least length of all of them is a size and each one can be
written. -/
theorem copies {emit? : Option Nat → CheckedGenerator σ Unit}
    {emit : Option Nat → Generator σ Unit} {largest : Option Nat} {least count : Nat}
    (hwrites : ∀ budget, (emit budget).Writes emission)
    (h : ∀ budget, UpTo largest budget → ∀ draft, AgreesAt draft (emit? budget) (emit budget))
    (hleast : ∀ limit ∈ largest, limit < Size.modulus ∧ least ≤ limit ∧
      count * least < Size.modulus)
    {budget : Option Nat} (hbudget : UpTo largest budget) (draft : Draft σ) :
    AgreesAt draft (copies emit? least count budget)
      (Generator.copies emit least count budget) := by
  induction count generalizing budget draft with
  | zero => rfl
  | succ count ih =>
    have hrest : ∀ limit ∈ largest, limit < Size.modulus ∧ least ≤ limit ∧
        count * least < Size.modulus := by
      intro limit hlimit
      obtain ⟨hsize, hle, hcopies⟩ := hleast limit hlimit
      rw [Nat.succ_mul] at hcopies
      exact ⟨hsize, hle, by omega⟩
    obtain ⟨heach, hle⟩ := hbudget.mapM_eq_some fun limit hlimit number hnumber ↦ by
      obtain ⟨hsize, hmin, hcopies⟩ := hleast limit hlimit
      obtain ⟨hcopy, hbound⟩ := Extent.copyBudget?_eq (Nat.succ_pos count)
        (Nat.lt_of_le_of_lt hnumber hsize) (Nat.lt_of_le_of_lt hmin hsize) hcopies
      exact ⟨hcopy, Nat.le_trans hbound (Nat.max_le.2 ⟨hnumber, hmin⟩)⟩
    refine ofOption_bind heach ?_
    exact (measure (hwrites _) (h _ hle draft)).bind fun written after hrun ↦
      ih hrest (hbudget.sub written) after

end AgreesAt

end CheckedGenerator

namespace Extent

variable {body : Extent} {least : Nat} {most : Bound}

/-- A larger budget allows more copies. -/
theorem mostCopies_mono {budget larger : Option Nat} (h : UpTo larger budget) :
    body.mostCopies least most budget ≤ body.mostCopies least most larger := by
  cases most with
  | finite limit isSize => exact Nat.le_refl limit
  | unbounded =>
    cases h with
    | some hle => exact max_le_max_right least (Nat.div_le_div_right hle)
    | none => exact Nat.le_refl least

/-- The fewest copies that a bound allows are no more than the most copies. -/
theorem le_mostCopies (hmost : most.Allows least) (budget : Option Nat) :
    least ≤ body.mostCopies least most budget := by
  cases most with
  | finite limit isSize => exact hmost
  | unbounded =>
    cases budget with
    | some budget => exact Nat.le_max_right ..
    | none => exact Nat.le_refl least

variable {parts : List Extent} {target limit : Nat}

/-- The budget of the first part is found when some length lies in the extent of each part. -/
theorem firstBudget?_eq (hvalid : ∀ part ∈ parts, part.Valid)
    (htarget : target < Size.modulus) :
    firstBudget? parts target = some (firstBudget parts target) := by
  rw [firstBudget?, splitTarget?_eq hvalid htarget]
  rfl

/-- The budget of the first part exceeds no limit that neither the target nor a least length
exceeds. -/
theorem firstBudget_le (hmin : ∀ part ∈ parts, part.min ≤ limit) (htarget : target ≤ limit)
    (hlimit : limit < Size.modulus) : firstBudget parts target ≤ limit := by
  rw [firstBudget]
  cases hsplit : splitTarget parts target with
  | nil => exact Nat.zero_le limit
  | cons budget budgets =>
    have hmem : budget ∈ splitTarget parts target := hsplit ▸ List.mem_cons_self ..
    rcases le_or_eq_of_mem_splitTarget (Nat.lt_of_le_of_lt htarget hlimit) hmem with
      hle | ⟨part, hpart, heq⟩
    · exact Nat.le_trans hle htarget
    · exact heq ▸ hmin part hpart

end Extent

namespace Regex

open CheckedGenerator

/-! ## Trees without faults -/

/-- For budgets up to the given one, a repetition has a number behind its largest number of copies,
and with a budget the least length of all copies together is a size. -/
def CopiesFit (budget : Option Nat) : Regex → Prop
  | repetition body least most _ =>
      body.extent.mostCopies least most budget + 1 < Size.modulus ∧
        (budget.isSome → body.extent.mostCopies least most budget * body.minLength < Size.modulus)
  | _ => True

instance (budget : Option Nat) : DecidablePred (CopiesFit budget)
  | repetition body least most _ => inferInstanceAs (Decidable
      (body.extent.mostCopies least most budget + 1 < Size.modulus ∧
        (budget.isSome → body.extent.mostCopies least most budget * body.minLength <
          Size.modulus)))
  | empty | literal .. | set _ | sequence _ | choice _ | group .. | backref .. => isTrue trivial

/-- What a tree has to be like for writing it with budgets up to the given one: some length lies in
its extent, the least length does not exceed the budget, which is a size, and the copies of its
repetitions fit. -/
structure IsCovered (budget : Option Nat) (tree : Regex) : Prop where
  valid : tree.extent.Valid
  least : ∀ limit ∈ budget, tree.minLength ≤ limit ∧ limit < Size.modulus
  copies : tree.CopiesFit budget

variable [RandomSource σ] {tree : Regex} {parts options : List Regex} {largest budget : Option Nat}

/-- Options are written without a fault when each option is. -/
theorem emitOption?_agreesAt
    (h : ∀ option ∈ options, ∀ draft : Draft σ,
      AgreesAt draft (option.emit? budget) (option.emit budget))
    (index : Nat) (draft : Draft σ) :
    AgreesAt draft (emitOption? options index budget) (emitOption options index budget) := by
  induction options generalizing index with
  | nil => rfl
  | cons option options ih =>
    rw [List.forall_mem_cons] at h
    cases index with
    | zero => exact h.1 draft
    | succ index => exact ih h.2 index

variable [RandomSource.Lawful σ]

/-- Parts in a row are written without a fault when each part is. -/
theorem emitParts?_agreesAt (hwell : ∀ part ∈ parts, part.WellFormed)
    (hcovered : ∀ part ∈ parts, part.IsCovered largest)
    (h : ∀ part ∈ parts, ∀ budget, UpTo largest budget → ∀ draft : Draft σ,
      AgreesAt draft (part.emit? budget) (part.emit budget))
    (hbudget : UpTo largest budget) (draft : Draft σ) :
    AgreesAt draft (emitParts? parts budget) (emitParts parts budget) := by
  induction parts generalizing budget draft with
  | nil => rfl
  | cons part parts ih =>
    have hvalid : ∀ extent ∈ extents (part :: parts), extent.Valid := by
      rw [extents_eq_map, List.forall_mem_map]
      exact fun other hother ↦ (hcovered other hother).valid
    obtain ⟨hshare, hle⟩ := hbudget.mapM_eq_some fun limit hlimit number hnumber ↦ by
      have hmin : ∀ extent ∈ extents (part :: parts), extent.min ≤ limit := by
        rw [extents_eq_map, List.forall_mem_map]
        exact fun other hother ↦ ((hcovered other hother).least limit hlimit).1
      have hsize := ((hcovered part (List.mem_cons_self ..)).least limit hlimit).2
      exact ⟨Extent.firstBudget?_eq hvalid (Nat.lt_of_le_of_lt hnumber hsize),
        Extent.firstBudget_le hmin hnumber hsize⟩
    rw [List.forall_mem_cons] at hwell hcovered h
    refine AgreesAt.ofOption_bind hshare ?_
    exact (AgreesAt.measure (emit_writes hwell.1 _) (h.1 _ hle draft)).bind
      fun written after hrun ↦ ih hwell.2 hcovered.2 h.2 (hbudget.sub written) after

/-- A repetition is written without a fault when its body is. -/
theorem emit?_repetition_agreesAt {body : Regex} {least : Nat} {most : Bound}
    {mode : RepetitionMode} (hwell : (repetition body least most mode).WellFormed)
    (hbody : body.IsCovered largest) (hcopies : (repetition body least most mode).CopiesFit largest)
    (h : ∀ budget, UpTo largest budget → ∀ draft : Draft σ,
      AgreesAt draft (body.emit? budget) (body.emit budget)) (hbudget : UpTo largest budget)
    (draft : Draft σ) :
    AgreesAt draft ((repetition body least most mode).emit? budget)
      ((repetition body least most mode).emit budget) := by
  rw [wellFormed_repetition] at hwell
  obtain ⟨hlimit, hcopies⟩ := hcopies
  have hmono : body.extent.mostCopies least most budget ≤
      body.extent.mostCopies least most largest :=
    Extent.mostCopies_mono hbudget
  have hleast : least ≤ body.extent.mostCopies least most budget :=
    Extent.le_mostCopies hwell.1.1 budget
  rw [emit_repetition]
  refine AgreesAt.ofOption_bind (Extent.mostCopies?_eq ..) ?_
  refine (AgreesAt.drawCount (by omega) draft).bind fun count after hcount ↦ ?_
  -- No more copies are drawn than the largest number of copies.
  have hcount : count ≤ body.extent.mostCopies least most largest := by
    have hdrawn := (Generator.drawCount_run hcount).1.2
    omega
  refine AgreesAt.copies (fun budget ↦ emit_writes hwell.2 budget) h
    (fun limit hlargest ↦ ?_) hbudget after
  obtain ⟨hmin, hsize⟩ := hbody.least limit hlargest
  have hfit := hcopies (Option.isSome_of_mem hlargest)
  exact ⟨hsize, hmin, Nat.lt_of_le_of_lt (Nat.mul_le_mul_right _ hcount) hfit⟩

/-- A well-formed tree is written without a fault for budgets by which it is covered. -/
theorem emit?_agreesAt (hwell : tree.WellFormed)
    (hcovered : ∀ node ∈ tree.visible, node.IsCovered largest) (hbudget : UpTo largest budget)
    (draft : Draft σ) :
    AgreesAt draft (tree.emit? budget) (tree.emit budget) := by
  induction tree generalizing budget draft with
  | empty => rfl
  | literal text ignoreCase => rfl
  | set members => rfl
  | sequence parts ih =>
    rw [wellFormed_sequence] at hwell
    rw [forall_visible_sequence] at hcovered
    exact emitParts?_agreesAt hwell
      (fun part hpart ↦ hcovered.2 part hpart part (mem_visible_self part))
      (fun part hpart budget hbudget draft ↦
        ih part hpart (hwell part hpart) (hcovered.2 part hpart) hbudget draft) hbudget draft
  | choice options ih =>
    rw [wellFormed_choice] at hwell
    rw [forall_visible_choice] at hcovered
    refine (AgreesAt.checked (Generator.drawBetween 0 options.length) draft).bind
      fun index after hrun ↦ ?_
    exact emitOption?_agreesAt (fun option hoption draft ↦
      ih option hoption (hwell.2 option hoption)
      (hcovered.2 option hoption) hbudget draft) index after
  | repetition body least most mode ih =>
    rw [forall_visible_repetition] at hcovered
    exact emit?_repetition_agreesAt hwell
      (hcovered.2 body (mem_visible_self body)) hcovered.1.copies
      (fun budget hbudget draft ↦ ih (wellFormed_repetition.1 hwell).2 hcovered.2 hbudget draft)
        hbudget draft
  | group kind body ih =>
    rw [wellFormed_group] at hwell
    rw [forall_visible_group] at hcovered
    cases kind with
    | capturing number name => exact (ih hwell (hcovered.2 rfl) hbudget draft).capturing _
    | plain => exact ih hwell (hcovered.2 rfl) hbudget draft
    | atomic => exact ih hwell (hcovered.2 rfl) hbudget draft
    | lookahead negated => rfl
    | lookbehind negated => rfl
  | backref id extent => rfl

/-- A string is generated without a fault when the tree that is written is covered by a budget that
the target does not exceed. -/
theorem generate?_eq {target : Option Nat} (hvalid : ∀ node ∈ tree.visible, node.extent.Valid)
    (hwell : (tree.towards target).WellFormed)
    (hcovered : ∀ node ∈ (tree.towards target).visible, node.IsCovered largest)
    (htarget : UpTo largest target) (source : σ) :
    tree.generate? source target = some (tree.generate source target) := by
  have hemit : ((tree.towards target).emit? target).run { source } = _ :=
    emit?_agreesAt hwell hcovered htarget { source }
  have hsized : tree.towards? target = some (tree.towards target) := by
    cases htarget with
    | some hle =>
      have hlimit := ((hcovered _ (mem_visible_self _)).least _ rfl).2
      exact sized?_eq hvalid (Nat.lt_of_le_of_lt hle hlimit)
    | none => rfl
  simp only [generate_eq, generate?, hsized, Option.bind_eq_bind, Option.bind_some, hemit]
  simp only [Generator.checked, EStateM.run, EStateM.adaptExcept]
  cases (tree.towards target).emit target { source } with
  | ok value draft => rfl
  | error error draft => rfl

end Regex

end Exemplar
