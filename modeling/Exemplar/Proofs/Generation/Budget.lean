import Exemplar.Proofs.Generation.Reach
import Exemplar.Proofs.Length.Limits
import Exemplar.Proofs.Length.Room

/-!
# Budgets that make no difference

A budget decides how often an unbounded repetition is run, and with it what is drawn. Budgets that
do not exceed the least length of a tree lead to the same run: every part gets its least length
from them, and every repetition that is unbounded runs its fewest copies
(`emit_runsAs_of_le_minLength`). In a tree whose strings have one length other than zero, no
repetition with a text is unbounded, and all budgets lead to the same run
(`emit_runsAs_of_isFixed`).

This is said of outputs whose length is a size. Copies that are longer in total would have a least
length that is no size, which is not subtracted from the budget as it is.

In a tree without unbounded repetitions a budget makes no difference at all
(`emit_eq_of_isLimited`).
-/

namespace Exemplar

variable {σ : Type}

namespace Generator

/-- A step that writes makes the output no shorter. -/
theorem Writes.length_le {step : Generator σ Unit} {emission : Emission} (h : Writes step emission)
    {before after : Draft σ} (hrun : step.run before = .ok () after) :
    ∃ text : List Char, after.length = before.length + text.length ∧
      emission before.captures text after.captures := by
  obtain ⟨text, houtput, hemits⟩ := h hrun
  refine ⟨text, ?_, hemits⟩
  rw [Draft.length, Draft.length, ← Array.length_toList, houtput, List.length_append,
    Array.length_toList]

/-- Behind good captures, the step writes no less than a number of characters and leaves good
captures. -/
def WritesAtLeast (step : Generator σ Unit) (good : Captures → Prop) (least : Nat) : Prop :=
  ∀ ⦃before after : Draft σ⦄, step.run before = .ok () after → good before.captures →
    before.length + least ≤ after.length ∧ good after.captures

/-- Behind good captures, the other step succeeds with the same draft whenever the step does with a
draft whose length is a size. -/
def RunsAs (step other : Generator σ Unit) (good : Captures → Prop) : Prop :=
  ∀ ⦃before after : Draft σ⦄, step.run before = .ok () after → good before.captures →
    after.length < Size.modulus → other.run before = .ok () after

variable {step other : Generator σ Unit} {good : Captures → Prop} {least : Nat}

/-- A number of copies writes as many times what one copy writes. -/
theorem WritesAtLeast.copies {emit : Option Nat → Generator σ Unit}
    (h : ∀ budget, WritesAtLeast (emit budget) good least) (count : Nat) (budget : Option Nat) :
    WritesAtLeast (Generator.copies emit least count budget) good (count * least) := by
  induction count generalizing budget with
  | zero =>
    intro before after hrun hgood
    obtain ⟨-, rfl⟩ := pure_run_eq_ok.1 hrun
    exact ⟨by simp, hgood⟩
  | succ count ih =>
    intro before after hrun hgood
    obtain ⟨written, middle, hmeasure, hrun⟩ := bind_run_eq_ok.1 hrun
    obtain ⟨hstep, -⟩ := measure_run_eq_ok.1 hmeasure
    obtain ⟨hlength, hgood⟩ := h _ hstep hgood
    obtain ⟨hlength', hgood⟩ := ih _ hrun hgood
    exact ⟨by rw [Nat.succ_mul]; omega, hgood⟩

namespace RunsAs

/-- A step runs as it does. -/
theorem refl (step : Generator σ Unit) : RunsAs step step good :=
  fun _ _ hrun _ _ ↦ hrun

/-- Fewer captures are good. -/
theorem mono {better : Captures → Prop} (h : RunsAs step other good)
    (himp : ∀ captures, better captures → good captures) : RunsAs step other better :=
  fun _ _ hrun hbetter hsize ↦ h hrun (himp _ hbetter) hsize

/-- Keeping the text of a step runs alike when the step does. -/
theorem capturing (h : RunsAs step other good) (ids : List GroupId) :
    RunsAs (Generator.capturing ids step) (Generator.capturing ids other) good := by
  intro before after hrun hgood hsize
  obtain ⟨start, middle, hlength, hrun⟩ := bind_run_eq_ok.1 hrun
  cases hlength
  obtain ⟨_, later, hstep, hrecord⟩ := bind_run_eq_ok.1 hrun
  cases hrecord
  exact bind_run_eq_ok.2 ⟨_, before, rfl,
    bind_run_eq_ok.2 ⟨(), later, h hstep hgood hsize, rfl⟩⟩

/-- Copies that fit a budget as their least lengths do run as with every other such budget. -/
theorem copies_of_le {emit : Option Nat → Generator σ Unit}
    (h : ∀ budget, WritesAtLeast (emit budget) good least) (hleast : least < Size.modulus)
    {count : Nat} (hsize : count * least < Size.modulus) {budget budget' : Nat}
    (hbudget : budget ≤ count * least) (hbudget' : budget' ≤ count * least) :
    RunsAs (Generator.copies emit least count (some budget))
      (Generator.copies emit least count (some budget')) good := by
  induction count generalizing budget budget' with
  | zero => exact .refl _
  | succ count ih =>
    intro before after hrun hgood hafter
    rw [Generator.copies, Option.map_some, Extent.copyBudget_of_le hleast hsize hbudget] at hrun
    rw [Generator.copies, Option.map_some, Extent.copyBudget_of_le hleast hsize hbudget']
    obtain ⟨written, middle, hmeasure, hrun⟩ := bind_run_eq_ok.1 hrun
    obtain ⟨hstep, hwritten⟩ := measure_run_eq_ok.1 hmeasure
    obtain ⟨hlength, hmiddle⟩ := h _ hstep hgood
    -- A copy writes at least its least length, so the rest of the budget is not more than the
    -- other ones.
    rw [Nat.succ_mul] at hsize hbudget hbudget'
    have hrest : budget - written ≤ count * least := by omega
    have hrest' : budget' - written ≤ count * least := by omega
    exact bind_run_eq_ok.2 ⟨written, middle, hmeasure,
      ih (by omega) hrest hrest' hrun hmiddle hafter⟩

/-- Copies of a step that runs alike for all budgets run alike for all budgets. -/
theorem copies {emit : Option Nat → Generator σ Unit} {emission : Emission}
    (h : ∀ budget budget', RunsAs (emit (some budget)) (emit (some budget')) good)
    (hwrites : ∀ budget, Writes (emit budget) emission) (least count budget budget' : Nat) :
    RunsAs (Generator.copies emit least count (some budget))
      (Generator.copies emit least count (some budget'))
      fun before ↦ ∀ done < count, (emission.copies done).Always good before := by
  induction count generalizing budget budget' with
  | zero => exact .refl _
  | succ count ih =>
    intro before after hrun hgood hafter
    obtain ⟨written, middle, hmeasure, hrun⟩ := bind_run_eq_ok.1 hrun
    obtain ⟨hstep, hwritten⟩ := measure_run_eq_ok.1 hmeasure
    obtain ⟨text, -, hemits⟩ := (hwrites _).length_le hstep
    obtain ⟨later, hlength, -⟩ := (Writes.copies hwrites least count _).length_le hrun
    have hfirst := (Emission.always_ofText []).1 (hgood 0 (Nat.succ_pos count))
    refine bind_run_eq_ok.2 ⟨written, middle, measure_run_eq_ok.2 ⟨?_, hwritten⟩, ?_⟩
    · exact h _ _ hstep hfirst (by omega)
    · refine ih _ _ hrun (fun done hdone ↦ ?_) hafter
      exact Emission.always_andThen.1 (hgood (done + 1) (Nat.succ_lt_succ hdone)) hemits

end RunsAs

/-- Copies for which the budget makes no difference are the same with every budget. -/
theorem copies_eq {emit : Option Nat → Generator σ Unit}
    (h : ∀ budget, emit budget = emit none) (least count : Nat) (budget : Option Nat) :
    Generator.copies emit least count budget = Generator.copies emit least count none := by
  induction count generalizing budget with
  | zero => rfl
  | succ count ih =>
    rw [Generator.copies, Generator.copies, h]
    exact congrArg _ (funext fun written ↦ ih _)

end Generator

namespace Regex

open Generator

variable [RandomSource σ] {sizes : GroupId → Extent} {tree body : Regex}
  {parts options : List Regex} {before : Captures} {budget budget' : Nat}

/-- The captures have the expected lengths, and writing the tree cannot get stuck behind them. -/
def IsReady (sizes : GroupId → Extent) (tree : Regex) (captures : Captures) : Prop :=
  captures.Within sizes ∧ tree.Safe captures

/-- Options run alike for two budgets when each option does. -/
theorem emitOption_runsAs
    (h : ∀ option ∈ options, RunsAs (option.emit (some budget) : Generator σ Unit)
      (option.emit (some budget')) (option.IsReady sizes)) (index : Nat) :
    RunsAs (emitOption options index (some budget) : Generator σ Unit)
      (emitOption options index (some budget')) ((choice options).IsReady sizes) := by
  induction options generalizing index with
  | nil => exact .refl _
  | cons option options ih =>
    obtain ⟨hoption, hoptions⟩ := List.forall_mem_cons.1 h
    cases index with
    | zero => exact hoption.mono fun captures hready ↦ ⟨hready.1, hready.2.1⟩
    | succ index =>
      exact (ih hoptions index).mono fun captures hready ↦ ⟨hready.1, hready.2.2⟩

/-- A choice runs alike for two budgets when each option does. -/
theorem emit_choice_runsAs
    (h : ∀ option ∈ options, RunsAs (option.emit (some budget) : Generator σ Unit)
      (option.emit (some budget')) (option.IsReady sizes)) :
    RunsAs ((choice options).emit (some budget) : Generator σ Unit)
      ((choice options).emit (some budget')) ((choice options).IsReady sizes) := by
  intro before after hrun hready hsize
  obtain ⟨index, middle, hdraw, hrun⟩ := bind_run_eq_ok.1 hrun
  refine bind_run_eq_ok.2 ⟨index, middle, hdraw, ?_⟩
  rw [drawBetween_run] at hdraw
  cases hdraw
  exact emitOption_runsAs h _ hrun hready hsize

/-- Parts in a row that have one length each are written in the same way for all budgets. -/
theorem emitParts_of_isFixed (h : ∀ part ∈ parts, part.extent.IsFixed) (budget budget' : Nat) :
    (emitParts parts (some budget) : Generator σ Unit) = emitParts parts (some budget') := by
  induction parts generalizing budget budget' with
  | nil => rfl
  | cons part parts ih =>
    have hfirst (budget : Nat) :
        Extent.firstBudget (part.extent :: extents parts) budget = part.minLength := by
      refine Extent.firstBudget_of_isFixed ?_ budget
      rwa [extents_eq_map, ← List.map_cons, List.forall_mem_map]
    rw [emitParts, emitParts, Option.map_some, Option.map_some, hfirst, hfirst]
    refine congrArg _ (funext fun written ↦ ?_)
    exact ih (List.forall_mem_cons.1 h).2 _ _

/-! ## Limited repetitions -/

/-- Parts in a row are written in the same way with every budget when each part is. -/
theorem emitParts_eq (h : ∀ part ∈ parts, ∀ budget,
      (part.emit budget : Generator σ Unit) = part.emit none) (budget : Option Nat) :
    (emitParts parts budget : Generator σ Unit) = emitParts parts none := by
  induction parts generalizing budget with
  | nil => rfl
  | cons part parts ih =>
    obtain ⟨hpart, hparts⟩ := List.forall_mem_cons.1 h
    rw [emitParts, emitParts, hpart]
    exact congrArg _ (funext fun written ↦ ih hparts _)

/-- Options are written in the same way with every budget when each option is. -/
theorem emitOption_eq (h : ∀ option ∈ options, ∀ budget,
      (option.emit budget : Generator σ Unit) = option.emit none) (index : Nat)
    (budget : Option Nat) :
    (emitOption options index budget : Generator σ Unit) = emitOption options index none := by
  induction options generalizing index with
  | nil => rfl
  | cons option options ih =>
    obtain ⟨hoption, hoptions⟩ := List.forall_mem_cons.1 h
    cases index with
    | zero => exact hoption budget
    | succ index => exact ih hoptions index

/-- A tree whose repetitions are limited is written in the same way with every budget. -/
theorem emit_eq_of_isLimited (h : ∀ node ∈ tree.visible, node.IsLimited) (budget : Option Nat) :
    (tree.emit budget : Generator σ Unit) = tree.emit none := by
  induction tree generalizing budget with
  | empty => rfl
  | literal text ignoreCase => rfl
  | set members => rfl
  | sequence parts ih =>
    rw [forall_visible_sequence] at h
    exact emitParts_eq (fun part hpart ↦ ih part hpart (h.2 part hpart)) budget
  | choice options ih =>
    rw [forall_visible_choice] at h
    rw [emit, emit]
    exact congrArg _ (funext fun index ↦
      emitOption_eq (fun option hoption ↦ ih option hoption (h.2 option hoption)) index budget)
  | repetition body least most mode ih =>
    rw [forall_visible_repetition] at h
    have hcounts : body.extent.mostCopies least most budget =
        body.extent.mostCopies least most none := by
      cases most with
      | finite limit isSize => rfl
      | unbounded => exact absurd rfl h.1
    rw [emit_repetition, emit_repetition, hcounts]
    exact congrArg _ (funext fun count ↦ copies_eq (ih h.2) _ count budget)
  | group kind body ih =>
    rw [forall_visible_group] at h
    cases kind with
    | capturing number name => exact congrArg (capturing _) (ih (h.2 rfl) budget)
    | plain => exact ih (h.2 rfl) budget
    | atomic => exact ih (h.2 rfl) budget
    | lookahead negated => rfl
    | lookbehind negated => rfl
  | backref id extent => rfl

variable [RandomSource.Lawful σ]

/-- A measured tree writes no less than its least length. -/
theorem emit_writesAtLeast (hwell : tree.WellFormed)
    (hmeasured : ∀ node ∈ tree.visible, node.IsMeasured sizes) (budget : Option Nat) :
    WritesAtLeast (tree.emit budget : Generator σ Unit) (·.Within sizes) tree.minLength := by
  intro before after hrun hwithin
  obtain ⟨text, hlength, hemits⟩ := (emit_writes hwell budget).length_le hrun
  obtain ⟨⟨hmin, -⟩, hwithin⟩ := emits_measured_of_visible hmeasured hemits hwithin
  have hmin : tree.minLength ≤ text.length := hmin
  exact ⟨by omega, hwithin⟩

/-! ## Budgets below the least length -/

/-- Parts in a row run alike for budgets that do not exceed their least lengths. -/
theorem emitParts_runsAs_of_le_floorOf (hwell : ∀ part ∈ parts, part.WellFormed)
    (hmeasured : ∀ part ∈ parts, ∀ node ∈ part.visible, node.IsMeasured sizes)
    (h : budget ≤ Extent.floorOf (extents parts))
    (h' : budget' ≤ Extent.floorOf (extents parts)) :
    RunsAs (emitParts parts (some budget) : Generator σ Unit) (emitParts parts (some budget'))
      (·.Within sizes) := by
  induction parts generalizing budget budget' with
  | nil => exact .refl _
  | cons part parts ih =>
    obtain ⟨hone, hall⟩ := List.forall_mem_cons.1 hwell
    obtain ⟨hpart, hparts⟩ := List.forall_mem_cons.1 hmeasured
    intro before after hrun hwithin hsize
    rw [emitParts, Option.map_some, Extent.firstBudget_of_le_floorOf h] at hrun
    rw [emitParts, Option.map_some, Extent.firstBudget_of_le_floorOf h']
    obtain ⟨written, middle, hmeasure, hrun⟩ := bind_run_eq_ok.1 hrun
    obtain ⟨hstep, hwritten⟩ := measure_run_eq_ok.1 hmeasure
    obtain ⟨hlength, hwithin⟩ := emit_writesAtLeast hone hpart _ hstep hwithin
    have hfloor : Extent.floorOf (extents (part :: parts)) ≤
        part.minLength + Extent.floorOf (extents parts) := Nat.min_le_left ..
    have hrest : budget - written ≤ Extent.floorOf (extents parts) := by omega
    have hrest' : budget' - written ≤ Extent.floorOf (extents parts) := by omega
    exact bind_run_eq_ok.2 ⟨written, middle, hmeasure,
      ih hall hparts hrest hrest' hrun hwithin hsize⟩

/-- A repetition runs alike for budgets that do not exceed the least length of its fewest copies. -/
theorem emit_repetition_runsAs_of_le {least : Nat} {most : Bound} {mode : RepetitionMode}
    (hwell : (repetition body least most mode).WellFormed)
    (hmeasured : ∀ node ∈ body.visible, node.IsMeasured sizes)
    (h : budget ≤ body.minLength * least) (h' : budget' ≤ body.minLength * least) :
    RunsAs ((repetition body least most mode).emit (some budget) : Generator σ Unit)
      ((repetition body least most mode).emit (some budget'))
      ((repetition body least most mode).IsReady sizes) := by
  rw [wellFormed_repetition] at hwell
  intro before after hrun hready hsize
  have hcounts : body.extent.mostCopies least most (some budget) =
      body.extent.mostCopies least most (some budget') := by
    cases most with
    | finite limit isSize => rfl
    | unbounded =>
      have hvalid := (hready.2.of_repetition Bound.noConfusion).valid hwell.2 hmeasured hready.1
      rw [Extent.mostCopies_unbounded_of_le hvalid h, Extent.mostCopies_unbounded_of_le hvalid h']
  rw [emit_repetition, hcounts] at hrun
  rw [emit_repetition]
  obtain ⟨count, middle, hcount, hrun⟩ := bind_run_eq_ok.1 hrun
  obtain ⟨⟨hleast, -⟩, hcaptures, -⟩ := drawCount_run hcount
  have hwithin : middle.captures.Within sizes := hcaptures ▸ hready.1
  have hwrites (budget : Option Nat) :
      WritesAtLeast (body.emit budget : Generator σ Unit) (·.Within sizes) body.minLength :=
    emit_writesAtLeast hwell.2 hmeasured budget
  -- The copies together are no longer than the output, so their least length is a size.
  obtain ⟨hlength, -⟩ := WritesAtLeast.copies hwrites count _ hrun hwithin
  have hfloor : body.minLength * least ≤ count * body.minLength := by
    rw [Nat.mul_comm]
    exact Nat.mul_le_mul_right _ hleast
  refine bind_run_eq_ok.2 ⟨count, middle, hcount, ?_⟩
  exact RunsAs.copies_of_le hwrites body.extent.min_lt (by omega) (Nat.le_trans h hfloor)
    (Nat.le_trans h' hfloor) hrun hwithin hsize

/-- A tree runs alike for all budgets that do not exceed its least length. -/
theorem emit_runsAs_of_le_minLength (hwell : tree.WellFormed)
    (hmeasured : ∀ node ∈ tree.visible, node.IsMeasured sizes) (h : budget ≤ tree.minLength)
    (h' : budget' ≤ tree.minLength) :
    RunsAs (tree.emit (some budget) : Generator σ Unit) (tree.emit (some budget'))
      (tree.IsReady sizes) := by
  induction tree with
  | empty => exact .refl _
  | literal text ignoreCase => exact .refl _
  | set members => exact .refl _
  | sequence parts ih =>
    rw [wellFormed_sequence] at hwell
    rw [forall_visible_sequence] at hmeasured
    exact (emitParts_runsAs_of_le_floorOf hwell hmeasured.2 h h').mono fun _ ↦ And.left
  | choice options ih =>
    rw [wellFormed_choice] at hwell
    rw [forall_visible_choice] at hmeasured
    refine emit_choice_runsAs fun option hoption ↦ ?_
    have hfloor := minLength_choice_le hoption
    exact ih option hoption (hwell.2 option hoption) (hmeasured.2 option hoption)
      (Nat.le_trans h hfloor) (Nat.le_trans h' hfloor)
  | repetition body least most mode ih =>
    rw [forall_visible_repetition] at hmeasured
    exact emit_repetition_runsAs_of_le hwell hmeasured.2
      (Nat.le_trans h (Nat.min_le_left ..)) (Nat.le_trans h' (Nat.min_le_left ..))
  | group kind body ih =>
    rw [wellFormed_group] at hwell
    rw [forall_visible_group] at hmeasured
    have hbody (hkind : kind.isLookaround = false) (h : budget ≤ body.minLength)
        (h' : budget' ≤ body.minLength) :
        RunsAs (body.emit (some budget) : Generator σ Unit) (body.emit (some budget'))
          (body.IsReady sizes) :=
      ih hwell (hmeasured.2 hkind) h h'
    cases kind with
    | capturing number name => exact (hbody rfl h h').capturing (groupIds number name)
    | plain => exact hbody rfl h h'
    | atomic => exact hbody rfl h h'
    | lookahead negated => exact .refl _
    | lookbehind negated => exact .refl _
  | backref id extent => exact .refl _

/-! ## Strings of one length -/

/-- A repetition that has one length other than zero runs alike for all budgets when its body
does. -/
theorem emit_repetition_runsAs_of_isFixed {least : Nat} {most : Bound} {mode : RepetitionMode}
    (hwell : (repetition body least most mode).WellFormed)
    (hmeasured : ∀ node ∈ body.visible, node.IsMeasured sizes)
    (hfixed : (repetition body least most mode).extent.IsFixed)
    (hpos : 0 < (repetition body least most mode).minLength)
    (h : body.extent.IsFixed → 0 < body.minLength → ∀ budget budget',
      RunsAs (body.emit (some budget) : Generator σ Unit) (body.emit (some budget'))
        (body.IsReady sizes)) (budget budget' : Nat) :
    RunsAs ((repetition body least most mode).emit (some budget) : Generator σ Unit)
      ((repetition body least most mode).emit (some budget'))
      ((repetition body least most mode).IsReady sizes) := by
  rw [wellFormed_repetition] at hwell
  intro before after hrun hready hsize
  have hleast : 0 < least :=
    Nat.pos_of_mul_pos_left (Nat.lt_of_lt_of_le hpos (Nat.min_le_left (body.extent.min * least) _))
  have hbody := (Emission.always_ofText []).1 (hready.2 0 (hwell.1.1.mono hleast))
  obtain ⟨hone, hsome, rfl⟩ :=
    hfixed.of_repeated hpos (hbody.valid hwell.2 hmeasured hready.1) hwell.1.1
  -- The number of copies is fixed, so none is drawn.
  have hcount (budget : Nat) :
      body.extent.mostCopies least (.ofExact least) (some budget) = least := by
    rw [Bound.ofExact_of_lt hwell.1.2]
    rfl
  rw [emit_repetition, hcount, if_neg (Nat.lt_irrefl least)] at hrun
  rw [emit_repetition, hcount, if_neg (Nat.lt_irrefl least)]
  obtain ⟨count, middle, hpure, hrun⟩ := bind_run_eq_ok.1 hrun
  obtain ⟨rfl, rfl⟩ := pure_run_eq_ok.1 hpure
  refine bind_run_eq_ok.2 ⟨count, middle, rfl, ?_⟩
  refine RunsAs.copies (h hone hsome) (emit_writes hwell.2) _ _ budget budget' hrun ?_ hsize
  intro done hdone text captures hemits
  refine ⟨((emits_measured_of_visible hmeasured).copies done hemits hready.1).2, ?_⟩
  exact hready.2 done ((Bound.allows_ofExact_self count).mono hdone) hemits

/-- A tree whose strings have one length other than zero runs alike for all budgets. -/
theorem emit_runsAs_of_isFixed (hwell : tree.WellFormed)
    (hmeasured : ∀ node ∈ tree.visible, node.IsMeasured sizes) (hfixed : tree.extent.IsFixed)
    (hpos : 0 < tree.minLength) (budget budget' : Nat) :
    RunsAs (tree.emit (some budget) : Generator σ Unit) (tree.emit (some budget'))
      (tree.IsReady sizes) := by
  induction tree generalizing budget budget' with
  | empty => exact .refl _
  | literal text ignoreCase => exact .refl _
  | set members => exact .refl _
  | sequence parts ih =>
    rw [wellFormed_sequence] at hwell
    rw [forall_visible_sequence] at hmeasured
    intro before after hrun hready hsize
    have hvalid := valid_of_safeAll hready.2 hwell hmeasured.2 hready.1
    have hparts : ∀ part ∈ parts, part.extent.IsFixed := by
      rw [extent, extents_eq_map] at hfixed
      exact List.forall_mem_map.1 (hfixed.of_inSequence (List.forall_mem_map.2 hvalid))
    have hsame : ((sequence parts).emit (some budget) : Generator σ Unit) =
        (sequence parts).emit (some budget') := emitParts_of_isFixed hparts budget budget'
    rwa [← hsame]
  | choice options ih =>
    rw [wellFormed_choice] at hwell
    rw [forall_visible_choice] at hmeasured
    intro before after hrun hready hsize
    refine emit_choice_runsAs (fun option hoption ↦ ?_) hrun hready hsize
    have hvalid := (safeEach_iff.1 hready.2 option hoption).valid (hwell.2 option hoption)
      (hmeasured.2 option hoption) hready.1
    rw [extent, extents_eq_map] at hfixed
    exact ih option hoption (hwell.2 option hoption) (hmeasured.2 option hoption)
      (hfixed.of_anyOf (List.mem_map_of_mem hoption) hvalid)
      (Nat.lt_of_lt_of_le hpos (minLength_choice_le hoption)) budget budget'
  | repetition body least most mode ih =>
    rw [forall_visible_repetition] at hmeasured
    exact emit_repetition_runsAs_of_isFixed hwell hmeasured.2 hfixed hpos
      (ih (wellFormed_repetition.1 hwell).2 hmeasured.2) budget budget'
  | group kind body ih =>
    rw [wellFormed_group] at hwell
    rw [forall_visible_group] at hmeasured
    have hbody (hkind : kind.isLookaround = false) (hfixed : body.extent.IsFixed)
        (hpos : 0 < body.minLength) :
        RunsAs (body.emit (some budget) : Generator σ Unit) (body.emit (some budget'))
          (body.IsReady sizes) :=
      ih hwell (hmeasured.2 hkind) hfixed hpos budget budget'
    cases kind with
    | capturing number name => exact (hbody rfl hfixed hpos).capturing (groupIds number name)
    | plain => exact hbody rfl hfixed hpos
    | atomic => exact hbody rfl hfixed hpos
    | lookahead negated => exact .refl _
    | lookbehind negated => exact .refl _
  | backref id extent => exact .refl _

/-! ## The output -/

/-- Behind captures for which a tree is ready, budgets that make no difference lead to the same
output. -/
theorem exists_run_of_indifferent (hwell : tree.WellFormed)
    (hmeasured : ∀ node ∈ tree.visible, node.IsMeasured sizes)
    (h : tree.extent.Indifferent budget budget') {before after : Draft σ}
    (hready : tree.IsReady sizes before.captures)
    (hrun : (tree.emit (some budget)).run before = .ok () after)
    (hsize : after.length < Size.modulus) :
    ∃ after', (tree.emit (some budget')).run before = .ok () after' ∧
      after'.output = after.output := by
  rcases h with rfl | ⟨hle, hle'⟩ | hfixed
  · exact ⟨after, hrun, rfl⟩
  · exact ⟨after, emit_runsAs_of_le_minLength hwell hmeasured hle hle' hrun hready hsize, rfl⟩
  · rcases Nat.eq_zero_or_pos tree.minLength with hzero | hpos
    · -- Without length, both runs leave the output as it was.
      have hsame {budget : Option Nat} {after : Draft σ}
          (hrun : (tree.emit budget).run before = .ok () after) : after.output = before.output := by
        obtain ⟨text, houtput, hemits⟩ := emit_writes hwell budget hrun
        have hlength := (emits_measured_of_visible hmeasured hemits hready.1).1.2
        rw [hfixed, Bound.allows_ofExact] at hlength
        have hlength : text.length ≤ tree.minLength := hlength tree.extent.min_lt
        rw [hzero, Nat.le_zero, List.length_eq_zero_iff] at hlength
        rw [hlength, List.append_nil] at houtput
        exact Array.toList_inj.1 houtput
      obtain ⟨after', hrun'⟩ := emit_completes hwell (some budget') before hready.2
      exact ⟨after', hrun', (hsame hrun').trans (hsame hrun).symm⟩
    · exact ⟨after,
        emit_runsAs_of_isFixed hwell hmeasured hfixed hpos budget budget' hrun hready hsize, rfl⟩

end Regex

end Exemplar
