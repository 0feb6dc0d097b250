import Exemplar.Batch
import Exemplar.Proofs.Checked.Emission

/-!
# Checked arithmetic refines wrapped arithmetic

Where an operation with checked arithmetic has a result, wrapped arithmetic computes the same one.
This is so of each budget, of sizing and of generation, for every tree and every source, whether or
not the extents in the tree are sound (`generate_eq_of_generate?`). So what holds of all strings
that are generated with wrapped arithmetic holds of all strings that are generated with checked
arithmetic, and the two can differ only where there is a fault.
-/

namespace Exemplar

variable {σ α β : Type}

namespace Size

variable {left right result : Nat}

/-- A sum that is found is the sum. -/
theorem add?_eq_some (h : add? left right = some result) :
    left + right < modulus ∧ left + right = result := by
  unfold add? at h
  split at h
  · exact ⟨by assumption, Option.some.inj h⟩
  · cases h

/-- A difference that is found is the difference. -/
theorem sub?_eq_some (h : sub? left right = some result) :
    right ≤ left ∧ left - right = result := by
  unfold sub? at h
  split at h
  · exact ⟨by assumption, Option.some.inj h⟩
  · cases h

/-- A product that is found is the product. -/
theorem mul?_eq_some (h : mul? left right = some result) :
    left * right < modulus ∧ left * right = result := by
  unfold mul? at h
  split at h
  · exact ⟨by assumption, Option.some.inj h⟩
  · cases h

/-- A quotient that is found is the quotient. -/
theorem div?_eq_some (h : div? left right = some result) : left / right = result := by
  unfold div? at h
  split at h
  · cases h
  · exact Option.some.inj h

/-- A number that is narrowed stays the same. -/
theorem narrow?_eq_some {number : Nat} (h : narrow? number = some result) : number = result := by
  unfold narrow? at h
  split at h
  · exact Option.some.inj h
  · cases h

/-- A sum of several numbers that is found is their sum. -/
theorem total?_eq_some {numbers : List Nat} (h : total? numbers = some result) :
    total numbers = result := by
  have hfold {numbers : List Nat} {start : Nat} (h : numbers.foldlM add? start = some result) :
      start + numbers.sum = result := by
    induction numbers generalizing start with
    | nil => exact Option.some.inj h
    | cons number numbers ih =>
      rw [List.foldlM_cons] at h
      obtain ⟨next, hnext, hrest⟩ := Option.bind_eq_some_iff.1 h
      rw [List.sum_cons, ← Nat.add_assoc, (add?_eq_some hnext).2]
      exact ih hrest
  have hsum := hfold h
  rwa [Nat.zero_add] at hsum

end Size

/-- When each result that is found for a member is the computed one, so are the results for all. -/
theorem map_eq_of_mapM_eq_some {compute? : α → Option β} {compute : α → β} {items : List α}
    {results : List β}
    (hcompute : ∀ item result, compute? item = some result → compute item = result)
    (h : items.mapM compute? = some results) : items.map compute = results := by
  induction items generalizing results with
  | nil => exact Option.some.inj h
  | cons item items ih =>
    rw [List.mapM_cons] at h
    obtain ⟨result, hresult, hrest⟩ := Option.bind_eq_some_iff.1 h
    obtain ⟨rest, hrest, heq⟩ := Option.bind_eq_some_iff.1 hrest
    rw [List.map_cons, hcompute item result hresult, ih hrest]
    exact Option.some.inj heq

namespace Extent

variable {parts : List Extent} {extent : Extent} {slack least left budget result : Nat}

/-- A room that is found is the room. -/
theorem room_eq_of_room? (h : room? slack extent = some result) : room slack extent = result := by
  unfold room? at h
  unfold room
  split at h
  · rename_i limit isSize hmax
    obtain ⟨growth, hgrowth, hmin⟩ := Option.bind_eq_some_iff.1 h
    obtain ⟨hle, rfl⟩ := Size.sub?_eq_some hgrowth
    simp only [Size.subWrapped_eq hle isSize]
    exact Option.some.inj hmin
  · exact Option.some.inj h

/-- Shares that are found are the raised ones. -/
theorem topUp_eq_of_topUp? {shares : List (Nat × Nat)} {remainder : Nat} {raised : List Nat}
    (h : topUp? shares remainder = some raised) : topUp shares remainder = raised := by
  induction shares generalizing remainder raised with
  | nil => exact Option.some.inj h
  | cons head shares ih =>
    obtain ⟨share, room⟩ := head
    rw [topUp?] at h
    rw [topUp]
    split at h
    · rename_i hraise
      obtain ⟨more, hmore, htail⟩ := Option.bind_eq_some_iff.1 h
      obtain ⟨rest, hrest, htail⟩ := Option.bind_eq_some_iff.1 htail
      obtain ⟨tail, htail, heq⟩ := Option.bind_eq_some_iff.1 htail
      rw [if_pos hraise, (Size.add?_eq_some hmore).2, (Size.sub?_eq_some hrest).2, ih htail]
      exact Option.some.inj heq
    · rename_i hraise
      obtain ⟨tail, htail, heq⟩ := Option.bind_eq_some_iff.1 h
      rw [if_neg hraise, ih htail]
      exact Option.some.inj heq

/-- Budgets that are found are the budgets of the parts. -/
theorem splitTarget_eq_of_splitTarget? {target : Nat} {budgets : List Nat}
    (h : splitTarget? parts target = some budgets) : splitTarget parts target = budgets := by
  unfold splitTarget? at h
  obtain ⟨rooms, hrooms, h⟩ := Option.bind_eq_some_iff.1 h
  have hrooms := map_eq_of_mapM_eq_some (fun _ _ hroom ↦ room_eq_of_room? hroom) hrooms
  simp only [splitTarget, hrooms]
  simp only at h
  split at h
  · rename_i hzero
    rw [if_pos hzero]
    exact Option.some.inj h
  · rename_i hzero
    obtain ⟨shares, hshares, h⟩ := Option.bind_eq_some_iff.1 h
    obtain ⟨sum, hsum, h⟩ := Option.bind_eq_some_iff.1 h
    obtain ⟨remainder, hremainder, h⟩ := Option.bind_eq_some_iff.1 h
    obtain ⟨raised, hraised, h⟩ := Option.bind_eq_some_iff.1 h
    have hshare (room share : Nat)
        (hshare :
          (do Size.narrow? (← Size.div? ((target - floorOf parts) * room) (Size.total rooms)))
          = some share) : (target - floorOf parts) * room / Size.total rooms = share := by
      obtain ⟨quotient, hquotient, hnarrow⟩ := Option.bind_eq_some_iff.1 hshare
      exact (Size.div?_eq_some hquotient).trans (Size.narrow?_eq_some hnarrow)
    rw [if_neg hzero, map_eq_of_mapM_eq_some hshare hshares, Size.total?_eq_some hsum,
      (Size.sub?_eq_some hremainder).2, topUp_eq_of_topUp? hraised]
    have hbudget (part : Extent × Nat) (budget : Nat)
        (hbudget : Size.add? part.1.min part.2 = some budget) : part.1.min + part.2 = budget :=
      (Size.add?_eq_some hbudget).2
    rw [← map_eq_of_mapM_eq_some hbudget h, List.zip, List.map_zipWith]

/-- A budget that is found is the budget of the first part. -/
theorem firstBudget_eq_of_firstBudget? {target : Nat}
    (h : firstBudget? parts target = some result) :
    firstBudget parts target = result := by
  obtain ⟨budgets, hbudgets, h⟩ := Option.bind_eq_some_iff.1 h
  rw [firstBudget, splitTarget_eq_of_splitTarget? hbudgets]
  exact Option.some.inj h

/-- A budget that is found is the budget of a copy. -/
theorem copyBudget_eq_of_copyBudget? (h : copyBudget? least left budget = some result) :
    copyBudget least left budget = result := by
  obtain ⟨floor, hfloor, hsum⟩ := Option.bind_eq_some_iff.1 h
  obtain ⟨share, hshare, hsum⟩ := Option.bind_eq_some_iff.1 hsum
  obtain ⟨hfloor_lt, hfloor⟩ := Size.mul?_eq_some hfloor
  obtain ⟨hsum_lt, hsum⟩ := Size.add?_eq_some hsum
  rw [copyBudget, Size.mulWrapped_eq hfloor_lt, hfloor, Size.div?_eq_some hshare,
    Size.addWrapped_eq hsum_lt, hsum]

end Extent

namespace CheckedGenerator

/-- From the draft, the checked step meets a fault, or it does what the step does. -/
def RefinesAt (draft : Draft σ) (step? : CheckedGenerator σ α) (step : Generator σ α) : Prop :=
  (∃ after, step?.run draft = .error .fault after) ∨ AgreesAt draft step? step

namespace RefinesAt

variable {draft : Draft σ} {step? : CheckedGenerator σ α} {step : Generator σ α}

/-- A step without operations on sizes refines itself. -/
theorem checked (step : Generator σ α) (draft : Draft σ) : RefinesAt draft step.checked step :=
  .inr (.checked step draft)

/-- Two steps in a row are refined when the second one is refined behind the first one. -/
theorem bind {next? : α → CheckedGenerator σ β} {next : α → Generator σ β}
    (h : RefinesAt draft step? step)
    (hnext : ∀ value after, step.run draft = .ok value after →
      RefinesAt after (next? value) (next value)) :
    RefinesAt draft (step? >>= next?) (step >>= next) := by
  rcases h with ⟨after, hfault⟩ | hagrees
  · have hfault : step? draft = .error .fault after := hfault
    refine .inl ⟨after, ?_⟩
    simp only [EStateM.run, Bind.bind, EStateM.bind, hfault]
  · have hstep : step? draft = EStateM.adaptExcept .failed step draft := hagrees
    cases hrun : step draft with
    | error error after =>
      refine .inr (.bind hagrees fun value later hlater ↦ ?_)
      cases hrun.symm.trans hlater
    | ok value after =>
      rcases hnext value after hrun with ⟨last, hfault⟩ | hbehind
      · have hfault : next? value after = .error .fault last := hfault
        refine .inl ⟨last, ?_⟩
        simp only [EStateM.adaptExcept, hrun] at hstep
        simp only [EStateM.run, Bind.bind, EStateM.bind, hstep, hfault]
      · refine .inr (.bind hagrees fun value' after' hlater ↦ ?_)
        cases hrun.symm.trans hlater
        exact hbehind

/-- A step behind an operation on sizes refines a step that is given what the operation finds. -/
theorem ofOption_bind {option : Option α} {next? : α → CheckedGenerator σ β}
    {step : Generator σ β}
    (h : ∀ value, option = some value → RefinesAt draft (next? value) step) :
    RefinesAt draft (ofOption option >>= next?) step := by
  cases option with
  | none => exact .inl ⟨draft, rfl⟩
  | some value => exact h value rfl

variable {step? : CheckedGenerator σ Unit} {step : Generator σ Unit}

/-- The characters that a step writes are counted. -/
theorem measure (h : RefinesAt draft step? step) :
    RefinesAt draft (measure step?) (Generator.measure step) := by
  refine (checked Generator.length draft).bind fun before middle hlength ↦ ?_
  cases hlength
  refine h.bind fun value after hrun ↦ ?_
  refine (checked Generator.length after).bind fun length last hlast ↦ ?_
  cases hwritten : Size.sub? length draft.output.size with
  | none => exact .inl ⟨last, rfl⟩
  | some written =>
    obtain ⟨-, rfl⟩ := Size.sub?_eq_some hwritten
    exact .inr rfl

/-- The text that a step writes is kept. -/
theorem capturing (ids : List GroupId) (h : RefinesAt draft step? step) :
    RefinesAt draft (capturing ids step?) (Generator.capturing ids step) := by
  refine (checked Generator.length draft).bind fun before middle hlength ↦ ?_
  cases hlength
  exact h.bind fun value after hrun ↦ .inr rfl

/-- The number of copies is drawn from the same range. -/
theorem drawCount [RandomSource σ] (least limit : Nat) (draft : Draft σ) :
    RefinesAt draft (drawCount least limit)
      (if limit > least then Generator.drawBetween least (Size.addWrapped limit 1)
        else pure least) := by
  cases hbound : Size.add? limit 1 with
  | none =>
    rw [CheckedGenerator.drawCount, hbound]
    split
    · exact .inl ⟨draft, rfl⟩
    · exact checked (pure least) draft
  | some bound => exact .inr (AgreesAt.drawCount (Size.add?_eq_some hbound).1 draft)

/-- A budget that is found, if there is one, is the computed budget. -/
theorem eq_of_mapM_eq_some {compute? : Nat → Option Nat} {compute : Nat → Nat}
    (hcompute : ∀ budget result, compute? budget = some result → compute budget = result)
    {budget share : Option Nat} (h : budget.mapM compute? = some share) :
    budget.map compute = share := by
  cases budget with
  | none => exact Option.some.inj h
  | some budget =>
    obtain ⟨result, hresult, heq⟩ := Option.map_eq_some_iff.1 h
    rw [Option.map_some, hcompute budget result hresult]
    exact heq

/-- Copies are refined when the body is. -/
theorem copies {emit? : Option Nat → CheckedGenerator σ Unit}
    {emit : Option Nat → Generator σ Unit}
    (h : ∀ budget draft, RefinesAt draft (emit? budget) (emit budget)) (least count : Nat)
    (budget : Option Nat) (draft : Draft σ) :
    RefinesAt draft (copies emit? least count budget)
      (Generator.copies emit least count budget) := by
  induction count generalizing budget draft with
  | zero => exact .inr rfl
  | succ count ih =>
    refine ofOption_bind fun each heach ↦ ?_
    rw [← eq_of_mapM_eq_some (fun _ _ hcopy ↦ Extent.copyBudget_eq_of_copyBudget? hcopy) heach]
    exact (measure (h _ draft)).bind fun written after hrun ↦ ih _ after

end RefinesAt

end CheckedGenerator

namespace Regex

/-! ## Sizing -/

/-- What the checked step finds is what the step does. -/
def Finds (step? : StateT SizingPlan Option α) (step : StateM SizingPlan α) : Prop :=
  ∀ ⦃plan outcome⦄, step?.run plan = some outcome → step.run plan = outcome

namespace Finds

/-- A step without operations on sizes finds what it returns. -/
theorem pure (value : α) : Finds (pure value) (pure value) :=
  fun _ _ h ↦ Option.some.inj h

/-- A step that changes the plan finds the changed plan. -/
theorem modify (change : SizingPlan → SizingPlan) : Finds (modify change) (modify change) :=
  fun _ _ h ↦ Option.some.inj h

/-- Two steps in a row find what they do when each one does. -/
theorem bind {step? : StateT SizingPlan Option α} {step : StateM SizingPlan α}
    {next? : α → StateT SizingPlan Option β} {next : α → StateM SizingPlan β}
    (h : Finds step? step) (hnext : ∀ value, Finds (next? value) (next value)) :
    Finds (step? >>= next?) (step >>= next) := by
  intro plan outcome hfound
  obtain ⟨⟨value, middle⟩, hstep, hrest⟩ := Option.bind_eq_some_iff.1 hfound
  have hstep : step.run plan = (value, middle) := h hstep
  show (next (step.run plan).1).run (step.run plan).2 = outcome
  rw [hstep]
  exact hnext value hrest

/-- A step behind an operation on sizes finds what a step does that is given what the operation
finds. -/
theorem lift_bind {option : Option α} {next? : α → StateT SizingPlan Option β}
    {step : StateM SizingPlan β}
    (h : ∀ value, option = some value → Finds (next? value) step) :
    Finds (liftM option >>= next?) step := by
  cases option with
  | none => exact fun plan outcome hfound ↦ nomatch hfound
  | some value => exact h value rfl

end Finds

variable {caps : GroupId → Option Nat} {tree : Regex} {parts options : List Regex}

/-- Parts in a row are sized as is found when each part is. -/
theorem resizeParts?_finds
    (h : ∀ part ∈ parts, ∀ target, Finds (part.resize? caps target) (part.resize caps target))
    (targets : List Nat) :
    Finds (resizeParts? caps parts targets) (resizeParts caps parts targets) := by
  induction parts generalizing targets with
  | nil => exact .pure []
  | cons part parts ih =>
    rw [List.forall_mem_cons] at h
    cases targets with
    | nil => exact .pure []
    | cons target targets =>
      exact (h.1 target).bind fun result ↦ (ih h.2 targets).bind fun results ↦ .pure _

/-- Options are sized as is found when each option is. -/
theorem resizeOptions?_finds
    (h : ∀ option ∈ options, ∀ target,
      Finds (option.resize? caps target) (option.resize caps target))
    (reach target : Nat) :
    Finds (resizeOptions? caps reach options target) (resizeOptions caps reach options target) := by
  induction options with
  | nil => exact .pure []
  | cons option options ih =>
    rw [List.forall_mem_cons] at h
    rw [resizeOptions?, resizeOptions]
    split
    · exact (h.1 target).bind fun result ↦ (ih h.2).bind fun results ↦ .pure _
    · exact ih h.2

/-- What sizing with checked arithmetic finds is what sizing does. -/
theorem resize?_finds (target : Nat) :
    Finds (tree.resize? caps target) (tree.resize caps target) := by
  induction tree generalizing target with
  | empty => exact .pure _
  | literal text ignoreCase => exact .pure _
  | set members => exact .pure _
  | sequence parts ih =>
    refine Finds.lift_bind fun targets htargets ↦ ?_
    rw [← Extent.splitTarget_eq_of_splitTarget? htargets]
    exact (resizeParts?_finds ih _).bind fun results ↦ .pure _
  | choice options ih => exact (resizeOptions?_finds ih _ target).bind fun results ↦ .pure _
  | repetition body least most mode ih =>
    refine Finds.lift_bind fun ⟨count, each⟩ hfit ↦ ?_
    rw [Extent.fitRepetition?_eq] at hfit
    rw [resize, Option.some.inj hfit]
    exact (ih each).bind fun result ↦ .pure _
  | group kind body ih =>
    cases kind with
    | capturing number name =>
      exact (ih _).bind fun result ↦ (Finds.modify _).bind fun _ ↦ .pure _
    | plain => exact (ih target).bind fun result ↦ .pure _
    | atomic => exact (ih target).bind fun result ↦ .pure _
    | lookahead negated => exact .pure _
    | lookbehind negated => exact .pure _
  | backref id extent => exact fun plan outcome hfound ↦ Option.some.inj hfound

/-- A tree that is sized with checked arithmetic is the sized tree. -/
theorem sized_eq_of_sized? {target : Nat} {result : Regex} (h : tree.sized? target = some result) :
    tree.sized target = result := by
  obtain ⟨⟨first, plan⟩, hplan, hrest⟩ := Option.bind_eq_some_iff.1 h
  obtain ⟨⟨second, after⟩, hresult, heq⟩ := Option.bind_eq_some_iff.1 hrest
  have hplan := resize?_finds target hplan
  have hresult := resize?_finds target hresult
  rw [sized, hplan, hresult]
  exact Option.some.inj heq

/-! ## Generation -/

open CheckedGenerator

variable [RandomSource σ] {budget : Option Nat}

/-- Parts in a row are refined when each part is. -/
theorem emitParts?_refinesAt
    (h : ∀ part ∈ parts, ∀ budget, ∀ draft : Draft σ,
      RefinesAt draft (part.emit? budget) (part.emit budget))
    (budget : Option Nat) (draft : Draft σ) :
    RefinesAt draft (emitParts? parts budget) (emitParts parts budget) := by
  induction parts generalizing budget draft with
  | nil => exact .inr rfl
  | cons part parts ih =>
    rw [List.forall_mem_cons] at h
    refine RefinesAt.ofOption_bind fun share hshare ↦ ?_
    rw [← RefinesAt.eq_of_mapM_eq_some
      (fun _ _ hfirst ↦ Extent.firstBudget_eq_of_firstBudget? hfirst) hshare]
    exact (RefinesAt.measure (h.1 _ draft)).bind fun written after hrun ↦ ih h.2 _ after

/-- Options are refined when each option is. -/
theorem emitOption?_refinesAt
    (h : ∀ option ∈ options, ∀ draft : Draft σ,
      RefinesAt draft (option.emit? budget) (option.emit budget))
    (index : Nat) (draft : Draft σ) :
    RefinesAt draft (emitOption? options index budget) (emitOption options index budget) := by
  induction options generalizing index with
  | nil => exact .inr rfl
  | cons option options ih =>
    rw [List.forall_mem_cons] at h
    cases index with
    | zero => exact h.1 draft
    | succ index => exact ih h.2 index

/-- From any draft, writing a tree with checked arithmetic meets a fault, or it does what writing
the tree does. -/
theorem emit?_refinesAt (tree : Regex) (budget : Option Nat) (draft : Draft σ) :
    RefinesAt draft (tree.emit? budget) (tree.emit budget) := by
  induction tree generalizing budget draft with
  | empty => exact .inr rfl
  | literal text ignoreCase => exact .inr rfl
  | set members => exact .inr rfl
  | sequence parts ih => exact emitParts?_refinesAt ih budget draft
  | choice options ih =>
    exact (RefinesAt.checked (Generator.drawBetween 0 options.length) draft).bind
      fun index after hrun ↦ emitOption?_refinesAt
        (fun option hoption ↦ ih option hoption budget) index after
  | repetition body least most mode ih =>
    rw [emit_repetition]
    refine RefinesAt.ofOption_bind fun limit hlimit ↦ ?_
    obtain rfl := Option.some.inj ((Extent.mostCopies?_eq ..).symm.trans hlimit)
    exact (RefinesAt.drawCount least _ draft).bind fun count after hrun ↦
      RefinesAt.copies ih body.minLength count budget after
  | group kind body ih =>
    cases kind with
    | capturing number name => exact (ih budget draft).capturing _
    | plain => exact ih budget draft
    | atomic => exact ih budget draft
    | lookahead negated => exact .inr rfl
    | lookbehind negated => exact .inr rfl
  | backref id extent => exact .inr rfl

/-- Where generation with checked arithmetic meets no fault, it has the outcome of generation. -/
theorem generate_eq_of_generate? {tree : Regex} {source : σ} {target : Option Nat}
    {outcome : Except GenerationError (String × σ)}
    (h : tree.generate? source target = some outcome) : tree.generate source target = outcome := by
  obtain ⟨sized, hsized, h⟩ := Option.bind_eq_some_iff.1 h
  have hsized : tree.towards target = sized := by
    cases target with
    | some target => exact sized_eq_of_sized? hsized
    | none => exact Option.some.inj hsized
  rw [generate_eq, hsized]
  rcases emit?_refinesAt sized target { source } with ⟨after, hfault⟩ | hagrees
  · rw [hfault] at h
    cases h
  · have hagrees : (sized.emit? target).run { source } =
        EStateM.adaptExcept .failed (sized.emit target) { source } := hagrees
    rw [hagrees] at h
    simp only [EStateM.adaptExcept] at h
    simp only [EStateM.run]
    cases hrun : sized.emit target { source } with
    | ok value draft =>
      rw [hrun] at h
      exact Option.some.inj h
    | error error draft =>
      rw [hrun] at h
      exact Option.some.inj h

end Regex

namespace Pattern

variable {pattern : Pattern} {target : Option Nat}

/-- Where a pattern is generated from without a fault, checked arithmetic makes no difference. -/
theorem generateFrom_eq_of_generateFrom? [RandomSource σ] {source : σ}
    {outcome : Except GenerationError (String × σ)}
    (h : pattern.generateFrom? source target = some outcome) :
    pattern.generateFrom source target = outcome :=
  Regex.generate_eq_of_generate? h

/-- Where the string of a seed is generated without a fault, checked arithmetic makes no
difference. -/
theorem generate_eq_of_generate? {seed : Int} {outcome : Except GenerationError String}
    (h : pattern.generate? seed target = some outcome) :
    pattern.generate seed target = outcome := by
  obtain ⟨result, hresult, rfl⟩ := Option.map_eq_some_iff.1 h
  rw [generate, generateFrom_eq_of_generateFrom? hresult]

/-- Where the strings of the seeds are generated without a fault, checked arithmetic makes no
difference. -/
theorem generateAll_eq_of_generateAll? {seeds : List Int}
    {outcome : Except GenerationError (List String)}
    (h : pattern.generateAll? target seeds = some outcome) :
    pattern.generateAll target seeds = outcome := by
  induction seeds generalizing outcome with
  | nil => exact Option.some.inj h
  | cons seed seeds ih =>
    obtain ⟨first, hfirst, hrest⟩ := Option.bind_eq_some_iff.1 h
    rw [generateAll, List.mapM_cons, generate_eq_of_generate? hfirst]
    cases first with
    | error error => exact Option.some.inj hrest
    | ok value =>
      obtain ⟨rest, hrest, heq⟩ := Option.bind_eq_some_iff.1 hrest
      have hrest : seeds.mapM (pattern.generate · target) = rest := ih hrest
      rw [hrest]
      rw [← Option.some.inj heq]
      cases rest <;> rfl

/-- Where the pieces of a batch are generated without a fault, checked arithmetic makes no
difference to the results of all pieces. -/
theorem joined_eq_of_joined? {pieces : List (List Int)}
    {results : List (Except GenerationError (List String))}
    (h : (pieces.map fun piece ↦
      Task.spawn fun _ ↦ pattern.generateAll? target piece).mapM Task.get = some results) :
    (pieces.map fun piece ↦ Task.spawn fun _ ↦ pattern.generateAll target piece).mapM Task.get =
      results.mapM id := by
  have hpiece (piece : List Int) (result : Except GenerationError (List String))
      (hresult : pattern.generateAll? target piece = some result) :
      pattern.generateAll target piece = result := generateAll_eq_of_generateAll? hresult
  rw [List.mapM_map] at h
  rw [← map_eq_of_mapM_eq_some hpiece h, List.mapM_map, List.mapM_map]
  rfl

/-- Where a batch is generated without a fault, checked arithmetic makes no difference. -/
theorem generateMany_eq_of_generateMany? {config : BatchConfig} {seeds : List Int}
    {outcome : Except GenerationError (List String)}
    (h : pattern.generateMany? target config seeds = some outcome) :
    pattern.generateMany target config seeds = outcome := by
  rw [generateMany?] at h
  rw [generateMany]
  split at h
  · rename_i hone
    rw [if_pos hone]
    exact generateAll_eq_of_generateAll? h
  · rename_i hmany
    rw [if_neg hmany]
    obtain ⟨results, hresults, heq⟩ := Option.bind_eq_some_iff.1 h
    simp only [joined_eq_of_joined? hresults]
    exact Option.some.inj heq

end Pattern

end Exemplar
