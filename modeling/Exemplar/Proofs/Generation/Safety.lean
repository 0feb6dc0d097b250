import Exemplar.Proofs.Generation.Writing

/-!
# Generation that cannot get stuck

A generation can only fail at an empty set or at a backreference to a group without a text. A tree
is safe behind some captures when no choice leads there: `tree.Safe before` follows the emissions
of the tree and asks at every set for a member and at every backreference for a text. A safe tree
is written out whatever the source draws and whatever the budget is (`emit_completes`).
-/

namespace Exemplar

variable {σ : Type}

/-- The property holds of the captures behind every text of the emission. -/
def Emission.Always (emission : Emission) (property : Captures → Prop)
    (before : Captures) : Prop :=
  ∀ ⦃text after⦄, emission before text after → property after

namespace Emission

variable {first second : Emission} {property : Captures → Prop} {before : Captures}

/-- What always holds behind two emissions in a row holds, behind the first one, always behind the
second one. -/
theorem always_andThen :
    (first.andThen second).Always property before ↔
      first.Always (second.Always property) before := by
  constructor
  · intro h left middle hleft right after hright
    exact h ⟨left, middle, right, hleft, hright, rfl⟩
  · rintro h text after ⟨left, middle, right, hleft, hright, rfl⟩
    exact h hleft hright

/-- A text leaves the captures as they are. -/
@[simp] theorem always_ofText (text : List Char) :
    (ofText text).Always property before ↔ property before := by
  constructor
  · exact fun h ↦ h ⟨rfl, rfl⟩
  · rintro h text after ⟨-, rfl⟩
    exact h

/-- Two things always hold together when both always hold. -/
theorem always_and {other : Captures → Prop} :
    first.Always (fun after ↦ property after ∧ other after) before ↔
      first.Always property before ∧ first.Always other before :=
  ⟨fun h ↦ ⟨fun _ _ hemits ↦ (h hemits).1, fun _ _ hemits ↦ (h hemits).2⟩,
    fun h _ _ hemits ↦ ⟨h.1 hemits, h.2 hemits⟩⟩

/-- Less is emitted, and less is demanded behind it. -/
theorem Always.mono {first' : Emission} {property' : Captures → Prop}
    (h : first.Always property before) (hfirst : first' ≤ first)
    (himp : ∀ after, property after → property' after) : first'.Always property' before :=
  fun _ _ hemits ↦ himp _ (h (hfirst _ _ _ hemits))

end Emission

namespace Regex

mutual
/-- Writing the tree cannot get stuck behind the captures. -/
def Safe : Regex → Captures → Prop
  | empty, _ => True
  | literal _ _, _ => True
  | set members, _ => members.isEmpty = false
  | sequence parts, before => SafeAll parts before
  | choice options, before => SafeEach options before
  | repetition body _ most _, before =>
      ∀ done, most.Allows (done + 1) → (body.Emits.copies done).Always (Safe body) before
  | group (.capturing _ _) body, before => Safe body before
  | group .plain body, before => Safe body before
  | group .atomic body, before => Safe body before
  | group (.lookahead _) _, _ => True
  | group (.lookbehind _) _, _ => True
  | backref id _, before => (before.find? id).isSome = true

/-- Writing the trees in a row cannot get stuck behind the captures. -/
def SafeAll : List Regex → Captures → Prop
  | [], _ => True
  | part :: parts, before => Safe part before ∧ part.Emits.Always (SafeAll parts) before

/-- Writing any of the trees cannot get stuck behind the captures. -/
def SafeEach : List Regex → Captures → Prop
  | [], _ => True
  | option :: options, before => Safe option before ∧ SafeEach options before
end

/-- A choice is safe when each option is. -/
theorem safeEach_iff {options : List Regex} {before : Captures} :
    SafeEach options before ↔ ∀ option ∈ options, option.Safe before := by
  induction options with
  | nil => simp [SafeEach]
  | cons option options ih => simp [SafeEach, ih]

end Regex

namespace Generator

open Regex (Safe SafeAll SafeEach)

/-- The step succeeds from every draft with safe captures. -/
def Completes (step : Generator σ Unit) (safe : Captures → Prop) : Prop :=
  ∀ before : Draft σ, safe before.captures → ∃ after, step.run before = .ok () after

namespace Completes

variable {step : Generator σ Unit} {safe : Captures → Prop} {emission : Emission}

/-- Doing nothing succeeds. -/
theorem nothing : Completes (pure () : Generator σ Unit) safe :=
  fun before _ ↦ ⟨before, rfl⟩

/-- Writing a text succeeds. -/
theorem append (text : List Char) : Completes (Generator.append text : Generator σ Unit) safe :=
  fun _ _ ↦ ⟨_, rfl⟩

/-- Writing a member succeeds if there is one. -/
theorem pushMember [RandomSource σ] (members : CharSet) :
    Completes (Generator.pushMember members : Generator σ Unit) (Regex.set members).Safe := by
  intro before hsafe
  have hsome : members.isEmpty = false := hsafe
  obtain ⟨c, hsample⟩ := CharSet.exists_sample hsome (RandomSource.drawWord before.source).1
  refine ⟨{ before with
    source := (RandomSource.drawWord before.source).2
    output := before.output.push c },
    bind_run_eq_ok.2 ⟨(RandomSource.drawWord before.source).1, _, rfl, ?_⟩⟩
  rw [hsample]
  rfl

/-- Writing the text of a group again succeeds if there is one. -/
theorem repeatCapture (id : GroupId) (extent : Extent) :
    Completes (Generator.repeatCapture id : Generator σ Unit) (Regex.backref id extent).Safe := by
  intro before hsafe
  obtain ⟨text, hfind⟩ := Option.isSome_iff_exists.1 hsafe
  refine ⟨{ before with output := before.output ++ text },
    bind_run_eq_ok.2 ⟨before, before, rfl, ?_⟩⟩
  rw [hfind]
  rfl

/-- Keeping the text of a step succeeds when the step does. -/
theorem capturing (h : Completes step safe) (ids : List GroupId) :
    Completes (Generator.capturing ids step) safe := by
  intro before hsafe
  obtain ⟨after, hrun⟩ := h before hsafe
  exact ⟨_, bind_run_eq_ok.2 ⟨_, before, rfl, bind_run_eq_ok.2 ⟨(), after, hrun, rfl⟩⟩⟩

/-- A measured step and the rest succeed when the rest is safe behind everything that the step may
write. -/
theorem measure_bind {rest : Nat → Generator σ Unit} {later : Captures → Prop}
    (h : Completes step safe) (hwrites : Writes step emission)
    (hrest : ∀ written, Completes (rest written) later) :
    Completes (Generator.measure step >>= rest)
      fun before ↦ safe before ∧ emission.Always later before := by
  intro before hsafe
  obtain ⟨middle, hstep⟩ := h before hsafe.1
  obtain ⟨text, -, hemission⟩ := hwrites hstep
  obtain ⟨after, hrun⟩ := hrest (middle.length - before.length) middle (hsafe.2 hemission)
  exact ⟨after, bind_run_eq_ok.2 ⟨_, middle, measure_run_eq_ok.2 ⟨hstep, rfl⟩, hrun⟩⟩

/-- Copies succeed when the body is safe behind every smaller number of copies. -/
theorem copies {emit : Option Nat → Generator σ Unit}
    (h : ∀ budget, Completes (emit budget) safe)
    (hwrites : ∀ budget, Writes (emit budget) emission) (least count : Nat)
    (budget : Option Nat) :
    Completes (Generator.copies emit least count budget) fun before ↦
      ∀ done < count, (emission.copies done).Always safe before := by
  induction count generalizing budget with
  | zero => exact nothing
  | succ count ih =>
    intro before hsafe
    refine measure_bind (h _) (hwrites _) (fun written ↦ ih _) before ⟨?_, ?_⟩
    · exact (Emission.always_ofText []).1 (hsafe 0 (Nat.succ_pos count))
    · intro text after hemits done hdone
      exact Emission.always_andThen.1 (hsafe (done + 1) (Nat.succ_lt_succ hdone)) hemits

end Completes

end Generator

namespace Regex

open Generator

variable [RandomSource σ]

/-- Any option completes when each of them does. -/
theorem emitOption_completes {options : List Regex}
    (h : ∀ option ∈ options, ∀ budget,
      Completes (option.emit budget : Generator σ Unit) option.Safe)
    (index : Nat) (budget : Option Nat) :
    Completes (emitOption options index budget : Generator σ Unit) (SafeEach options) := by
  induction options generalizing index with
  | nil => exact .nothing
  | cons option options ih =>
    intro before hsafe
    cases index with
    | zero => exact h option (by simp) budget before hsafe.1
    | succ index =>
      exact ih (fun other hother ↦ h other (List.mem_cons_of_mem _ hother)) index before hsafe.2

variable [RandomSource.Lawful σ]

/-- Parts in a row that complete one by one complete together. -/
theorem emitParts_completes {parts : List Regex} (hwell : ∀ part ∈ parts, part.WellFormed)
    (h : ∀ part ∈ parts, ∀ budget, Completes (part.emit budget : Generator σ Unit) part.Safe)
    (budget : Option Nat) :
    Completes (emitParts parts budget : Generator σ Unit) (SafeAll parts) := by
  induction parts generalizing budget with
  | nil => exact .nothing
  | cons part parts ih =>
    refine .measure_bind (h part (by simp) _) (emit_writes (hwell part (by simp)) _)
      fun written ↦ ?_
    exact ih (fun other hother ↦ hwell other (List.mem_cons_of_mem _ hother))
      (fun other hother ↦ h other (List.mem_cons_of_mem _ hother)) _

/-- A tree that is safe behind the captures is written out, whatever the source draws and whatever
the budget is. -/
theorem emit_completes {tree : Regex} (h : tree.WellFormed) (budget : Option Nat) :
    Completes (tree.emit budget : Generator σ Unit) tree.Safe := by
  induction tree generalizing budget with
  | empty => exact .nothing
  | literal text ignoreCase => exact .append text
  | set members => exact .pushMember members
  | sequence parts ih =>
    rw [wellFormed_sequence] at h
    exact emitParts_completes h (fun part hpart ↦ ih part hpart (h part hpart)) budget
  | choice options ih =>
    rw [wellFormed_choice] at h
    intro before hsafe
    obtain ⟨after, hrun⟩ := emitOption_completes
      (fun option hoption ↦ ih option hoption (h.2 option hoption))
      (RandomSource.drawBetween 0 options.length before.source).1 budget
      { before with source := (RandomSource.drawBetween 0 options.length before.source).2 } hsafe
    exact ⟨after, bind_run_eq_ok.2 ⟨_, _, drawBetween_run .., hrun⟩⟩
  | repetition body least most mode ih =>
    rw [wellFormed_repetition] at h
    intro before hsafe
    rw [emit_repetition]
    -- The count is drawn or given, and it is one that the bound allows in both cases.
    obtain ⟨count, middle, hcount⟩ : ∃ count middle,
        (if body.extent.mostCopies least most budget > least then
          drawBetween least (Size.addWrapped (body.extent.mostCopies least most budget) 1)
        else pure least : Generator σ Nat).run before = .ok count middle := by
      split
      · exact ⟨_, _, drawBetween_run ..⟩
      · exact ⟨_, _, rfl⟩
    obtain ⟨⟨-, hlimit⟩, hcaptures, -⟩ := drawCount_run hcount
    have hallows := Extent.allows_of_le_mostCopies h.1.1 hlimit
    obtain ⟨after, hrun⟩ :=
      Completes.copies (ih h.2) (emit_writes h.2) body.minLength count budget
      middle (hcaptures ▸ fun done hdone ↦ hsafe done (hallows.mono hdone))
    exact ⟨after, bind_run_eq_ok.2 ⟨count, middle, hcount, hrun⟩⟩
  | group kind body ih =>
    rw [wellFormed_group] at h
    cases kind with
    | capturing number name => exact (ih h budget).capturing _
    | plain => exact ih h budget
    | atomic => exact ih h budget
    | lookahead negated => exact .nothing
    | lookbehind negated => exact .nothing
  | backref id extent => exact .repeatCapture id extent

/-- A tree that is safe before anything was captured has a string for every source. -/
theorem exists_generate {tree : Regex} {target : Option Nat}
    (hwell : (tree.towards target).WellFormed) (hsafe : (tree.towards target).Safe [])
    (source : σ) :
    ∃ value next, tree.generate source target = .ok (value, next) := by
  obtain ⟨draft, hrun⟩ := emit_completes hwell target { source } hsafe
  exact ⟨draft.text, draft.source, generate_eq_ok.2 ⟨draft, hrun, rfl, rfl⟩⟩

end Regex

end Exemplar
