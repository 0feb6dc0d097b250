import Exemplar.Proofs.Generation.Writing
import Mathlib.Logic.Relation

/-!
# What a generation leaves

A step of a generation leaves a draft whether or not it succeeds (`Generator.behind`). A tree is
written by writing trees that are parts of it, each from a draft that is reached on the way
(`Task.Begins`). So what is written from a draft, and what went wrong there, belongs to one of
these parts.

Whatever a tree leaves, the output goes on from where it was, and a group has another text than
before only if the body of a capturing group was written completely on the way and the group has
its text (`Task.progresses_behind`). No source and no tree is excluded, for nothing is asked of
what is drawn. So the texts of groups are parts of the output behind all calls, whether or not some
of them failed (`Draft.HoldsCaptures.behindCalls`).
-/

namespace Exemplar

open Relation (ReflTransGen)

variable {σ α β : Type}

namespace Generator

/-- The draft that a step leaves, whether or not it succeeds. -/
def behind (step : Generator σ α) (draft : Draft σ) : Draft σ :=
  match step.run draft with
  | .ok _ after => after
  | .error _ after => after

variable {step : Generator σ α} {before middle : Draft σ}

/-- A step that succeeds leaves the draft that it has then. -/
theorem behind_of_ok {value : α} (h : step.run before = .ok value middle) :
    step.behind before = middle := by
  rw [behind, h]

/-- A step that fails leaves the draft that it had reached. -/
theorem behind_of_error {error : GenerationError} (h : step.run before = .error error middle) :
    step.behind before = middle := by
  rw [behind, h]

/-- Behind a step that succeeds, the next one leaves the draft. -/
theorem behind_bind_of_ok {value : α} (h : step.run before = .ok value middle)
    (next : α → Generator σ β) :
    (step >>= next).behind before = (next value).behind middle := by
  have hstep : step before = .ok value middle := h
  simp only [behind, EStateM.run, bind, EStateM.bind, hstep]

/-- A step that fails is the last one. -/
theorem bind_run_of_error {error : GenerationError} (h : step.run before = .error error middle)
    (next : α → Generator σ β) : (step >>= next).run before = .error error middle := by
  have hstep : step before = .error error middle := h
  simp only [EStateM.run, bind, EStateM.bind, hstep]

/-- A measured step fails when the step does. -/
theorem measure_run_of_error {step : Generator σ Unit} {error : GenerationError}
    (h : step.run before = .error error middle) : (measure step).run before = .error error middle :=
  bind_run_of_error h fun _ ↦ do return (← length) - before.length

/-- A capturing step fails when the step does, and records nothing then. -/
theorem capturing_run_of_error {step : Generator σ Unit} {error : GenerationError}
    (h : step.run before = .error error middle) (ids : List GroupId) :
    (capturing ids step).run before = .error error middle :=
  bind_run_of_error h _

/-- The number of copies is drawn, and this changes neither captures nor output. -/
theorem exists_drawCount_run [RandomSource σ] (least limit : Nat) (draft : Draft σ) :
    ∃ count after,
      (if limit > least then drawBetween least (Size.addWrapped limit 1) else pure least :
        Generator σ Nat).run draft = .ok count after ∧
      after.output = draft.output ∧ after.captures = draft.captures := by
  split
  · exact ⟨_, _, drawBetween_run .., rfl, rfl⟩
  · exact ⟨least, draft, rfl, rfl, rfl⟩

/-- The option with a number is written, and nothing if there is none. -/
theorem emitOption_eq_getElem? [RandomSource σ] (options : List Regex) (index : Nat)
    (budget : Option Nat) :
    (Regex.emitOption options index budget : Generator σ Unit) =
      match options[index]? with
      | some option => option.emit budget
      | none => pure () := by
  induction options generalizing index with
  | nil => rfl
  | cons option options ih =>
    cases index with
    | zero => rfl
    | succ index => exact ih index

end Generator

/-- The groups for which a text is recorded have it, and the others keep what they had. -/
theorem Captures.find?_recordAll_eq (captures : Captures) (ids : List GroupId) (text : List Char)
    (id : GroupId) :
    (captures.recordAll ids text).find? id =
      if id ∈ ids then some text else captures.find? id := by
  induction ids generalizing captures with
  | nil => rfl
  | cons other ids ih =>
    show ((captures.record other text).recordAll ids text).find? id = _
    rw [ih]
    by_cases hid : id = other
    · simp [hid]
    · simp [hid, Captures.find?_record_of_ne hid]

/-- What a generation has to write: a tree, the parts of a sequence that are left, or the copies of
a body that are left. -/
inductive Task where
  | tree (tree : Regex) (budget : Option Nat)
  | parts (parts : List Regex) (budget : Option Nat)
  | copies (body : Regex) (count : Nat) (budget : Option Nat)

namespace Task

variable [RandomSource σ]

/-- The step that writes what the task says. -/
def step : Task → Generator σ Unit
  | .tree node budget => node.emit budget
  | .parts nodes budget => Regex.emitParts nodes budget
  | .copies body count budget =>
      .copies (fun budget ↦ body.emit budget) body.minLength count budget

/-- Writing the first task from its draft comes at once to writing the second one from its draft. A
sequence is written by writing its parts, a choice by writing the option whose number is drawn, a
repetition by writing as many copies as are drawn, and a group that is no lookaround by writing its
body. The first part, or a copy, is written within its share of the budget, and the others behind
it with what it leaves of the budget. -/
inductive Begins : Task × Draft σ → Task × Draft σ → Prop where
  | sequence {parts : List Regex} {budget : Option Nat} {draft : Draft σ} :
      Begins (.tree (.sequence parts) budget, draft) (.parts parts budget, draft)
  | choice {options : List Regex} {option : Regex} {index : Nat} {budget : Option Nat}
      {draft middle : Draft σ}
      (hdraw : (Generator.drawBetween 0 options.length).run draft = .ok index middle)
      (hoption : options[index]? = some option) :
      Begins (.tree (.choice options) budget, draft) (.tree option budget, middle)
  | repetition {body : Regex} {least count : Nat} {most : Bound} {mode : RepetitionMode}
      {budget : Option Nat} {draft middle : Draft σ}
      (hdraw : (if body.extent.mostCopies least most budget > least then
          Generator.drawBetween least (Size.addWrapped (body.extent.mostCopies least most budget) 1)
        else pure least : Generator σ Nat).run draft = .ok count middle) :
      Begins (.tree (.repetition body least most mode) budget, draft)
        (.copies body count budget, middle)
  | group {kind : GroupKind} {body : Regex} {budget : Option Nat} {draft : Draft σ}
      (hkind : kind.isLookaround = false) :
      Begins (.tree (.group kind body) budget, draft) (.tree body budget, draft)
  | head {part : Regex} {parts : List Regex} {budget : Option Nat} {draft : Draft σ} :
      Begins (.parts (part :: parts) budget, draft)
        (.tree part (budget.map (Extent.firstBudget (part.extent :: Regex.extents parts))), draft)
  | tail {part : Regex} {parts : List Regex} {budget : Option Nat} {draft middle : Draft σ}
      (hpart :
        (part.emit (budget.map (Extent.firstBudget (part.extent :: Regex.extents parts)))).run
        draft = .ok () middle) :
      Begins (.parts (part :: parts) budget, draft)
        (.parts parts (budget.map (· - (middle.length - draft.length))), middle)
  | copy {body : Regex} {count : Nat} {budget : Option Nat} {draft : Draft σ} :
      Begins (.copies body (count + 1) budget, draft)
        (.tree body (budget.map (Extent.copyBudget body.minLength (count + 1))), draft)
  | more {body : Regex} {count : Nat} {budget : Option Nat} {draft middle : Draft σ}
      (hcopy : (body.emit (budget.map (Extent.copyBudget body.minLength (count + 1)))).run draft =
        .ok () middle) :
      Begins (.copies body (count + 1) budget, draft)
        (.copies body count (budget.map (· - (middle.length - draft.length))), middle)

/-- While the task was carried out, the body of a capturing group was written completely, and what
it wrote is the text that the group has now. -/
def CapturesBetween (task : Task) (before after : Draft σ) (id : GroupId) : Prop :=
  ∃ number name body budget start finish text,
    ReflTransGen Begins (task, before)
      (.tree (.group (.capturing number name) body) budget, start) ∧
      (body.emit budget).run start = .ok () finish ∧ id ∈ groupIds number name ∧
      finish.output.toList = start.output.toList ++ text ∧
      (∃ rest, after.output.toList = finish.output.toList ++ rest) ∧
      after.captures.find? id = some text

/-- What a draft has in common with a draft from which a task was carried out. The output goes on
from where it was, and a group has its text from before, or it captured one on the way. -/
structure Progresses (task : Task) (before after : Draft σ) : Prop where
  output_eq : ∃ text, after.output.toList = before.output.toList ++ text
  captures (id : GroupId) :
    after.captures.find? id = before.captures.find? id ∨ task.CapturesBetween before after id

variable {task first rest : Task} {before start middle after : Draft σ} {id : GroupId}

/-- What is captured by a part of a task is captured by the task. -/
theorem CapturesBetween.of_begins (h : first.CapturesBetween start after id)
    (hbegins : Begins (task, before) (first, start)) : task.CapturesBetween before after id := by
  obtain ⟨number, name, body, budget, reached, finish, text, hreaches, hfinish⟩ := h
  exact ⟨number, name, body, budget, reached, finish, text, .head hbegins hreaches, hfinish⟩

/-- What was captured stays captured when the output goes on and the group has its text. -/
theorem CapturesBetween.of_output_eq (h : task.CapturesBetween before middle id) {text : List Char}
    (houtput : after.output.toList = middle.output.toList ++ text)
    (hfind : after.captures.find? id = middle.captures.find? id) :
    task.CapturesBetween before after id := by
  obtain ⟨number, name, body, budget, start, finish, captured, hreaches, hrun, hid, htext,
    ⟨rest, hrest⟩, hcaptured⟩ := h
  refine ⟨number, name, body, budget, start, finish, captured, hreaches, hrun, hid, htext,
    ⟨rest ++ text, ?_⟩, hfind.trans hcaptured⟩
  rw [houtput, hrest, List.append_assoc]

namespace Progresses

/-- Where nothing was captured, the output only has to go on. -/
theorem of_captures_eq {text : List Char}
    (houtput : after.output.toList = before.output.toList ++ text)
    (hcaptures : after.captures = before.captures) : task.Progresses before after :=
  ⟨⟨text, houtput⟩, fun _ ↦ .inl (by rw [hcaptures])⟩

/-- Nothing has happened yet. -/
theorem refl (task : Task) (draft : Draft σ) : task.Progresses draft draft :=
  of_captures_eq (List.append_nil _).symm rfl

/-- A part of a task makes the progress of the task. -/
theorem of_begins (h : first.Progresses start after)
    (hbegins : Begins (task, before) (first, start)) (houtput : start.output = before.output)
    (hcaptures : start.captures = before.captures) : task.Progresses before after where
  output_eq := houtput ▸ h.output_eq
  captures id :=
    (h.captures id).imp (fun hfind ↦ hcaptures ▸ hfind) fun hcaptured ↦
      hcaptured.of_begins hbegins

/-- What is done behind the progress of a task, as another part of it, is progress too. -/
theorem trans (h : task.Progresses before middle) (hrest : rest.Progresses middle after)
    (hbegins : Begins (task, before) (rest, middle)) : task.Progresses before after := by
  obtain ⟨text, htext⟩ := h.output_eq
  obtain ⟨text', htext'⟩ := hrest.output_eq
  refine ⟨⟨text ++ text', by rw [htext', htext, List.append_assoc]⟩, fun id ↦ ?_⟩
  rcases hrest.captures id with hfind | hcaptured
  · -- What the first part captured is still there, and the output has only gone on.
    exact (h.captures id).imp hfind.trans fun hcaptured ↦ hcaptured.of_output_eq htext' hfind
  · exact .inr (hcaptured.of_begins hbegins)

/-- Where the body of a capturing group was written completely, the group captures the text. -/
theorem capturing {number : Nat} {name : Option String} {body : Regex} {budget : Option Nat}
    (h : Progresses (.tree body budget) before after)
    (hrun : (body.emit budget).run before = .ok () after) :
    Progresses (.tree (.group (.capturing number name) body) budget) before { after with
      captures := after.captures.recordAll (groupIds number name)
        (after.output.extract before.output.size after.output.size).toList } := by
  obtain ⟨text, htext⟩ := h.output_eq
  rw [Generator.toList_extract_of_append htext]
  refine ⟨⟨text, htext⟩, fun id ↦ ?_⟩
  by_cases hid : id ∈ groupIds number name
  · have hfind : (after.captures.recordAll (groupIds number name) text).find? id = some text := by
      rw [Captures.find?_recordAll_eq, if_pos hid]
    exact .inr ⟨number, name, body, budget, before, after, text, .refl, hrun, hid, htext,
      ⟨[], (List.append_nil _).symm⟩, hfind⟩
  · have hfind : (after.captures.recordAll (groupIds number name) text).find? id =
        after.captures.find? id := by
      rw [Captures.find?_recordAll_eq, if_neg hid]
    refine (h.captures id).imp hfind.trans fun hcaptured ↦ ?_
    exact (hcaptured.of_begins (.group rfl)).of_output_eq (List.append_nil _).symm hfind

/-- A measured part of a task makes progress, and if it succeeds, what is left of the task goes on
from there. -/
theorem measure_bind (first : Task) (rest : Nat → Task)
    (hfirst : first.Progresses before (first.step.behind before))
    (hbegins : Begins (task, before) (first, before))
    (hrest : ∀ middle, first.step.run before = .ok () middle →
      Begins (task, before) (rest (middle.length - before.length), middle) ∧
        Progresses (rest (middle.length - before.length)) middle
          ((rest (middle.length - before.length)).step.behind middle)) :
    task.Progresses before
      ((Generator.measure first.step >>= fun written ↦ (rest written).step).behind before) := by
  have hpart := hfirst.of_begins hbegins rfl rfl
  cases hrun : first.step.run before with
  | ok value middle =>
    rw [Generator.behind_of_ok hrun] at hpart
    rw [Generator.behind_bind_of_ok (Generator.measure_run_eq_ok.2 ⟨hrun, rfl⟩)]
    obtain ⟨hleft, hprogress⟩ := hrest middle hrun
    exact hpart.trans hprogress hleft
  | error error middle =>
    rw [Generator.behind_of_error hrun] at hpart
    rwa [Generator.behind_of_error
      (Generator.bind_run_of_error (Generator.measure_run_of_error hrun) _)]

/-- Parts in a row make progress when each of them does. -/
theorem parts {nodes : List Regex}
    (h : ∀ part ∈ nodes, ∀ budget (before : Draft σ),
      Progresses (.tree part budget) before ((part.emit budget).behind before))
    (budget : Option Nat) (before : Draft σ) :
    Progresses (.parts nodes budget) before ((Regex.emitParts nodes budget).behind before) := by
  induction nodes generalizing budget before with
  | nil => exact refl _ before
  | cons part nodes ih =>
    obtain ⟨hpart, hrest⟩ := List.forall_mem_cons.1 h
    rw [Regex.emitParts]
    exact measure_bind (.tree part _) (fun written ↦ .parts nodes (budget.map (· - written)))
      (hpart _ before) .head fun middle hrun ↦ ⟨.tail hrun, ih hrest _ middle⟩

/-- Copies make progress when single copies do. -/
theorem copies {body : Regex}
    (h : ∀ budget (before : Draft σ),
      Progresses (.tree body budget) before ((body.emit budget).behind before))
    (count : Nat) (budget : Option Nat) (before : Draft σ) :
    Progresses (.copies body count budget) before
      ((Generator.copies (fun budget ↦ body.emit budget) body.minLength count budget).behind
        before) := by
  induction count generalizing budget before with
  | zero => exact refl _ before
  | succ count ih =>
    rw [Generator.copies]
    exact measure_bind (.tree body _)
      (fun written ↦ .copies body count (budget.map (· - written)))
      (h _ before) .copy fun middle hrun ↦ ⟨.more hrun, ih _ middle⟩

end Progresses

/-- A tree makes progress, whatever is drawn, whatever the budget is, and whether or not it is
written completely. -/
theorem emit_progresses (tree : Regex) (budget : Option Nat) (before : Draft σ) :
    Progresses (.tree tree budget) before ((tree.emit budget).behind before) := by
  induction tree generalizing budget before with
  | empty => exact .refl _ before
  | literal text ignoreCase => exact .of_captures_eq (Array.toList_appendList ..) rfl
  | set members =>
    rw [Regex.emit, Generator.pushMember,
      Generator.behind_bind_of_ok (Generator.drawWord_run before)]
    split
    · exact .of_captures_eq (Array.toList_push ..) rfl
    · -- The set has no members, but the source has moved on.
      exact .of_captures_eq (List.append_nil _).symm rfl
  | sequence parts ih => exact (Progresses.parts ih budget before).of_begins .sequence rfl rfl
  | choice options ih =>
    have hdraw := Generator.drawBetween_run 0 options.length before
    rw [Regex.emit, Generator.behind_bind_of_ok hdraw, Generator.emitOption_eq_getElem?]
    split
    · rename_i option hoption
      exact (ih option (List.mem_of_getElem? hoption) budget _).of_begins
        (.choice hdraw hoption) rfl rfl
    · exact .of_captures_eq (List.append_nil _).symm rfl
  | repetition body least most mode ih =>
    obtain ⟨count, middle, hdraw, houtput, hcaptures⟩ := Generator.exists_drawCount_run least
      (body.extent.mostCopies least most budget) before
    rw [Regex.emit_repetition, Generator.behind_bind_of_ok hdraw]
    exact (Progresses.copies ih count budget middle).of_begins (.repetition hdraw) houtput hcaptures
  | group kind body ih =>
    cases kind with
    | capturing number name =>
      have hbody := ih budget before
      rw [Regex.emit]
      cases hrun : (body.emit budget).run before with
      | ok value after =>
        rw [Generator.behind_of_ok hrun] at hbody
        rw [Generator.behind_of_ok (Generator.capturing_run hrun _)]
        exact hbody.capturing hrun
      | error error after =>
        -- The body was not written completely, and the group captures nothing.
        rw [Generator.behind_of_error hrun] at hbody
        rw [Generator.behind_of_error (Generator.capturing_run_of_error hrun _)]
        exact hbody.of_begins (.group rfl) rfl rfl
    | plain => exact (ih budget before).of_begins (.group rfl) rfl rfl
    | atomic => exact (ih budget before).of_begins (.group rfl) rfl rfl
    | lookahead negated => exact .refl _ before
    | lookbehind negated => exact .refl _ before
  | backref id extent =>
    rw [Regex.emit, Generator.behind, Generator.repeatCapture_run]
    cases before.captures.find? id with
    | some text => exact .of_captures_eq (Array.toList_appendList ..) rfl
    | none => exact .refl _ before

/-- Every task makes progress, whether or not it is carried out completely. -/
theorem progresses_behind (task : Task) (before : Draft σ) :
    task.Progresses before (task.step.behind before) := by
  cases task with
  | tree node budget => exact emit_progresses node budget before
  | parts nodes budget => exact .parts (fun part _ ↦ emit_progresses part) budget before
  | copies body count budget => exact .copies (emit_progresses body) count budget before

end Task

/-- A step that succeeds goes on with the output. -/
def Generator.GoesOn (step : Generator σ Unit) : Prop :=
  ∀ ⦃before after : Draft σ⦄, step.run before = .ok () after →
    ∃ text, after.output.toList = before.output.toList ++ text

/-- A tree that is written goes on with the output. -/
theorem Regex.emit_goesOn [RandomSource σ] (tree : Regex) (budget : Option Nat) :
    (tree.emit budget : Generator σ Unit).GoesOn := by
  intro before after hrun
  have hprogress := Task.emit_progresses tree budget before
  rw [Generator.behind_of_ok hrun] at hprogress
  exact hprogress.output_eq

/-! ## Several calls -/

/-- A tree to write, and a budget for it. -/
structure Call where
  tree : Regex
  budget : Option Nat

namespace Draft

/-- The draft that calls leave, one after the other. A call that fails leaves what it had
reached. -/
def behindCalls [RandomSource σ] (calls : List Call) (draft : Draft σ) : Draft σ :=
  calls.foldl (fun draft call ↦ (call.tree.emit call.budget).behind draft) draft

/-- The last call leaves what it leaves behind the calls in front of it. -/
theorem behindCalls_concat [RandomSource σ] (calls : List Call) (call : Call) (draft : Draft σ) :
    draft.behindCalls (calls ++ [call]) =
      (call.tree.emit call.budget).behind (draft.behindCalls calls) := by
  rw [behindCalls, List.foldl_append]
  rfl

/-- The text that a group captured is a part of the output. -/
def HoldsCaptures (draft : Draft σ) : Prop :=
  ∀ ⦃id text⦄, draft.captures.find? id = some text →
    ∃ front back, draft.output.toList = front ++ text ++ back

/-- A new draft holds no captures. -/
theorem holdsCaptures_new (source : σ) : HoldsCaptures { source } := by
  intro id text hfind
  cases hfind

variable [RandomSource σ] {task : Task} {before after : Draft σ}

/-- The texts of groups stay parts of the output. -/
theorem HoldsCaptures.of_progresses (h : before.HoldsCaptures)
    (hprogress : task.Progresses before after) :
    after.HoldsCaptures := by
  obtain ⟨more, hmore⟩ := hprogress.output_eq
  intro id text hfind
  rcases hprogress.captures id with
    hkept | ⟨_, _, _, _, start, finish, captured, -, -, -, htext, hrest, hnew⟩
  · obtain ⟨front, back, houtput⟩ := h (hkept ▸ hfind)
    exact ⟨front, back ++ more, by rw [hmore, houtput, List.append_assoc _ back more]⟩
  · obtain ⟨rest, hrest⟩ := hrest
    cases hfind.symm.trans hnew
    exact ⟨start.output.toList, rest, by rw [hrest, htext]⟩

/-- Behind all calls from a draft, the texts of groups are parts of the output. -/
theorem HoldsCaptures.behindCalls (h : before.HoldsCaptures) (calls : List Call) :
    (before.behindCalls calls).HoldsCaptures := by
  induction calls generalizing before with
  | nil => exact h
  | cons call calls ih =>
    exact ih (h.of_progresses (Task.emit_progresses call.tree call.budget before))

end Draft

end Exemplar
