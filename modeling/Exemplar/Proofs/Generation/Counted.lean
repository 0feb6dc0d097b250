import Exemplar.Proofs.Checked.Emission
import Exemplar.Proofs.Generation.Progress
import Exemplar.Random.Lcg

/-!
# Counted drafts

A generation can keep its texts as strings, and the number of characters that it has written as a
counter beside the output. What a step wrote is then the difference of two counts, and the text of
a group is cut off the output at the byte at which it began. The counts may not go down, and the
byte may not lie within a character, so both is checked, and a step ends with a fault where it is
not so.

There is never a fault, and the counted draft is the plain one with the length of its output as the
counter (`Regex.emitCounted_followsAt`). So it stays consistent in any row of calls, of which some
may fail midway (`isConsistent_behindCalls`).
-/

namespace Exemplar

variable {σ α β : Type}

/-- What a generation has reached, with texts as strings and a counter beside the output. -/
structure CountedDraft (σ : Type) where
  source : σ
  captures : List (GroupId × String) := []
  output : String := ""
  length : Nat := 0

/-- The draft with its texts as strings and the length of its output as the counter. -/
def Draft.counted (draft : Draft σ) : CountedDraft σ where
  source := draft.source
  captures := draft.captures.map fun (id, text) ↦ (id, String.ofList text)
  output := draft.text
  length := draft.length

namespace Draft

/-- A text that goes on is the text and what was added. -/
theorem text_eq_append {before after : Draft σ} {added : List Char}
    (h : after.output.toList = before.output.toList ++ added) :
    after.text = before.text ++ String.ofList added := by
  rw [text, h, String.ofList_append]
  rfl

/-- What is written is counted. -/
theorem counted_write (draft : Draft σ) {output : Array Char} {added : List Char}
    (h : output.toList = draft.output.toList ++ added) :
    ({ draft with output := output } : Draft σ).counted = { draft.counted with
      output := draft.counted.output ++ String.ofList added
      length := draft.counted.length + added.length } := by
  have hlength : output.size = draft.length + added.length := by
    rw [length, ← Array.length_toList, h, List.length_append, Array.length_toList]
  have htext : ({ draft with output := output } : Draft σ).text =
      draft.text ++ String.ofList added :=
    text_eq_append h
  simp only [counted, htext]
  exact congrArg _ hlength

/-- The counter has the number of characters in the output. -/
theorem length_counted (draft : Draft σ) : draft.counted.length = draft.counted.output.length :=
  Array.length_toList.symm.trans String.length_ofList.symm

/-- The texts of groups are found as strings. -/
theorem lookup_counted (draft : Draft σ) (id : GroupId) :
    draft.counted.captures.lookup id = draft.capture? id := by
  show (draft.captures.map fun (id, text) ↦ (id, String.ofList text)).lookup id =
    (draft.captures.lookup id).map String.ofList
  induction draft.captures with
  | nil => rfl
  | cons entry captures ih =>
    obtain ⟨other, text⟩ := entry
    rw [List.map_cons, List.lookup_cons, List.lookup_cons, ih]
    cases id == other <;> rfl

/-- The text of a group is found in the output. -/
theorem HoldsCaptures.text_eq {draft : Draft σ} (h : draft.HoldsCaptures) {id : GroupId}
    {captured : String} (hcapture : draft.counted.captures.lookup id = some captured) :
    ∃ front back, draft.counted.output = front ++ captured ++ back := by
  rw [lookup_counted] at hcapture
  obtain ⟨text, hfind, rfl⟩ := Option.map_eq_some_iff.1 hcapture
  obtain ⟨front, back, houtput⟩ := h hfind
  refine ⟨String.ofList front, String.ofList back, ?_⟩
  rw [← String.ofList_append, ← String.ofList_append, ← houtput]
  rfl

end Draft

/-- What is behind a byte of a text, unless the byte lies within a character or behind the text. -/
def cutFrom? (text : String) (start : Nat) : Option String :=
  if h : (String.Pos.Raw.mk start).IsValid text then
    some (text.sliceFrom (text.pos ⟨start⟩ h)).copy else none

/-- What is behind the bytes of a text that another one begins with is the rest of it. -/
theorem cutFrom?_append (text rest : String) :
    cutFrom? (text ++ rest) text.utf8ByteSize = some rest := by
  have hvalid : (String.Pos.Raw.mk text.utf8ByteSize).IsValid (text ++ rest) :=
    String.Pos.Raw.isValid_iff_exists_append.2 ⟨text, rest, rfl, rfl⟩
  have hsplits : ((text ++ rest).pos ⟨text.utf8ByteSize⟩ hvalid).Splits text rest :=
    ⟨rfl, String.offset_pos⟩
  rw [cutFrom?, dif_pos hvalid, hsplits.copy_sliceFrom_eq]

/-- Keep a text as what several groups captured now. -/
def CountedDraft.recordAll (captures : List (GroupId × String)) (ids : List GroupId)
    (text : String) : List (GroupId × String) :=
  ids.foldl (fun captures id ↦ (id, text) :: captures.filter (·.1 != id)) captures

/-- Texts are recorded as strings. -/
theorem CountedDraft.recordAll_map (captures : Captures) (ids : List GroupId) (text : List Char) :
    recordAll (captures.map fun (id, text) ↦ (id, String.ofList text)) ids (String.ofList text) =
      (captures.recordAll ids text).map fun (id, text) ↦ (id, String.ofList text) := by
  induction ids generalizing captures with
  | nil => rfl
  | cons id ids ih =>
    show recordAll ((id, String.ofList text) :: List.filter _ (captures.map _)) ids _ = _
    rw [List.filter_map]
    exact ih (captures.record id text)

/-- A step of a generation with a counted draft. -/
abbrev CountedGenerator (σ : Type) := EStateM Failure (CountedDraft σ)

namespace CountedGenerator

open CountedDraft (recordAll)

/-- What is found, or a fault. -/
def ofOption : Option α → CountedGenerator σ α
  | some value => return value
  | none => throw .fault

/-- Draw a number of 64 bits. -/
def drawWord [RandomSource σ] : CountedGenerator σ Int :=
  modifyGet fun draft ↦
    let (value, next) := RandomSource.drawWord draft.source
    (value, { draft with source := next })

/-- Draw a number from `low` up to, but without, `high`. -/
def drawBetween [RandomSource σ] (low high : Nat) : CountedGenerator σ Nat :=
  modifyGet fun draft ↦
    let (value, next) := RandomSource.drawBetween low high draft.source
    (value, { draft with source := next })

/-- Write a character, and count it. -/
def push (c : Char) : CountedGenerator σ Unit :=
  modify fun draft ↦ { draft with output := draft.output.push c, length := draft.length + 1 }

/-- Write a text, and count its characters. -/
def append (text : String) : CountedGenerator σ Unit :=
  modify fun draft ↦
    { draft with output := draft.output ++ text, length := draft.length + text.length }

/-- The number of characters written so far, by the counter. -/
def length : CountedGenerator σ Nat :=
  return (← get).length

/-- Run a step, and tell by the counter how many characters it writes. -/
def measure (step : CountedGenerator σ Unit) : CountedGenerator σ Nat := do
  let before ← length
  step
  ofOption (Size.sub? (← length) before)

/-- Run a step, and keep what lies behind the byte at which it began under several groups. -/
def capturing (ids : List GroupId) (step : CountedGenerator σ Unit) :
    CountedGenerator σ Unit := do
  let start := (← get).output.utf8ByteSize
  step
  let text ← ofOption (cutFrom? (← get).output start)
  modify fun draft ↦ { draft with captures := recordAll draft.captures ids text }

/-- Draw a member of a set and write it. -/
def pushMember [RandomSource σ] (set : CharSet) : CountedGenerator σ Unit := do
  let seed ← drawWord
  match set.sample seed with
  | .ok c => push c
  | .error error => throw (.failed error)

/-- Write the text that a group captured last. -/
def repeatCapture (id : GroupId) : CountedGenerator σ Unit := do
  match (← get).captures.lookup id with
  | some text => append text
  | none => throw (.failed (.unresolved id))

/-- Write `count` copies of a body that has the least length `least`. -/
def copies (emit : Option Nat → CountedGenerator σ Unit) (least : Nat) :
    (count : Nat) → Option Nat → CountedGenerator σ Unit
  | 0, _ => return
  | count + 1, budget => do
      let written ← measure (emit (budget.map (Extent.copyBudget least (count + 1))))
      copies emit least count (budget.map (· - written))

end CountedGenerator

namespace Regex

open CountedGenerator

mutual
/-- Write a string of the tree to a counted draft. -/
def emitCounted [RandomSource σ] : Regex → Option Nat → CountedGenerator σ Unit
  | empty, _ => return
  | literal text _, _ => append (String.ofList text)
  | set members, _ => pushMember members
  | sequence parts, budget => emitPartsCounted parts budget
  | choice options, budget => do
      let index ← drawBetween 0 options.length
      emitOptionCounted options index budget
  | repetition body least most _, budget => do
      let limit := body.extent.mostCopies least most budget
      let count ← if limit > least then drawBetween least (Size.addWrapped limit 1)
          else pure least
      copies (fun budget ↦ emitCounted body budget) body.minLength count budget
  | group (.capturing number name) body, budget =>
      capturing (groupIds number name) (emitCounted body budget)
  | group .plain body, budget => emitCounted body budget
  | group .atomic body, budget => emitCounted body budget
  | group (.lookahead _) _, _ => return
  | group (.lookbehind _) _, _ => return
  | backref id _, _ => repeatCapture id

/-- Write the parts of a sequence to a counted draft. -/
def emitPartsCounted [RandomSource σ] : List Regex → Option Nat → CountedGenerator σ Unit
  | [], _ => return
  | part :: parts, budget => do
      let written ← measure
        (emitCounted part (budget.map (Extent.firstBudget (part.extent :: extents parts))))
      emitPartsCounted parts (budget.map (· - written))

/-- Write the option with the given number to a counted draft. -/
def emitOptionCounted [RandomSource σ] :
    List Regex → Nat → Option Nat → CountedGenerator σ Unit
  | [], _, _ => return
  | option :: _, 0, budget => emitCounted option budget
  | _ :: options, index + 1, budget => emitOptionCounted options index budget
end

end Regex

/-! ## No faults -/

/-- What a step leaves, with a counted draft. -/
def countedResult :
    EStateM.Result GenerationError (Draft σ) α → EStateM.Result Failure (CountedDraft σ) α
  | .ok value draft => .ok value draft.counted
  | .error error draft => .error (.failed error) draft.counted

/-- From the counted draft, the step does what the other one does from the draft, without a
fault. -/
def FollowsAt (draft : Draft σ) (step' : CountedGenerator σ α) (step : Generator σ α) : Prop :=
  step'.run draft.counted = countedResult (step.run draft)

namespace FollowsAt

variable {draft : Draft σ} {step' : CountedGenerator σ α} {step : Generator σ α}

/-- Doing nothing needs no draft. -/
theorem pure (value : α) (draft : Draft σ) :
    FollowsAt draft (Pure.pure value : CountedGenerator σ α) (Pure.pure value) :=
  rfl

/-- Two steps in a row follow when the second one follows behind the first one. -/
theorem bind {next' : α → CountedGenerator σ β} {next : α → Generator σ β}
    (h : FollowsAt draft step' step)
    (hnext : ∀ value after, step.run draft = .ok value after →
      FollowsAt after (next' value) (next value)) :
    FollowsAt draft (step' >>= next') (step >>= next) := by
  have hstep : step' draft.counted = countedResult (step draft) := h
  show (step' >>= next') draft.counted = countedResult ((step >>= next) draft)
  simp only [Bind.bind, EStateM.bind, hstep]
  cases hrun : step draft with
  | ok value after => exact hnext value after hrun
  | error error after => rfl

/-- Two steps that look at the draft may see different things, as long as the next ones follow. -/
theorem look_bind {look' : CountedGenerator σ α} {look : Generator σ β} {seen' : α} {seen : β}
    (h' : look'.run draft.counted = .ok seen' draft.counted) (h : look.run draft = .ok seen draft)
    {next' : α → CountedGenerator σ Unit} {next : β → Generator σ Unit}
    (hnext : FollowsAt draft (next' seen') (next seen)) :
    FollowsAt draft (look' >>= next') (look >>= next) := by
  have hlook' : look' draft.counted = .ok seen' draft.counted := h'
  have hlook : look draft = .ok seen draft := h
  show (look' >>= next') draft.counted = countedResult ((look >>= next) draft)
  simp only [Bind.bind, EStateM.bind, hlook', hlook]
  exact hnext

/-- Bounded draws are the same. -/
theorem drawBetween [RandomSource σ] (low high : Nat) (draft : Draft σ) :
    FollowsAt draft (CountedGenerator.drawBetween low high) (Generator.drawBetween low high) :=
  rfl

/-- Draws of words are the same. -/
theorem drawWord [RandomSource σ] (draft : Draft σ) :
    FollowsAt draft CountedGenerator.drawWord Generator.drawWord :=
  rfl

/-- The counter has the length of the output. -/
theorem length (draft : Draft σ) : FollowsAt draft CountedGenerator.length Generator.length :=
  rfl

/-- A character that is written is counted. -/
theorem push (c : Char) (draft : Draft σ) :
    FollowsAt draft (CountedGenerator.push c) (Generator.push c) := by
  have hadded : (draft.output.push c).toList = draft.output.toList ++ [c] := Array.toList_push
  have hcounted := draft.counted_write hadded
  rw [← String.singleton_eq_ofList, String.append_singleton] at hcounted
  exact congrArg (EStateM.Result.ok ()) hcounted.symm

/-- The characters of a text that is written are counted. -/
theorem append (text : List Char) (draft : Draft σ) :
    FollowsAt draft (CountedGenerator.append (String.ofList text)) (Generator.append text) := by
  have hadded : (draft.output ++ text).toList = draft.output.toList ++ text :=
    Array.toList_appendList
  have hcounted := draft.counted_write hadded
  rw [← @String.length_ofList text] at hcounted
  exact congrArg (EStateM.Result.ok ()) hcounted.symm

/-- The same members are drawn. -/
theorem pushMember [RandomSource σ] (members : CharSet) (draft : Draft σ) :
    FollowsAt draft (CountedGenerator.pushMember members) (Generator.pushMember members) := by
  refine (drawWord draft).bind fun seed after hrun ↦ ?_
  cases members.sample seed with
  | ok c => exact push c after
  | error error => rfl

/-- The text of a group is the same. -/
theorem repeatCapture (id : GroupId) (draft : Draft σ) :
    FollowsAt draft (CountedGenerator.repeatCapture id) (Generator.repeatCapture id) := by
  rw [FollowsAt, Generator.repeatCapture_run]
  show (match draft.counted.captures.lookup id with
    | some text => CountedGenerator.append text
    | none => throw (.failed (.unresolved id)) : CountedGenerator σ Unit).run draft.counted = _
  rw [Draft.lookup_counted, Draft.capture?]
  cases draft.captures.find? id with
  | some text => exact append text draft
  | none => rfl

variable {step' : CountedGenerator σ Unit} {step : Generator σ Unit}

/-- What a step writes is told by the counter. -/
theorem measure (h : FollowsAt draft step' step) (hstep : step.GoesOn) :
    FollowsAt draft (CountedGenerator.measure step') (Generator.measure step) := by
  refine (length draft).bind fun before middle hlength ↦ ?_
  cases hlength
  refine h.bind fun value after hrun ↦ ?_
  refine (length after).bind fun count last hlength ↦ ?_
  cases hlength
  obtain ⟨text, htext⟩ := hstep hrun
  have hle : draft.output.size ≤ after.output.size := by
    rw [← Array.length_toList, ← Array.length_toList, htext, List.length_append]
    exact Nat.le_add_right ..
  show (CountedGenerator.ofOption (Size.sub? after.output.size draft.output.size)).run
    after.counted = _
  rw [Size.sub?_eq hle]
  rfl

/-- What a step writes is cut off the output. -/
theorem capturing (h : FollowsAt draft step' step) (hstep : step.GoesOn) (ids : List GroupId) :
    FollowsAt draft (CountedGenerator.capturing ids step') (Generator.capturing ids step) := by
  -- One of the steps remembers a number of bytes, and the other one a number of characters.
  refine look_bind rfl rfl (h.bind fun value after hrun ↦ ?_)
  obtain ⟨text, htext⟩ := hstep hrun
  have hcut : cutFrom? after.text draft.text.utf8ByteSize = some (String.ofList text) := by
    rw [Draft.text_eq_append htext, cutFrom?_append]
  have hextract := Generator.toList_extract_of_append htext
  show (CountedGenerator.ofOption (cutFrom? after.text draft.text.utf8ByteSize) >>= fun text ↦
      modify fun draft ↦
        { draft with captures := CountedDraft.recordAll draft.captures ids text }).run
    after.counted = countedResult (EStateM.Result.ok () { after with
      captures := after.captures.recordAll ids
        (after.output.extract draft.output.size after.output.size).toList })
  rw [hcut, hextract]
  exact congrArg
    (fun captures ↦ EStateM.Result.ok () ({ after.counted with captures } : CountedDraft σ))
    (CountedDraft.recordAll_map after.captures ids text)

/-- Copies follow when single copies do, and the output goes on. -/
theorem copies {emit' : Option Nat → CountedGenerator σ Unit}
    {emit : Option Nat → Generator σ Unit}
    (h : ∀ budget draft, FollowsAt draft (emit' budget) (emit budget))
    (hstep : ∀ budget, (emit budget).GoesOn) (least count : Nat) (budget : Option Nat)
    (draft : Draft σ) :
    FollowsAt draft (CountedGenerator.copies emit' least count budget)
      (Generator.copies emit least count budget) := by
  induction count generalizing budget draft with
  | zero => exact pure () draft
  | succ count ih =>
    exact ((h _ draft).measure (hstep _)).bind fun written after hrun ↦ ih _ after

end FollowsAt

namespace Regex

variable [RandomSource σ]

/-- Parts in a row follow when each of them does. -/
theorem emitPartsCounted_followsAt {parts : List Regex}
    (h : ∀ part ∈ parts, ∀ budget (draft : Draft σ),
      FollowsAt draft (part.emitCounted budget) (part.emit budget))
    (budget : Option Nat) (draft : Draft σ) :
    FollowsAt draft (emitPartsCounted parts budget) (emitParts parts budget) := by
  induction parts generalizing budget draft with
  | nil => exact .pure () draft
  | cons part parts ih =>
    obtain ⟨hpart, hparts⟩ := List.forall_mem_cons.1 h
    rw [emitParts, emitPartsCounted]
    exact ((hpart _ draft).measure (part.emit_goesOn _)).bind fun written after hrun ↦
      ih hparts _ after

/-- The options with the same number follow when each of the options does. -/
theorem emitOptionCounted_followsAt {options : List Regex}
    (h : ∀ option ∈ options, ∀ budget (draft : Draft σ),
      FollowsAt draft (option.emitCounted budget) (option.emit budget))
    (index : Nat) (budget : Option Nat) (draft : Draft σ) :
    FollowsAt draft (emitOptionCounted options index budget) (emitOption options index budget) := by
  induction options generalizing index with
  | nil => exact .pure () draft
  | cons option options ih =>
    obtain ⟨hoption, hoptions⟩ := List.forall_mem_cons.1 h
    cases index with
    | zero => exact hoption budget draft
    | succ index => exact ih hoptions index

/-- A tree is written to a counted draft without a fault, as it is written to the draft. -/
theorem emitCounted_followsAt (tree : Regex) (budget : Option Nat) (draft : Draft σ) :
    FollowsAt draft (tree.emitCounted budget) (tree.emit budget) := by
  induction tree generalizing budget draft with
  | empty => exact .pure () draft
  | literal text ignoreCase => exact .append text draft
  | set members => exact .pushMember members draft
  | sequence parts ih => exact emitPartsCounted_followsAt ih budget draft
  | choice options ih =>
    rw [emit, emitCounted]
    exact (FollowsAt.drawBetween _ _ draft).bind fun index after hrun ↦
      emitOptionCounted_followsAt ih index budget after
  | repetition body least most mode ih =>
    have hcopies (count : Nat) (after : Draft σ) :=
      FollowsAt.copies ih body.emit_goesOn body.minLength count budget after
    rw [emit, emitCounted]
    split
    · exact (FollowsAt.drawBetween _ _ draft).bind fun count after hrun ↦ hcopies count after
    · exact hcopies least draft
  | group kind body ih =>
    cases kind with
    | capturing number name => exact (ih budget draft).capturing (body.emit_goesOn budget) _
    | plain => exact ih budget draft
    | atomic => exact ih budget draft
    | lookahead negated => exact .pure () draft
    | lookbehind negated => exact .pure () draft
  | backref id extent => exact .repeatCapture id draft

end Regex

/-! ## Several calls -/

namespace CountedDraft

variable [RandomSource σ]

/-- The counted draft that calls leave, one after the other, unless there is a fault. -/
def behindCalls? : List Call → CountedDraft σ → Option (CountedDraft σ)
  | [], draft => some draft
  | call :: calls, draft =>
      match (call.tree.emitCounted call.budget).run draft with
      | .ok _ after => after.behindCalls? calls
      | .error (.failed _) after => after.behindCalls? calls
      | .error .fault _ => none

/-- Calls leave the counted draft of what they leave, without a fault. -/
theorem behindCalls?_counted (calls : List Call) (draft : Draft σ) :
    draft.counted.behindCalls? calls = some (draft.behindCalls calls).counted := by
  induction calls generalizing draft with
  | nil => rfl
  | cons call calls ih =>
    have hfollows := call.tree.emitCounted_followsAt call.budget draft
    rw [FollowsAt] at hfollows
    rw [behindCalls?, hfollows, Draft.behindCalls, List.foldl_cons]
    cases hrun : (call.tree.emit call.budget).run draft with
    | ok value after =>
      rw [Generator.behind_of_ok hrun]
      exact ih after
    | error error after =>
      rw [Generator.behind_of_error hrun]
      exact ih after

end CountedDraft

/-- What holds of a generation behind a call. The counted draft is that of the draft, and the
counter has the number of characters in the output. The output goes on from where it was in front
of the call, and the text of a group is a part of it. A group with another text than in front of
the call captured it during the call: the body of a capturing group was written completely, and
what it wrote is the text. -/
structure IsConsistent [RandomSource σ] (call : Call) (before after : Draft σ)
    (counted : CountedDraft σ) : Prop where
  eq_counted : counted = after.counted
  length_eq : counted.length = counted.output.length
  output_eq : ∃ text, counted.output = before.text ++ text
  capture_eq (id : GroupId) (text : String) (hcapture : counted.captures.lookup id = some text) :
    ∃ front back, counted.output = front ++ text ++ back
  captured (id : GroupId) (hchanged : after.capture? id ≠ before.capture? id) :
    Task.CapturesBetween (.tree call.tree call.budget) before after id

/-- Behind every row of calls, whatever they write and whether or not some of them fail, the draft
is consistent with the draft in front of the last call. -/
theorem isConsistent_behindCalls [RandomSource σ] (source : σ) (calls : List Call) (call : Call) :
    ∃ counted : CountedDraft σ, CountedDraft.behindCalls? (calls ++ [call]) { source } =
      some counted ∧
      IsConsistent call (Draft.behindCalls calls { source })
        (Draft.behindCalls (calls ++ [call]) { source }) counted := by
  have hcalls := CountedDraft.behindCalls?_counted (calls ++ [call]) { source }
  have hholds := (Draft.holdsCaptures_new source).behindCalls (calls ++ [call])
  have hprogress := Task.emit_progresses call.tree call.budget (Draft.behindCalls calls { source })
  rw [← Draft.behindCalls_concat] at hprogress
  refine ⟨_, hcalls, rfl, Draft.length_counted _, ?_, fun id text ↦ hholds.text_eq,
    fun id hchanged ↦ ?_⟩
  · obtain ⟨text, htext⟩ := hprogress.output_eq
    exact ⟨String.ofList text, Draft.text_eq_append htext⟩
  · refine (hprogress.captures id).resolve_left fun hkept ↦ hchanged ?_
    rw [Draft.capture?, Draft.capture?, hkept]

/-- A call that fails behind a group leaves the text of the group and its two characters. -/
example :
    (CountedDraft.behindCalls?
      [⟨.sequence [.group (.capturing 2 none) (.literal ['h', 'é'] false),
      .backref (.index 1) .zero], none⟩]
      { source := Lcg.ofSeed 0 }).map
        (fun draft ↦ (draft.length, draft.output, draft.captures.lookup (.index 2))) =
      some (2, "hé", some "hé") := by
  decide

end Exemplar
