import Exemplar.Generation.Emit
import Exemplar.Proofs.CharSet.Members
import Exemplar.Proofs.Emission.Basic
import Exemplar.Proofs.Random.Lawful
import Exemplar.Proofs.Regex.Everywhere

/-!
# Generation stays within the emission relation

`step.Writes emission` says that a generator step that succeeds extends the output by a text which
the emission relates to the captures before and behind it. The steps of a generation are put
together as emissions are, so a well-formed tree writes what it may emit, whatever the source draws
and whatever the budget is (`emit_writes`).
-/

namespace Exemplar

variable {σ α β : Type}

namespace Generator

/-- A step in two parts succeeds when the first part does and the second one does from there. -/
theorem bind_run_eq_ok {step : Generator σ α} {next : α → Generator σ β}
    {before after : Draft σ} {value : β} :
    (step >>= next).run before = .ok value after ↔
      ∃ result middle, step.run before = .ok result middle ∧
        (next result).run middle = .ok value after := by
  simp only [EStateM.run, bind, EStateM.bind]
  cases step before with
  | ok result middle =>
    constructor
    · exact fun h ↦ ⟨result, middle, rfl, h⟩
    · rintro ⟨_, _, ⟨⟩, h⟩
      exact h
  | error error middle => simp

/-- A step without effect succeeds and keeps the draft. -/
theorem pure_run_eq_ok {value result : α} {before after : Draft σ} :
    (pure value : Generator σ α).run before = .ok result after ↔
      result = value ∧ after = before := by
  simp [EStateM.run, pure, EStateM.pure, eq_comm]

/-- A bounded draw takes its number from the source and changes nothing else. -/
theorem drawBetween_run [RandomSource σ] (low high : Nat) (draft : Draft σ) :
    (drawBetween low high).run draft =
      .ok (RandomSource.drawBetween low high draft.source).1
        { draft with source := (RandomSource.drawBetween low high draft.source).2 } :=
  rfl

/-- A draw of a word takes its number from the source and changes nothing else. -/
theorem drawWord_run [RandomSource σ] (draft : Draft σ) :
    drawWord.run draft =
      .ok (RandomSource.drawWord draft.source).1
        { draft with source := (RandomSource.drawWord draft.source).2 } :=
  rfl

/-- Writing a text extends the output. -/
theorem append_run (text : List Char) (draft : Draft σ) :
    (append text).run draft = .ok () { draft with output := draft.output ++ text } :=
  rfl

/-- The text of a group is written again if there is one. -/
theorem repeatCapture_run (id : GroupId) (draft : Draft σ) :
    (repeatCapture id).run draft =
      match draft.captures.find? id with
      | some text => .ok () { draft with output := draft.output ++ text }
      | none => .error (.unresolved id) draft := by
  show (match draft.captures.find? id with
    | some text => append text
    | none => throw (.unresolved id) : Generator σ Unit).run draft = _
  cases draft.captures.find? id <;> rfl

/-- A measured step succeeds when the step does, and counts what it wrote. -/
theorem measure_run_eq_ok {step : Generator σ Unit} {before after : Draft σ} {written : Nat} :
    (measure step).run before = .ok written after ↔
      step.run before = .ok () after ∧ written = after.length - before.length := by
  rw [measure, bind_run_eq_ok]
  constructor
  · rintro ⟨_, _, ⟨⟩, hrun⟩
    obtain ⟨_, middle, hstep, hrun⟩ := bind_run_eq_ok.1 hrun
    cases hrun
    exact ⟨hstep, rfl⟩
  · rintro ⟨hstep, rfl⟩
    exact ⟨before.length, before, rfl, bind_run_eq_ok.2 ⟨(), after, hstep, rfl⟩⟩

/-- A capturing step succeeds when the step does, and keeps what lies behind the end that the
output had. -/
theorem capturing_run {step : Generator σ Unit} {before after : Draft σ}
    (h : step.run before = .ok () after) (ids : List GroupId) :
    (capturing ids step).run before = .ok () { after with
      captures := after.captures.recordAll ids
        (after.output.extract before.output.size after.output.size).toList } :=
  bind_run_eq_ok.2 ⟨_, before, rfl, bind_run_eq_ok.2 ⟨(), after, h, rfl⟩⟩

/-- A text makes the output longer by its length. -/
theorem size_append (output : Array Char) (text : List Char) :
    (output ++ text).size = output.size + text.length := by
  rw [← Array.length_toList, Array.toList_appendList, List.length_append, Array.length_toList]

/-- The text by which an output was extended is found behind the end that it had. -/
theorem toList_extract_of_append {output extended : Array Char} {text : List Char}
    (h : extended.toList = output.toList ++ text) :
    (extended.extract output.size extended.size).toList = text := by
  have hsize : extended.size = output.size + text.length := by
    rw [← Array.length_toList, h, List.length_append, Array.length_toList]
  rw [Array.toList_extract, List.extract_eq_take_drop, h, hsize, ← Array.length_toList,
    List.drop_left, Nat.add_sub_cancel_left, List.take_length]

/-- A step that succeeds extends the output by a text of the emission. -/
def Writes (step : Generator σ Unit) (emission : Emission) : Prop :=
  ∀ ⦃before after : Draft σ⦄, step.run before = .ok () after →
    ∃ text, after.output.toList = before.output.toList ++ text ∧
      emission before.captures text after.captures

namespace Writes

variable {step : Generator σ Unit} {emission : Emission}

/-- What a step writes may be described more loosely. -/
theorem mono {wider : Emission} (h : Writes step emission) (hle : emission ≤ wider) :
    Writes step wider := by
  intro before after hrun
  obtain ⟨text, houtput, hemission⟩ := h hrun
  exact ⟨text, houtput, hle _ _ _ hemission⟩

/-- Doing nothing writes nothing. -/
theorem nothing : Writes (pure () : Generator σ Unit) (.ofText []) := by
  intro before after hrun
  obtain ⟨-, rfl⟩ := pure_run_eq_ok.1 hrun
  exact ⟨[], by simp, rfl, rfl⟩

/-- Writing a text. -/
theorem append (text : List Char) :
    Writes (Generator.append text : Generator σ Unit) (.ofText text) := by
  intro before after hrun
  cases hrun
  exact ⟨text, by simp, rfl, rfl⟩

/-- Writing a member of a set. -/
theorem pushMember [RandomSource σ] (members : CharSet) :
    Writes (Generator.pushMember members : Generator σ Unit) (Regex.set members).Emits := by
  intro before after hrun
  obtain ⟨seed, middle, hdraw, hrun⟩ := bind_run_eq_ok.1 hrun
  cases hdraw
  split at hrun
  · rename_i c hsample
    cases hrun
    exact ⟨[c], by simp, c, CharSet.mem_of_sample hsample, rfl, rfl⟩
  · cases hrun

/-- Writing the text of a group again. -/
theorem repeatCapture (id : GroupId) (extent : Extent) :
    Writes (Generator.repeatCapture id : Generator σ Unit) (Regex.backref id extent).Emits := by
  intro before after hrun
  obtain ⟨draft, middle, hget, hrun⟩ := bind_run_eq_ok.1 hrun
  cases hget
  split at hrun
  · rename_i text hfind
    cases hrun
    exact ⟨text, by simp, hfind, rfl⟩
  · cases hrun

/-- Writing, and keeping the text under several groups. -/
theorem capturing (ids : List GroupId) (h : Writes step emission) :
    Writes (Generator.capturing ids step) (emission.capturing ids) := by
  intro before after hrun
  obtain ⟨start, middle, hlength, hrun⟩ := bind_run_eq_ok.1 hrun
  cases hlength
  obtain ⟨_, later, hstep, hrecord⟩ := bind_run_eq_ok.1 hrun
  cases hrecord
  obtain ⟨text, houtput, hemission⟩ := h hstep
  have htext := toList_extract_of_append houtput
  exact ⟨text, houtput, later.captures, hemission, by rw [← htext]; rfl⟩

/-- Writing a measured part, and then the rest with the count in mind. -/
theorem measure_bind {rest : Nat → Generator σ Unit} {later : Emission}
    (h : Writes step emission) (hrest : ∀ written, Writes (rest written) later) :
    Writes (Generator.measure step >>= rest) (emission.andThen later) := by
  intro before after hrun
  obtain ⟨written, middle, hmeasure, hrun⟩ := bind_run_eq_ok.1 hrun
  obtain ⟨hstep, -⟩ := measure_run_eq_ok.1 hmeasure
  obtain ⟨left, hleft, hfirst⟩ := h hstep
  obtain ⟨right, hright, hsecond⟩ := hrest written hrun
  exact ⟨left ++ right, by rw [hright, hleft, List.append_assoc],
    left, middle.captures, right, hfirst, hsecond, rfl⟩

/-- Writing a number of copies. -/
theorem copies {emit : Option Nat → Generator σ Unit}
    (h : ∀ budget, Writes (emit budget) emission) (least count : Nat) (budget : Option Nat) :
    Writes (Generator.copies emit least count budget) (emission.copies count) := by
  induction count generalizing budget with
  | zero => exact nothing
  | succ count ih => exact measure_bind (h _) fun written ↦ ih _

end Writes

variable [RandomSource σ] [RandomSource.Lawful σ]

/-- The number of copies that is drawn lies between the least number and the limit, and where there
is no such number it is the least one. The draw changes neither captures nor output. -/
theorem drawCount_run {least limit count : Nat} {before after : Draft σ}
    (h : (if limit > least then drawBetween least (Size.addWrapped limit 1) else pure least :
      Generator σ Nat).run before = .ok count after) :
    (least ≤ count ∧ count ≤ max limit least) ∧
      after.captures = before.captures ∧ after.output = before.output := by
  split at h
  · rename_i hlimit
    rw [drawBetween_run] at h
    cases h
    refine ⟨⟨RandomSource.le_drawBetween .., ?_⟩, rfl, rfl⟩
    rcases Nat.lt_or_ge least (Size.addWrapped limit 1) with hlt | hge
    · have hdraw := (RandomSource.Lawful.drawBetween_mem hlt before.source).2
      have hwrap : Size.addWrapped limit 1 ≤ limit + 1 := Nat.mod_le ..
      omega
    · rw [RandomSource.Lawful.drawBetween_of_le hge]
      exact Nat.le_max_right ..
  · obtain ⟨rfl, rfl⟩ := pure_run_eq_ok.1 h
    exact ⟨⟨Nat.le_refl _, Nat.le_max_right ..⟩, rfl, rfl⟩

end Generator

/-- A bound that allows the least count allows every count up to the limit that is worth drawing. -/
theorem Extent.allows_of_le_mostCopies {body : Extent} {least count : Nat} {most : Bound}
    {budget : Option Nat} (hleast : most.Allows least)
    (h : count ≤ Max.max (body.mostCopies least most budget) least) : most.Allows count := by
  cases most with
  | finite limit isSize =>
    have hleast : least ≤ limit := hleast
    have h : count ≤ Max.max limit least := h
    show count ≤ limit
    omega
  | unbounded => trivial

namespace Regex

open Generator

variable [RandomSource σ]

/-- A repetition draws the number of its copies and then writes them. -/
theorem emit_repetition (body : Regex) (least : Nat) (most : Bound) (mode : RepetitionMode)
    (budget : Option Nat) :
    ((repetition body least most mode).emit budget : Generator σ Unit) =
      (if body.extent.mostCopies least most budget > least then
        drawBetween least (Size.addWrapped (body.extent.mostCopies least most budget) 1)
      else pure least) >>= fun count ↦
        copies (fun budget ↦ body.emit budget) body.minLength count budget := by
  rw [emit]
  split <;> rfl

/-- Parts in a row that write what they may emit do so together. -/
theorem emitParts_writes {parts : List Regex}
    (h : ∀ part ∈ parts, ∀ budget, Writes (part.emit budget : Generator σ Unit) part.Emits)
    (budget : Option Nat) :
    Writes (emitParts parts budget : Generator σ Unit) (EmitsAll parts) := by
  induction parts generalizing budget with
  | nil => exact .nothing
  | cons part parts ih =>
    refine .measure_bind (h part (by simp) _) fun written ↦ ?_
    exact ih (fun other hother ↦ h other (List.mem_cons_of_mem _ hother)) _

/-- The option of a number within the list writes what one of the options may emit. -/
theorem emitOption_writes {options : List Regex}
    (h : ∀ option ∈ options, ∀ budget,
      Writes (option.emit budget : Generator σ Unit) option.Emits)
    {index : Nat} (hindex : index < options.length) (budget : Option Nat) :
    Writes (emitOption options index budget : Generator σ Unit) (EmitsAny options) := by
  induction options generalizing index with
  | nil => cases hindex
  | cons option options ih =>
    cases index with
    | zero => exact (h option (by simp) budget).mono fun _ _ _ ↦ Or.inl
    | succ index =>
      refine (ih (fun other hother ↦ h other (List.mem_cons_of_mem _ hother)) ?_).mono
        fun _ _ _ ↦ Or.inr
      simpa using hindex

/-- The tree from which a string is generated: sized if there is a target. -/
def towards (tree : Regex) : Option Nat → Regex
  | some target => tree.sized target
  | none => tree

/-- A generation writes the tree towards the target, with the target as the budget. -/
theorem generate_eq (tree : Regex) (source : σ) (target : Option Nat) :
    tree.generate source target =
      match ((tree.towards target).emit target).run { source } with
      | .ok _ draft => .ok (draft.text, draft.source)
      | .error error _ => .error error := by
  cases target <;> rfl

/-- A string is generated when the tree is written, towards the target and with the target as the
budget. -/
theorem generate_eq_ok {tree : Regex} {source next : σ} {target : Option Nat} {value : String} :
    tree.generate source target = .ok (value, next) ↔
      ∃ draft, ((tree.towards target).emit target).run { source } = .ok () draft ∧
        draft.text = value ∧ draft.source = next := by
  rw [generate_eq]
  split
  · rename_i draft hrun
    simp [hrun]
  · rename_i error draft hrun
    simp [hrun]

/-- A text is not restructured for a target. -/
theorem towards_ofText (text : List Char) (ignoreCase : Bool) (target : Option Nat) :
    (ofText text ignoreCase).towards target = ofText text ignoreCase := by
  cases target with
  | none => rfl
  | some target => cases text <;> rfl

/-- A text is generated as it is, and nothing is drawn for it. -/
theorem generate_ofText (text : List Char) (ignoreCase : Bool) (source : σ) (target : Option Nat) :
    (ofText text ignoreCase).generate source target = .ok (String.ofList text, source) := by
  rw [generate_eq, towards_ofText]
  cases text with
  | nil => rfl
  | cons c text =>
    show Except.ok (String.ofList ((#[] : Array Char) ++ (c :: text)).toList, source) = _
    rw [Array.toList_appendList, List.nil_append]

variable [RandomSource.Lawful σ]

/-- A well-formed tree writes what it may emit, for every budget. -/
theorem emit_writes {tree : Regex} (h : tree.WellFormed) (budget : Option Nat) :
    Writes (tree.emit budget : Generator σ Unit) tree.Emits := by
  induction tree generalizing budget with
  | empty => exact .nothing
  | literal text ignoreCase => exact .append text
  | set members => exact .pushMember members
  | sequence parts ih =>
    rw [wellFormed_sequence] at h
    exact emitParts_writes (fun part hpart ↦ ih part hpart (h part hpart)) budget
  | choice options ih =>
    rw [wellFormed_choice] at h
    intro before after hrun
    obtain ⟨index, middle, hdraw, hrun⟩ := bind_run_eq_ok.1 hrun
    rw [drawBetween_run] at hdraw
    cases hdraw
    -- The number that is drawn is that of an option.
    have hlength : 0 < options.length := List.length_pos_iff.2 h.1
    have hindex := (RandomSource.Lawful.drawBetween_mem hlength before.source).2
    obtain ⟨text, houtput, hemits⟩ := emitOption_writes
      (fun option hoption ↦ ih option hoption (h.2 option hoption)) hindex budget hrun
    exact ⟨text, houtput, hemits⟩
  | repetition body least most mode ih =>
    rw [wellFormed_repetition] at h
    intro before after hrun
    rw [emit_repetition] at hrun
    obtain ⟨count, middle, hcount, hrun⟩ := bind_run_eq_ok.1 hrun
    -- Drawing the number of copies writes nothing.
    obtain ⟨⟨hleast, hlimit⟩, hcaptures, houtput⟩ := drawCount_run hcount
    obtain ⟨text, htext, hemits⟩ := Writes.copies (ih h.2) _ count budget hrun
    rw [houtput] at htext
    rw [hcaptures] at hemits
    exact ⟨text, htext, count, hleast, Extent.allows_of_le_mostCopies h.1.1 hlimit, hemits⟩
  | group kind body ih =>
    rw [wellFormed_group] at h
    cases kind with
    | capturing number name => exact (ih h budget).capturing _
    | plain => exact ih h budget
    | atomic => exact ih h budget
    | lookahead negated => exact .nothing
    | lookbehind negated => exact .nothing
  | backref id extent => exact .repeatCapture id extent

/-- A string that was generated is one that the tree may emit after it was sized. -/
theorem emits_of_generate {tree : Regex} {source next : σ} {target : Option Nat} {value : String}
    (hwell : (tree.towards target).WellFormed)
    (h : tree.generate source target = .ok (value, next)) :
    ∃ after, (tree.towards target).Emits [] value.toList after := by
  obtain ⟨draft, hrun, rfl, -⟩ := generate_eq_ok.1 h
  obtain ⟨text, houtput, hemits⟩ := emit_writes hwell target hrun
  refine ⟨draft.captures, ?_⟩
  have : draft.text.toList = text := by
    rw [Draft.text, String.toList_ofList, houtput]
    simp
  rwa [this]

end Regex

end Exemplar
