import Exemplar.Proofs.CharSet.Equality
import Exemplar.Proofs.Generation.Writing
import Exemplar.Proofs.Random.Script
import Exemplar.Proofs.Regex.Shares

/-!
# Every string can be generated

Whatever a tree may emit is written from some script (`emit_reaches`), as long as its repetitions
have limits below the largest size: above it, the range of the counts would be empty. The script
has the draws in the order in which the tree is written: the number of a member for each set, of an
option for each choice, and of the copies for each repetition that leaves a choice of them. Every
draw lies in the range that is asked for, so no member, no option and no number of copies is out of
reach (`exists_generate_of_emits`).
-/

namespace Exemplar

namespace Generator

variable {α : Type} {step : Generator Script Unit} {emission later : Emission}

/-- Two texts in a row extend an output as the joined text does. -/
theorem append_append (output : Array Char) (left right : List Char) :
    output ++ left ++ right = output ++ (left ++ right) := by
  rw [← Array.toList_inj, Array.toList_appendList, Array.toList_appendList,
    Array.toList_appendList, List.append_assoc]

/-- With the given draws, the step writes a text. The step makes these draws and no other ones. -/
def Plays (step : Generator Script Unit) (draws : List Nat) (before : Captures) (text : List Char)
    (after : Captures) : Prop :=
  ∀ (rest : List Nat) (output : Array Char),
    step.run ⟨⟨draws ++ rest⟩, before, output⟩ =
      .ok () ⟨⟨rest⟩, after, output ++ text⟩

/-- A draw from a range, and then a step that goes on with the number that was drawn. -/
theorem Plays.drawBetween_bind {low high draw : Nat} {draws : List Nat}
    {next : Nat → Generator Script Unit} {before after : Captures} {text : List Char}
    (h : Plays (next draw) draws before text after) (hlow : low ≤ draw) (hhigh : draw < high) :
    Plays (Generator.drawBetween low high >>= next) (draw :: draws) before text after := by
  intro rest output
  refine bind_run_eq_ok.2 ⟨draw, ⟨⟨draws ++ rest⟩, before, output⟩, ?_, h rest output⟩
  rw [drawBetween_run, List.cons_append, Script.drawBetween_cons hlow hhigh]

/-- A step can write whatever the emission admits. -/
def Reaches (step : Generator Script Unit) (emission : Emission) : Prop :=
  ∀ ⦃before text after⦄, emission before text after →
    ∃ draws, Plays step draws before text after

namespace Reaches

/-- Doing nothing reaches the empty text. -/
theorem nothing : Reaches (pure () : Generator Script Unit) (.ofText []) := by
  rintro before text after ⟨rfl, rfl⟩
  exact ⟨[], fun rest output ↦ by simp [EStateM.run, pure, EStateM.pure]⟩

/-- Writing a text reaches it. -/
theorem append (text : List Char) : Reaches (Generator.append text) (.ofText text) := by
  rintro before _ after ⟨rfl, rfl⟩
  exact ⟨[], fun rest output ↦ append_run ..⟩

/-- Writing a member of a set reaches every member. -/
theorem pushMember (members : CharSet) :
    Reaches (Generator.pushMember members) (Regex.set members).Emits := by
  rintro before _ after ⟨c, hc, rfl, rfl⟩
  obtain ⟨index, hindex, hsample⟩ := CharSet.exists_sample_eq_of_mem hc
  have hword : index < 0x8000000000000000 := by
    have := members.weight_le
    omega
  refine ⟨[index], fun rest output ↦
    bind_run_eq_ok.2 ⟨index, ⟨⟨rest⟩, after, output⟩, ?_, ?_⟩⟩
  · rw [drawWord_run, List.cons_append, Script.drawWord_cons hword]
    rfl
  · rw [hsample]
    show EStateM.Result.ok () _ = EStateM.Result.ok () _
    simp

/-- Writing the text of a group again reaches that text. -/
theorem repeatCapture (id : GroupId) (extent : Extent) :
    Reaches (Generator.repeatCapture id) (Regex.backref id extent).Emits := by
  rintro before text after ⟨hfound, rfl⟩
  refine ⟨[], fun rest output ↦ ?_⟩
  rw [repeatCapture_run, hfound]
  rfl

/-- Keeping the text under several groups reaches what the step reaches. -/
theorem capturing (ids : List GroupId) (h : Reaches step emission) :
    Reaches (Generator.capturing ids step) (emission.capturing ids) := by
  rintro before text after ⟨inner, hemits, rfl⟩
  obtain ⟨draws, hplays⟩ := h hemits
  refine ⟨draws, fun rest output ↦ ?_⟩
  have htext : ((output ++ text).extract output.size (output ++ text).size).toList = text :=
    toList_extract_of_append Array.toList_appendList
  rw [capturing_run (hplays rest output) ids]
  dsimp only
  rw [htext]

/-- A measured part and then the rest reach what both reach, whatever the count is. -/
theorem measure_bind {rest : Nat → Generator Script Unit} (h : Reaches step emission)
    (hrest : ∀ written, Reaches (rest written) later) :
    Reaches (Generator.measure step >>= rest) (emission.andThen later) := by
  rintro before _ after ⟨left, middle, right, hleft, hright, rfl⟩
  obtain ⟨draws, hplays⟩ := h hleft
  obtain ⟨draws', hplays'⟩ := hrest left.length hright
  refine ⟨draws ++ draws', fun unused output ↦ ?_⟩
  have hstep := hplays (draws' ++ unused) output
  have hlater := hplays' unused (output ++ left)
  rw [List.append_assoc]
  refine bind_run_eq_ok.2 ⟨left.length, _, measure_run_eq_ok.2 ⟨hstep, ?_⟩, ?_⟩
  · rw [Draft.length, Draft.length, size_append, Nat.add_sub_cancel_left]
  · rw [hlater, append_append]

/-- A number of copies reaches what the copies reach. -/
theorem copies {emit : Option Nat → Generator Script Unit}
    (h : ∀ budget, Reaches (emit budget) emission) (least count : Nat) (budget : Option Nat) :
    Reaches (Generator.copies emit least count budget) (emission.copies count) := by
  induction count generalizing budget with
  | zero => exact nothing
  | succ count ih => exact measure_bind (h _) fun written ↦ ih _

end Reaches

end Generator

namespace Regex

open Generator

variable {parts options : List Regex} {tree : Regex}

/-- Parts in a row reach what they may emit together. -/
theorem emitParts_reaches
    (h : ∀ part ∈ parts, ∀ budget, Reaches (part.emit budget) part.Emits)
    (budget : Option Nat) : Reaches (emitParts parts budget) (EmitsAll parts) := by
  induction parts generalizing budget with
  | nil => exact .nothing
  | cons part parts ih =>
    obtain ⟨hpart, hparts⟩ := List.forall_mem_cons.1 h
    exact .measure_bind (hpart _) fun written ↦ ih hparts _

/-- Some option of the list is written with a text that one of the options may emit. -/
theorem exists_emitOption_plays
    (h : ∀ option ∈ options, ∀ budget, Reaches (option.emit budget) option.Emits)
    {before after : Captures} {text : List Char} (hemits : EmitsAny options before text after)
    (budget : Option Nat) :
    ∃ index < options.length, ∃ draws,
      Plays (emitOption options index budget) draws before text after := by
  induction options with
  | nil => exact hemits.elim
  | cons option options ih =>
    obtain ⟨hoption, hoptions⟩ := List.forall_mem_cons.1 h
    rcases hemits with hemits | hemits
    · obtain ⟨draws, hplays⟩ := hoption budget hemits
      exact ⟨0, Nat.succ_pos _, draws, hplays⟩
    · obtain ⟨index, hindex, draws, hplays⟩ := ih hoptions hemits
      exact ⟨index + 1, Nat.succ_lt_succ hindex, draws, hplays⟩

/-- The limit of a repetition lies below the largest size, so that every number of copies up to the
limit can be drawn. -/
def IsDrawable : Regex → Prop
  | repetition _ _ most _ => most < .ofExact Size.largest
  | _ => True

instance : DecidablePred IsDrawable
  | repetition _ _ most _ => inferInstanceAs (Decidable (most < .ofExact Size.largest))
  | empty | literal .. | set _ | sequence _ | choice _ | group .. | backref .. => isTrue trivial

/-- A repetition with a limit below the largest size reaches every number of copies that it
allows. -/
theorem emit_repetition_reaches {body : Regex} {least : Nat} {most : Bound} {mode : RepetitionMode}
    (hmost : most < .ofExact Size.largest) (h : ∀ budget, Reaches (body.emit budget) body.Emits)
    (budget : Option Nat) :
    Reaches ((repetition body least most mode).emit budget)
      (repetition body least most mode).Emits := by
  rintro before text after ⟨count, hleast, hcount, hcopies⟩
  obtain ⟨draws, hplays⟩ := Reaches.copies h body.minLength count budget hcopies
  cases most with
  | unbounded => exact absurd (Bound.le_unbounded _) hmost.2
  | finite limit isSize =>
    have hcount : count ≤ limit := hcount
    -- One more than the limit is a size, so the range has the limit in it.
    have hwrap : Size.addWrapped limit 1 = limit + 1 := by
      have hlargest : Size.largest = Size.modulus - 1 := rfl
      have hlt : ¬ Bound.ofExact Size.largest ≤ .finite limit isSize := hmost.2
      rw [Bound.ofExact_of_lt (show Size.largest < Size.modulus by omega),
        Bound.finite_le_finite] at hlt
      exact Size.addWrapped_eq (by omega)
    rw [emit_repetition]
    split
    · refine ⟨count :: draws, Plays.drawBetween_bind hplays hleast ?_⟩
      rw [show Extent.mostCopies .. = limit from rfl, hwrap]
      omega
    · rename_i hlimit
      have hlimit : ¬ limit > least := hlimit
      obtain rfl : count = least := by omega
      exact ⟨draws, hplays⟩

/-- A tree reaches all that it may emit, with every budget, if its repetitions have limits below the
largest size. -/
theorem emit_reaches (h : ∀ node ∈ tree.visible, node.IsDrawable) (budget : Option Nat) :
    Reaches (tree.emit budget) tree.Emits := by
  induction tree generalizing budget with
  | empty => exact .nothing
  | literal text ignoreCase => exact .append text
  | set members => exact .pushMember members
  | sequence parts ih =>
    rw [forall_visible_sequence] at h
    exact emitParts_reaches (fun part hpart ↦ ih part hpart (h.2 part hpart)) budget
  | choice options ih =>
    rw [forall_visible_choice] at h
    intro before text after hemits
    obtain ⟨index, hindex, draws, hplays⟩ := exists_emitOption_plays
      (fun option hoption ↦ ih option hoption (h.2 option hoption)) hemits budget
    exact ⟨index :: draws, Plays.drawBetween_bind hplays (Nat.zero_le index) hindex⟩
  | repetition body least most mode ih =>
    rw [forall_visible_repetition] at h
    exact emit_repetition_reaches h.1 (ih h.2) budget
  | group kind body ih =>
    rw [forall_visible_group] at h
    cases kind with
    | capturing number name => exact .capturing _ (ih (h.2 rfl) budget)
    | plain => exact ih (h.2 rfl) budget
    | atomic => exact ih (h.2 rfl) budget
    | lookahead negated => exact .nothing
    | lookbehind negated => exact .nothing
  | backref id extent => exact .repeatCapture id extent

/-- Every string that a tree may emit when no group has captured anything is generated without a
target from some source whose draws keep to the ranges that are asked for, if the repetitions of
the tree have limits below the largest size. -/
theorem exists_generate_of_emits
    (h : ∀ (body : Regex) (least : Nat) (most : Bound) (mode : RepetitionMode),
      repetition body least most mode ∈ tree.visible → most < .ofExact Size.largest)
    {value : String} {after : Captures} (hemits : tree.Emits [] value.toList after) :
    ∃ (σ : Type) (_ : RandomSource σ) (_ : RandomSource.KeepsToRanges σ) (source next : σ),
      tree.generate source none = .ok (value, next) := by
  have hdrawable : ∀ node ∈ tree.visible, node.IsDrawable := by
    intro node hnode
    cases node with
    | repetition body least most mode => exact h body least most mode hnode
    | _ => trivial
  obtain ⟨draws, hplays⟩ := emit_reaches hdrawable none hemits
  have hrun := hplays [] #[]
  rw [List.append_nil] at hrun
  refine ⟨Script, inferInstance, inferInstance, ⟨draws⟩, ⟨[]⟩,
    generate_eq_ok.2 ⟨_, hrun, ?_, rfl⟩⟩
  simp [Draft.text]

/-- A letter, up to three copies of it, and an option with several letters. -/
def echoedLetter : Regex :=
  .sequence
    [.group (.capturing 1 none) (.set (.range 'a' 'c')),
     .repetition (.backref (.index 1) (.ofLength 1)) 1 (.ofExact 3) .greedy,
     .choice [.literal ['x'] false, .set (.range 'y' 'z')]]

/-- The string with the most copies, from the last option and with its last member, is generated. -/
theorem exists_generate_echoedLetter :
    (∀ (body : Regex) (least : Nat) (most : Bound) (mode : RepetitionMode),
      repetition body least most mode ∈ echoedLetter.visible → most < .ofExact Size.largest) ∧
    ∃ after, echoedLetter.Emits [] "bbbbz".toList after ∧
      ∃ (σ : Type) (_ : RandomSource σ) (_ : RandomSource.KeepsToRanges σ) (source next : σ),
        echoedLetter.generate source none = .ok ("bbbbz", next) := by
  have hdrawable : ∀ node ∈ echoedLetter.visible, node.IsDrawable := by decide +kernel
  have hlimits (body : Regex) (least : Nat) (most : Bound) (mode : RepetitionMode)
      (h : repetition body least most mode ∈ echoedLetter.visible) :
        most < .ofExact Size.largest :=
    hdrawable _ h
  have hemits : echoedLetter.Emits [] "bbbbz".toList [(.index 1, ['b'])] := by
    have hletter : (group (.capturing 1 none) (.set (.range 'a' 'c'))).Emits [] ['b']
        [(.index 1, ['b'])] :=
      ⟨[], ⟨'b', by decide +kernel, rfl, rfl⟩, rfl⟩
    have hcopy : (backref (.index 1) (.ofLength 1)).Emits [(.index 1, ['b'])] ['b']
        [(.index 1, ['b'])] :=
      ⟨rfl, rfl⟩
    have hcopies : (backref (.index 1) (.ofLength 1)).Emits.copies 3 [(.index 1, ['b'])]
        ['b', 'b', 'b'] [(.index 1, ['b'])] :=
      ⟨_, _, _, hcopy,
      ⟨_, _, _, hcopy, ⟨_, _, _, hcopy, ⟨rfl, rfl⟩, rfl⟩, rfl⟩, rfl⟩
    have hlast : (choice [.literal ['x'] false, .set (.range 'y' 'z')]).Emits
        [(.index 1, ['b'])] ['z']
        [(.index 1, ['b'])] := .inr (.inl ⟨'z', by decide +kernel, rfl, rfl⟩)
    exact ⟨_, _, _, hletter, ⟨_, _, _, ⟨3, by decide, by decide +kernel, hcopies⟩,
      ⟨_, _, _, hlast, ⟨rfl, rfl⟩, rfl⟩, rfl⟩, rfl⟩
  exact ⟨hlimits, _, hemits, exists_generate_of_emits hlimits hemits⟩

end Regex

end Exemplar
