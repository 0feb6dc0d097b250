import Exemplar.Generation.Emit
import Exemplar.Proofs.CharSet.Narrow
import Exemplar.Proofs.Generation.Writing
import Exemplar.Proofs.Regex.Replacing

/-!
# Narrowing keeps the shape of a string

Replacing the sets of a tree changes which characters are written but not how many, as long as no
set loses its last member and no empty set gets one. Two generations from the same source then run
alike (`Generator.Alike`): they take the same options and the same numbers of copies, they draw the
same numbers, and their captures have the same lengths (`emit_mapSets_alike`). So narrowing the
sets of a tree keeps the shape of its strings (`narrowing_keepsShape`).
-/

namespace Exemplar

variable {σ α β : Type}

/-- Both drafts have the same source, outputs of the same length, and captures of the same
lengths. -/
structure Draft.Alike (draft other : Draft σ) : Prop where
  source : other.source = draft.source
  length : other.length = draft.length
  captures (id : GroupId) :
    (other.captures.find? id).map List.length = (draft.captures.find? id).map List.length

/-- Drafts stay alike when texts of the same length are written. -/
theorem Draft.Alike.append {draft other : Draft σ} (h : draft.Alike other) {text text' : List Char}
    (htext : text'.length = text.length) :
    Draft.Alike { draft with output := draft.output ++ text }
      { other with output := other.output ++ text' } where
  source := h.source
  length := by
    have hlength := h.length
    simp only [Draft.length] at hlength ⊢
    rw [Generator.size_append, Generator.size_append, hlength, htext]
  captures := h.captures

namespace Generator

/-- Both steps failed with the same error, or both succeeded with the same value and drafts that are
alike. -/
inductive SameResult : EStateM.Result GenerationError (Draft σ) α →
    EStateM.Result GenerationError (Draft σ) α → Prop where
  | ok {value : α} {after after' : Draft σ} (h : after.Alike after') :
      SameResult (.ok value after) (.ok value after')
  | error {error : GenerationError} {after after' : Draft σ} :
      SameResult (.error error after) (.error error after')

/-- From drafts that are alike, both steps have the same result. -/
def Alike (step other : Generator σ α) : Prop :=
  ∀ ⦃before before' : Draft σ⦄, before.Alike before' →
    SameResult (step.run before) (other.run before')

namespace Alike

/-- Steps without effect are alike. -/
theorem pure (value : α) : Alike (Pure.pure value : Generator σ α) (Pure.pure value) :=
  fun _ _ h ↦ .ok h

/-- Steps in two parts are alike when both parts are. -/
theorem bind {step other : Generator σ α} {next next' : α → Generator σ β}
    (h : Alike step other) (hnext : ∀ value, Alike (next value) (next' value)) :
    Alike (step >>= next) (other >>= next') := by
  intro before before' hbefore
  have hstep := h hbefore
  simp only [EStateM.run, Bind.bind, EStateM.bind] at hstep ⊢
  generalize step before = result at hstep ⊢
  generalize other before' = result' at hstep ⊢
  cases hstep with
  | ok hmiddle => exact hnext _ hmiddle
  | error => exact .error

/-- The same draw is made from the same source. -/
theorem drawBetween [RandomSource σ] (low high : Nat) :
    Alike (Generator.drawBetween low high : Generator σ Nat) (Generator.drawBetween low high) := by
  intro before before' h
  rw [drawBetween_run, drawBetween_run, h.source]
  exact .ok ⟨rfl, h.length, h.captures⟩

/-- The same draw of a word is made from the same source. -/
theorem drawWord [RandomSource σ] :
    Alike (Generator.drawWord : Generator σ Int) Generator.drawWord := by
  intro before before' h
  show SameResult (.ok (RandomSource.drawWord before.source).1 _)
    (.ok (RandomSource.drawWord before'.source).1 _)
  rw [h.source]
  exact .ok ⟨rfl, h.length, h.captures⟩

/-- Texts of the same length are written alike. -/
theorem append {text text' : List Char} (htext : text'.length = text.length) :
    Alike (Generator.append text : Generator σ Unit) (Generator.append text') := by
  intro before before' h
  rw [append_run, append_run]
  exact .ok (h.append htext)

/-- Members of two sets are written alike when both sets have some or none. -/
theorem pushMember [RandomSource σ] {members members' : CharSet}
    (hempty : members'.isEmpty = members.isEmpty) :
    Alike (Generator.pushMember members : Generator σ Unit) (Generator.pushMember members') := by
  refine drawWord.bind fun seed ↦ ?_
  cases hmembers : members.isEmpty with
  | true =>
    rw [hmembers] at hempty
    rw [CharSet.sample_of_isEmpty hmembers, CharSet.sample_of_isEmpty hempty]
    exact fun _ _ _ ↦ .error
  | false =>
    rw [hmembers] at hempty
    obtain ⟨c, hc⟩ := CharSet.exists_sample hmembers seed
    obtain ⟨c', hc'⟩ := CharSet.exists_sample hempty seed
    rw [hc, hc']
    intro before before' h
    have hlength := h.length
    refine .ok ⟨h.source, ?_, h.captures⟩
    simp only [Draft.length] at hlength
    simp [Draft.length, hlength]

/-- Captures of the same length are written again alike. -/
theorem repeatCapture (id : GroupId) :
    Alike (Generator.repeatCapture id : Generator σ Unit) (Generator.repeatCapture id) := by
  intro before before' h
  have hcapture := h.captures id
  rw [repeatCapture_run, repeatCapture_run]
  cases hfound : before.captures.find? id with
  | none =>
    rw [hfound, Option.map_none, Option.map_eq_none_iff] at hcapture
    rw [hcapture]
    exact .error
  | some text =>
    rw [hfound, Option.map_some, Option.map_eq_some_iff] at hcapture
    obtain ⟨text', hfound', htext⟩ := hcapture
    rw [hfound']
    exact .ok (h.append htext)

/-- The number of characters written so far is the same. -/
theorem length : Alike (Generator.length : Generator σ Nat) Generator.length := by
  intro before before' h
  show SameResult (.ok before.length before) (.ok before'.length before')
  rw [h.length]
  exact .ok h

/-- Steps that are alike write as many characters. -/
theorem measure {step other : Generator σ Unit} (h : Alike step other) :
    Alike (Generator.measure step) (Generator.measure other) :=
  length.bind fun _ ↦ h.bind fun _ ↦ length.bind fun _ ↦ pure _

/-- Recording texts of the same length leads to captures of the same lengths. -/
theorem find?_recordAll {captures captures' : Captures} {text text' : List Char}
    (h : ∀ id, (captures'.find? id).map List.length = (captures.find? id).map List.length)
    (htext : text'.length = text.length) (ids : List GroupId) (id : GroupId) :
    ((captures'.recordAll ids text').find? id).map List.length =
      ((captures.recordAll ids text).find? id).map List.length := by
  induction ids generalizing captures captures' with
  | nil => exact h id
  | cons other ids ih =>
    refine ih fun found ↦ ?_
    by_cases hfound : found = other
    · subst hfound
      rw [Captures.find?_record_self, Captures.find?_record_self, Option.map_some, htext,
        Option.map_some]
    · rw [Captures.find?_record_of_ne hfound, Captures.find?_record_of_ne hfound]
      exact h found

/-- Keeping the texts of steps that are alike is alike. -/
theorem capturing {step other : Generator σ Unit} (h : Alike step other) (ids : List GroupId) :
    Alike (Generator.capturing ids step) (Generator.capturing ids other) := by
  refine length.bind fun start ↦ h.bind fun _ before before' hbefore ↦ ?_
  have hlength := hbefore.length
  simp only [Draft.length] at hlength
  refine .ok ⟨hbefore.source, hbefore.length, find?_recordAll hbefore.captures ?_ ids⟩
  simp [hlength]

/-- Copies are alike when single copies are. -/
theorem copies {emit emit' : Option Nat → Generator σ Unit}
    (h : ∀ budget, Alike (emit budget) (emit' budget)) (least count : Nat) (budget : Option Nat) :
    Alike (Generator.copies emit least count budget)
      (Generator.copies emit' least count budget) := by
  induction count generalizing budget with
  | zero => exact pure ()
  | succ count ih => exact (h _).measure.bind fun written ↦ ih _

end Alike

end Generator

namespace Regex

open Generator

variable [RandomSource σ] {replace : CharSet → CharSet}

/-- Parts in a row are written alike when each of them is. -/
theorem emitParts_alike {parts : List Regex} (h : ∀ part ∈ parts, ∀ budget,
      Alike (part.emit budget : Generator σ Unit) ((part.mapSets replace).emit budget))
    (budget : Option Nat) :
    Alike (emitParts parts budget : Generator σ Unit)
      (emitParts (parts.map (mapSets replace)) budget) := by
  induction parts generalizing budget with
  | nil => exact .pure ()
  | cons part parts ih =>
    obtain ⟨hpart, hparts⟩ := List.forall_mem_cons.1 h
    rw [List.map_cons, emitParts, emitParts, extent_mapSets, extents_map_mapSets]
    exact (hpart _).measure.bind fun written ↦ ih hparts _

/-- The options with the same number are written alike when each of the options is. -/
theorem emitOption_alike {options : List Regex}
    (h : ∀ option ∈ options, ∀ budget,
      Alike (option.emit budget : Generator σ Unit) ((option.mapSets replace).emit budget))
    (index : Nat) (budget : Option Nat) :
    Alike (emitOption options index budget : Generator σ Unit)
      (emitOption (options.map (mapSets replace)) index budget) := by
  induction options generalizing index with
  | nil => exact .pure ()
  | cons option options ih =>
    obtain ⟨hoption, hoptions⟩ := List.forall_mem_cons.1 h
    cases index with
    | zero => exact hoption budget
    | succ index => exact ih hoptions index

/-- A tree is written alike after its sets were replaced, if the sets that are empty are the
same. -/
theorem emit_mapSets_alike (hempty : ∀ members, (replace members).isEmpty = members.isEmpty)
    (tree : Regex) (budget : Option Nat) :
    Alike (tree.emit budget : Generator σ Unit) ((tree.mapSets replace).emit budget) := by
  induction tree generalizing budget with
  | empty => exact .pure ()
  | literal text ignoreCase => exact .append rfl
  | set members => exact .pushMember (hempty members)
  | sequence parts ih =>
    rw [mapSets, mapSetsAll_eq_map]
    exact emitParts_alike ih budget
  | choice options ih =>
    rw [mapSets, mapSetsAll_eq_map, emit, emit, List.length_map]
    exact (Alike.drawBetween _ _).bind fun index ↦ emitOption_alike ih index budget
  | repetition body least most mode ih =>
    rw [mapSets, emit_repetition, emit_repetition, extent_mapSets, minLength_mapSets]
    refine Alike.bind ?_ fun count ↦ .copies ih _ count budget
    split
    · exact .drawBetween _ _
    · exact .pure least
  | group kind body ih =>
    cases kind with
    | capturing number name => exact (ih budget).capturing _
    | plain => exact ih budget
    | atomic => exact ih budget
    | lookahead negated => exact .pure ()
    | lookbehind negated => exact .pure ()
  | backref id extent => exact .repeatCapture id

/-- Both generations failed with the same error, or both succeeded with strings of the same length
and with the same source. -/
inductive SameShape :
    Except GenerationError (String × σ) → Except GenerationError (String × σ) → Prop where
  | ok {value value' : String} {next : σ} (h : value'.length = value.length) :
      SameShape (.ok (value, next)) (.ok (value', next))
  | error {error : GenerationError} : SameShape (.error error) (.error error)

/-- Generation keeps its shape when the sets of the tree are replaced, if the sets that are empty
are the same. -/
theorem generate_mapSets_sameShape
    (hempty : ∀ members, (replace members).isEmpty = members.isEmpty) (tree : Regex) (source : σ)
    (target : Option Nat) :
    SameShape (tree.generate source target) ((tree.mapSets replace).generate source target) := by
  have htowards : (tree.mapSets replace).towards target =
      (tree.towards target).mapSets replace := by
    cases target with
    | none => rfl
    | some target => exact sized_mapSets replace tree target
  have hrun := emit_mapSets_alike hempty (tree.towards target) target
    (show Draft.Alike { source } { source } from ⟨rfl, rfl, fun _ ↦ rfl⟩)
  rw [generate_eq, generate_eq, htowards]
  generalize ((tree.towards target).emit target).run { source } = result at hrun ⊢
  generalize (((tree.towards target).mapSets replace).emit target).run { source } =
    result' at hrun ⊢
  cases hrun with
  | ok h =>
    have hlength := h.length
    dsimp only
    rw [h.source]
    exact .ok (by simpa [Draft.text, Draft.length] using hlength)
  | error => exact .error

/-- Narrowing the sets of a tree keeps the shape of its strings. Replacing sets, in whatever way,
does not change what a size in mind makes of the tree. At any level, from any source and with or
without a size in mind, the tree and the narrowed tree either fail with the same error, or write
strings of the same length and leave the same source behind. -/
theorem narrowing_keepsShape (tree : Regex) :
    (∀ (replace : CharSet → CharSet) (target : Nat),
      (tree.sized target).mapSets replace = (tree.mapSets replace).sized target) ∧
    ∀ {σ : Type} [RandomSource σ] (level : Nat) (source : σ) (target : Option Nat),
      SameShape (tree.generate source target)
        ((tree.mapSets fun members ↦ members.narrow level).generate source target) :=
  ⟨fun replace target ↦ (sized_mapSets replace tree target).symm,
    fun level source target ↦
      generate_mapSets_sameShape (fun members ↦ CharSet.isEmpty_narrow members level) tree
        source target⟩

end Regex

end Exemplar
