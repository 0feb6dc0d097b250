import Exemplar.Generation.Draft
import Exemplar.Proofs.Regex.Induction
import Exemplar.Regex.Sized
import Mathlib.Order.Basic

/-!
# What a tree may emit

`tree.Emits before text after` says that the tree may stand for `text` when the groups have captured
`before`, and that they have captured `after` behind it. The relation leaves every choice open, and
it knows no budget and no random source: a set emits one member, a choice emits one option, a
repetition emits any number of copies between its counts, a capturing group records its text, and a
backreference emits what its group recorded last. Lookarounds emit nothing.

Emissions are put together by `andThen`, `copies` and `capturing`. They are ordered by inclusion,
and the three operations keep that order.
-/

namespace Exemplar

/-- A relation between captures, a text that is written, and the captures behind it. -/
abbrev Emission := Captures → List Char → Captures → Prop

/-- Keep a text as what several groups captured now. -/
def Captures.recordAll (captures : Captures) (ids : List GroupId) (text : List Char) : Captures :=
  ids.foldl (fun captures id ↦ captures.record id text) captures

namespace Emission

/-- Writing a given text. -/
def ofText (text : List Char) : Emission := fun before written after ↦
  written = text ∧ after = before

/-- Writing with one emission and then with another. -/
def andThen (first second : Emission) : Emission := fun before text after ↦
  ∃ left middle right, first before left middle ∧ second middle right after ∧
    text = left ++ right

/-- Writing a number of times in a row. -/
def copies (body : Emission) : Nat → Emission
  | 0 => ofText []
  | count + 1 => body.andThen (body.copies count)

/-- Writing, and recording the text under several groups. -/
def capturing (ids : List GroupId) (body : Emission) : Emission := fun before text after ↦
  ∃ inner, body before text inner ∧ after = inner.recordAll ids text

variable {first second third body : Emission}

/-- Writing nothing first changes nothing. -/
@[simp] theorem ofText_nil_andThen (second : Emission) : (ofText []).andThen second = second := by
  funext before text after
  refine propext ⟨?_, fun h ↦ ⟨[], before, text, ⟨rfl, rfl⟩, h, rfl⟩⟩
  rintro ⟨left, middle, right, ⟨rfl, rfl⟩, h, rfl⟩
  exact h

/-- Writing nothing afterwards changes nothing. -/
@[simp] theorem andThen_ofText_nil (first : Emission) : first.andThen (ofText []) = first := by
  funext before text after
  refine propext ⟨?_, fun h ↦ ⟨text, after, [], h, ⟨rfl, rfl⟩, by simp⟩⟩
  rintro ⟨left, middle, right, h, ⟨rfl, rfl⟩, rfl⟩
  simpa using h

/-- It does not matter how emissions in a row are put together. -/
theorem andThen_assoc (first second third : Emission) :
    (first.andThen second).andThen third = first.andThen (second.andThen third) := by
  funext before text after
  refine propext ⟨?_, ?_⟩
  · rintro ⟨_, _, right, ⟨left, middle, inner, hfirst, hsecond, rfl⟩, hthird, rfl⟩
    exact ⟨left, middle, inner ++ right, hfirst,
      ⟨inner, _, right, hsecond, hthird, rfl⟩, by simp⟩
  · rintro ⟨left, middle, _, hfirst, ⟨inner, later, right, hsecond, hthird, rfl⟩, rfl⟩
    exact ⟨left ++ inner, later, right, ⟨left, middle, inner, hfirst, hsecond, rfl⟩,
      hthird, by simp⟩

/-- Writing two texts in a row is writing the joined text. -/
theorem ofText_andThen_ofText (left right : List Char) :
    (ofText left).andThen (ofText right) = ofText (left ++ right) := by
  funext before text after
  refine propext ⟨?_, ?_⟩
  · rintro ⟨_, _, _, ⟨rfl, rfl⟩, ⟨rfl, rfl⟩, rfl⟩
    exact ⟨rfl, rfl⟩
  · rintro ⟨rfl, rfl⟩
    exact ⟨left, after, right, ⟨rfl, rfl⟩, ⟨rfl, rfl⟩, rfl⟩

/-- Writing once is writing. -/
@[simp] theorem copies_one (body : Emission) : body.copies 1 = body :=
  andThen_ofText_nil body

/-- Emissions in a row grow with both of them. -/
theorem andThen_mono {first' second' : Emission} (hfirst : first ≤ first')
    (hsecond : second ≤ second') : first.andThen second ≤ first'.andThen second' := by
  rintro before text after ⟨left, middle, right, hleft, hright, rfl⟩
  exact ⟨left, middle, right, hfirst _ _ _ hleft, hsecond _ _ _ hright, rfl⟩

/-- Copies grow with what is copied. -/
theorem copies_mono {body' : Emission} (h : body ≤ body') (count : Nat) :
    body.copies count ≤ body'.copies count := by
  induction count with
  | zero => exact le_rfl
  | succ count ih => exact andThen_mono h ih

/-- A capturing emission grows with its body. -/
theorem capturing_mono {body' : Emission} (h : body ≤ body') (ids : List GroupId) :
    body.capturing ids ≤ body'.capturing ids := by
  rintro before text after ⟨inner, hbody, rfl⟩
  exact ⟨inner, h _ _ _ hbody, rfl⟩

end Emission

namespace Regex

mutual
/-- What a tree may emit. -/
def Emits : Regex → Emission
  | empty => .ofText []
  | literal text _ => .ofText text
  | set members => fun before text after ↦ ∃ c ∈ members, text = [c] ∧ after = before
  | sequence parts => EmitsAll parts
  | choice options => EmitsAny options
  | repetition body least most _ => fun before text after ↦
      ∃ count, least ≤ count ∧ most.Allows count ∧
        (Emits body).copies count before text after
  | group (.capturing number name) body => (Emits body).capturing (groupIds number name)
  | group .plain body => Emits body
  | group .atomic body => Emits body
  | group (.lookahead _) _ => .ofText []
  | group (.lookbehind _) _ => .ofText []
  | backref id _ => fun before text after ↦ before.find? id = some text ∧ after = before

/-- What several trees in a row may emit. -/
def EmitsAll : List Regex → Emission
  | [] => .ofText []
  | part :: parts => (Emits part).andThen (EmitsAll parts)

/-- What one of several trees may emit. -/
def EmitsAny : List Regex → Emission
  | [] => fun _ _ _ ↦ False
  | option :: options => fun before text after ↦
      Emits option before text after ∨ EmitsAny options before text after
end

/-- One of several trees emits a text when a listed tree does. -/
theorem emitsAny_iff {options : List Regex} {before after : Captures} {text : List Char} :
    EmitsAny options before text after ↔
      ∃ option ∈ options, option.Emits before text after := by
  induction options with
  | nil => simp [EmitsAny]
  | cons option options ih => simp [EmitsAny, ih]

/-- More options emit more. -/
theorem emitsAny_mono {fewer more : List Regex} (h : ∀ option ∈ fewer, option ∈ more) :
    EmitsAny fewer ≤ EmitsAny more := by
  intro before text after hfewer
  obtain ⟨option, hoption, hemits⟩ := emitsAny_iff.1 hfewer
  exact emitsAny_iff.2 ⟨option, h option hoption, hemits⟩

/-- A tree of a text emits that text. -/
@[simp] theorem emits_ofText (text : List Char) (ignoreCase : Bool) :
    (ofText text ignoreCase).Emits = .ofText text := by
  cases text <;> rfl

/-- A tree of parts in a row emits what the parts emit. -/
@[simp] theorem emits_inSequence (parts : List Regex) :
    (inSequence parts).Emits = EmitsAll parts := by
  cases parts <;> rfl

/-- A tree of options emits what the options emit, as long as there are some. -/
theorem emits_anyOf {options : List Regex} (h : options ≠ []) :
    (anyOf options).Emits = EmitsAny options := by
  cases options with
  | nil => exact absurd rfl h
  | cons option options => rfl

/-- A group that is no assertion and captures nothing emits what its body emits, and a capturing
group records its text. -/
theorem emits_group_mono {kind : GroupKind} {body body' : Regex} (h : body.Emits ≤ body'.Emits) :
    (group kind body).Emits ≤ (group kind body').Emits := by
  cases kind with
  | capturing number name => exact Emission.capturing_mono h _
  | plain => exact h
  | atomic => exact h
  | lookahead => exact le_rfl
  | lookbehind => exact le_rfl

/-- A repetition emits more when its body does and when its bound allows more copies. -/
theorem emits_repetition_mono {body body' : Regex} {least : Nat} {most most' : Bound}
    {mode mode' : RepetitionMode} (hbody : body.Emits ≤ body'.Emits)
    (hmost : ∀ count, most.Allows count → most'.Allows count) :
    (repetition body least most mode).Emits ≤ (repetition body' least most' mode').Emits := by
  rintro before text after ⟨count, hleast, hallows, hcopies⟩
  exact ⟨count, hleast, hmost count hallows, Emission.copies_mono hbody count _ _ _ hcopies⟩

end Regex

end Exemplar
