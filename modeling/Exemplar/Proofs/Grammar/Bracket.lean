import Exemplar.Grammar.Bracket
import Exemplar.Proofs.CharSet.Equality
import Exemplar.Proofs.Grammar.Spelling

/-!
# Bracket expressions are read back

The bracket expression of a set lists the ranges of the set or of its complement. Each range that is
read adds its characters to the bracket (`readItems_renderRange`), so the expression is read back as
the union of its ranges (`readItems_ranges`), which is the set (`readBracket_render`).
-/

namespace Exemplar

open CharSet (canHold reserved renderMember renderRange)

/-- The text goes on with a member of a set or with the end of the set: it begins with no mark of a
range, of a complement or of a quotation. -/
structure AtMember (text : List Char) : Prop where
  no_hyphen : text.head? ≠ some '-'
  no_caret : text.head? ≠ some '^'
  unquoted (more : List Char) : text ≠ '\\' :: 'Q' :: more

/-- The text goes on with a member that is spelled. -/
theorem Spells.atMember {c : Char} {text : List Char} (h : Spells reserved c text)
    (rest : List Char) : AtMember (text ++ rest) := by
  cases h with
  | plain hplain =>
    refine ⟨fun heq ↦ ?_, fun heq ↦ ?_, fun more heq ↦ ?_⟩
    · cases heq
      exact hplain (by decide)
    · cases heq
      exact hplain (by decide)
    · cases heq
      exact hplain (by decide)
  | escape hmark hreads =>
    refine ⟨by simp, by simp, fun more heq ↦ ?_⟩
    cases heq
    exact absurd hmark (by decide)

/-- The text goes on with the end of a set. -/
theorem atMember_bracket (rest : List Char) : AtMember (']' :: rest) :=
  ⟨by simp, by simp, by simp⟩

namespace Reader

variable {builder : CharSet.Builder} {first last : Char} {text rest : List Char}

/-- A character that a set can hold is a member. -/
theorem reads_member {c : Char} (h : canHold c = true) (position : Nat) :
    (member c position).Reads rest c rest := by
  unfold member
  rw [if_pos h]
  exact .pure

/-- The end of a range is read. -/
theorem reads_rangeEnd (htext : Spells reserved last text) (hlast : canHold last = true) :
    (rangeEnd false).Reads (text ++ rest) (some last) rest := by
  refine .position fun start ↦
    (reads_skip (Cursor.unskipped_of_unquoted (htext.atMember rest).unquoted)).bind
    (reads_peek?.bind ?_)
  cases htext with
  | plain hplain =>
    simp only [reserved, List.mem_cons, List.not_mem_nil, or_false, not_or] at hplain
    split
    · contradiction
    · simp_all
    · simp_all
    · simp_all
    · rename_i heq
      cases heq
      exact (reads_drop _ 1).bind ((reads_member hlast start).bind .pure)
  | escape hmark hreads =>
    refine (reads_drop _ 1).bind (reads_next?.bind ((hreads start rest).bind ?_))
    exact (reads_member hlast start).bind .pure

/-- A character that is not followed by a hyphen is listed. -/
theorem reads_listRange_char (hfirst : canHold first = true) (h : AtMember rest) (start : Nat) :
    (listRange false builder first start).Reads rest (builder.addChar first) rest := by
  refine (reads_member hfirst start).bind
    ((reads_skip (Cursor.unskipped_of_unquoted h.unquoted)).bind ?_)
  refine (reads_eat_of_ne h.no_hyphen).bind ?_
  rw [if_neg (by simp)]
  exact .pure

/-- A character that is followed by a hyphen and another character is listed with all characters up
to that one. -/
theorem reads_listRange (hfirst : canHold first = true) (hlast : canHold last = true)
    (hle : first.toNat ≤ last.toNat) (htext : Spells reserved last text) (rest : List Char)
    (start : Nat) :
    (listRange false builder first start).Reads ('-' :: text ++ rest)
      (builder.addRange first last) rest := by
  refine (reads_member hfirst start).bind
    ((reads_skip (Cursor.unskipped_of_unquoted (by simp))).bind (reads_eat.bind ?_))
  rw [if_pos rfl]
  refine .position fun stop ↦ (reads_rangeEnd htext hlast).bind ?_
  have hge : ¬ last < first := Nat.not_lt.2 hle
  simp only [if_neg hge]
  exact .pure

end Reader

namespace Bracket

variable {rest after : List Char}

/-- A member that is spelled is listed in the innermost expression, with what follows it. -/
theorem readItem_spelled (bracket : Bracket) (enclosing : List Bracket) {c : Char}
    {text : List Char} (htext : Spells reserved c text) {builder : CharSet.Builder}
    (h : ∀ start, (Reader.listRange false bracket.current c start).Reads rest builder after)
    (position : Nat) :
    ∃ stop, bracket.readItem false enclosing ⟨text ++ rest, position⟩ =
      .ok (.more (bracket.listing builder) enclosing ⟨after, stop⟩) := by
  have hskip := Cursor.unskipped_of_unquoted (htext.atMember rest).unquoted position
  cases htext with
  | plain hplain =>
    simp only [reserved, List.mem_cons, List.not_mem_nil, or_false, not_or] at hplain
    obtain ⟨stop, hstop⟩ := h position (position + 1)
    rw [List.singleton_append] at hskip ⊢
    refine ⟨stop, ?_⟩
    simp only [readItem, hskip]
    rw [if_neg (by simp [hplain]), if_neg hplain.2.1, if_neg (by simp [hplain]), if_neg hplain.1,
      hstop]
    rfl
  | @escape mark more hmark hreads =>
    have hlist : (Reader.listEscape false bracket.current position).Reads
        (mark :: (more ++ rest)) builder after :=
      Reader.reads_next?.bind ((hreads position rest).bind (h position))
    obtain ⟨stop, hstop⟩ := hlist (position + 1)
    rw [List.cons_append, List.cons_append] at hskip ⊢
    refine ⟨stop, ?_⟩
    simp only [readItem, hskip]
    rw [if_neg (by simp), if_neg (by simp), if_neg (by simp), if_pos trivial, hstop]
    rfl

/-- What is read next goes on from what an item leads to. -/
theorem readItems_of_more {bracket inner : Bracket} {enclosing outer : List Bracket}
    {cursor next : Cursor}
    (h : bracket.readItem false enclosing cursor = .ok (.more inner outer next)) :
    bracket.readItems false enclosing cursor = inner.readItems false outer next := by
  rw [readItems]
  split
  · simp_all
  · simp_all
  · rename_i heq
    cases h.symm.trans heq
    rfl

/-- Nothing is read behind the bracket that closes the outermost expression. -/
theorem readItems_of_closed {bracket : Bracket} {enclosing : List Bracket} {cursor next : Cursor}
    {members : CharSet} (h : bracket.readItem false enclosing cursor = .ok (.closed members next)) :
    bracket.readItems false enclosing cursor = .ok (members, next) := by
  rw [readItems]
  split
  · simp_all
  · rename_i heq
    cases h.symm.trans heq
    rfl
  · simp_all

/-- A closing bracket that does not come first closes the innermost expression. -/
theorem readItem_close {bracket : Bracket} (hfirst : bracket.first = false)
    (enclosing : List Bracket) (rest : List Char) (position : Nat) :
    bracket.readItem false enclosing ⟨']' :: rest, position⟩ =
      .ok (bracket.close enclosing ⟨rest, position + 1⟩) := by
  have hskip := Cursor.unskipped_of_unquoted (atMember_bracket rest).unquoted position
  simp only [readItem, hskip]
  rw [if_pos ⟨trivial, hfirst⟩]

/-- The text of a range lists all characters from its first to its last. -/
theorem readItems_renderRange {bracket : Bracket} {first last : Char}
    (hle : first.toNat ≤ last.toNat) (hfirst : canHold first = true) (hlast : canHold last = true)
    (hfolding : bracket.current.folding = .none) (hrest : AtMember rest) (position : Nat) :
    ∃ stop, bracket.readItems false [] ⟨renderRange first last ++ rest, position⟩ =
      (bracket.listing (bracket.current.addRange first last)).readItems false []
        ⟨rest, stop⟩ := by
  have hspelled := CharSet.spells_renderMember hfirst
  have hspelled' := CharSet.spells_renderMember hlast
  unfold renderRange
  split
  · subst last
    obtain ⟨stop, hitem⟩ := bracket.readItem_spelled [] hspelled
      (fun start ↦ Reader.reads_listRange_char hfirst hrest start) position
    exact ⟨stop, readItems_of_more hitem⟩
  · rename_i hne
    split
    · obtain ⟨stop, hitem⟩ := bracket.readItem_spelled [] hspelled
        (fun start ↦ Reader.reads_listRange hfirst hlast hle hspelled' rest start) position
      rw [List.append_assoc]
      exact ⟨stop, readItems_of_more hitem⟩
    · rename_i hnext
      -- Two neighbours are listed one after the other.
      have hsucc : last.toNat = first.toNat + 1 := by
        have : first.toNat ≠ last.toNat := fun heq ↦ hne (Char.toNat_inj.1 heq)
        omega
      obtain ⟨middle, hitem⟩ := bracket.readItem_spelled [] hspelled
        (fun start ↦ Reader.reads_listRange_char hfirst (hspelled'.atMember rest) start) position
      obtain ⟨stop, hitem'⟩ :=
        (bracket.listing (bracket.current.addChar first)).readItem_spelled []
        hspelled' (fun start ↦ Reader.reads_listRange_char hlast hrest start) middle
      refine ⟨stop, ?_⟩
      have hboth : (bracket.current.addChar first).addChar last =
          bracket.current.addRange first last := by
        simp only [CharSet.Builder.addChar, CharSet.Builder.addRange, hfolding,
          CharSet.foldCase_none, CharSet.union_single_union_single _ hsucc]
      rw [List.append_assoc, readItems_of_more hitem, readItems_of_more hitem', ← hboth]
      rfl

/-- Ranges whose ends are in order and can be held by a set. -/
def AreRanges (ranges : List (Char × Char)) : Prop :=
  ∀ ends ∈ ranges, ends.1.toNat ≤ ends.2.toNat ∧ canHold ends.1 = true ∧
    canHold ends.2 = true

/-- The text goes on with ranges, if there are any, and with the end of the set. -/
theorem atMember_ranges {ranges : List (Char × Char)} (h : AreRanges ranges) (rest : List Char) :
    AtMember (ranges.flatMap (fun ends ↦ renderRange ends.1 ends.2) ++ ']' :: rest) := by
  cases ranges with
  | nil => exact atMember_bracket rest
  | cons ends ranges =>
    have hspelled := CharSet.spells_renderMember (h ends (by simp)).2.1
    rw [List.flatMap_cons, renderRange]
    split
    · rw [List.append_assoc]
      exact hspelled.atMember _
    · split
      · rw [List.append_assoc, List.append_assoc]
        exact hspelled.atMember _
      · rw [List.append_assoc, List.append_assoc]
        exact hspelled.atMember _

/-- The expression of several ranges is read as their union with what is listed before. -/
theorem readItems_ranges {ranges : List (Char × Char)} (h : AreRanges ranges) (negated : Bool)
    (members : CharSet) {listed first : Bool}
    (hsome : ranges ≠ [] ∨ first = false ∧ listed = true) (position : Nat) :
    let union := ranges.foldl (fun set ends ↦ set ∪ CharSet.range ends.1 ends.2) members
    ∃ stop, (Bracket.mk negated none ⟨members, .none, false⟩ listed first).readItems false []
        ⟨ranges.flatMap (fun ends ↦ renderRange ends.1 ends.2) ++ ']' :: rest, position⟩ =
      .ok (if negated then union.negate else union, ⟨rest, stop⟩) := by
  induction ranges generalizing members listed first position with
  | nil =>
    obtain ⟨rfl, rfl⟩ : first = false ∧ listed = true := by simpa using hsome
    refine ⟨position + 1, ?_⟩
    exact readItems_of_closed (readItem_close rfl [] rest position)
  | cons ends ranges ih =>
    obtain ⟨⟨hle, hfirst, hlast⟩, hranges⟩ := List.forall_mem_cons.1 h
    let bracket : Bracket := ⟨negated, none, ⟨members, .none, false⟩, listed, first⟩
    have hfolding : bracket.current.folding = .none := rfl
    obtain ⟨middle, hread⟩ := readItems_renderRange hle hfirst hlast hfolding
      (atMember_ranges hranges rest) position
    obtain ⟨stop, hrest⟩ := ih hranges (members ∪ CharSet.range ends.1 ends.2)
      (.inr ⟨rfl, rfl⟩) middle
    refine ⟨stop, ?_⟩
    rw [List.flatMap_cons, List.append_assoc, hread, List.foldl_cons, ← hrest, listing,
      CharSet.Builder.addRange, CharSet.foldCase_none]

end Bracket

namespace CharSet

/-- A set is written as ranges, or as the ranges of its complement behind a caret. -/
theorem render_eq (set : CharSet) : ∃ (negated : Bool) (ranges : List (Char × Char)),
    ranges ≠ [] ∧ Bracket.AreRanges ranges ∧
    set.render = '[' :: ((if negated then ['^'] else []) ++
      ranges.flatMap (fun ends ↦ renderRange ends.1 ends.2) ++ [']']) ∧
    set = (let union := ranges.foldl (fun set ends ↦ set ∪ range ends.1 ends.2) empty
      if negated then union.negate else union) := by
  have hwhole : [('\x00', '\uffff')].foldl
      (fun set ends ↦ set ∪ range ends.1 ends.2) empty = any := by
    decide +kernel
  have hends : Bracket.AreRanges [('\x00', '\uffff')] := by
    intro ends hends
    rw [List.mem_singleton.1 hends]
    decide
  have hranges (set : CharSet) (hweight : set.weight ≠ 0) :
      set.ranges ≠ [] ∧ Bracket.AreRanges set.ranges := by
    refine ⟨fun hnil ↦ hweight ?_, fun ends hends ↦ of_mem_ranges hends⟩
    rw [weight, List.map_eq_nil_iff.1 hnil]
    rfl
  unfold render
  split
  · rename_i hfull
    refine ⟨false, [('\x00', '\uffff')], by simp, hends, by decide, ?_⟩
    rw [hwhole]
    exact eq_any_of_weight hfull
  · rename_i hfull
    split
    · rename_i hempty
      refine ⟨true, [('\x00', '\uffff')], by simp, hends, by decide, ?_⟩
      rw [eq_empty_of_weight hempty, hwhole]
      decide +kernel
    · rename_i hempty
      split
      · have hweight : set.negate.weight ≠ 0 := by
          intro hzero
          have hset := congrArg negate (eq_empty_of_weight hzero)
          rw [negate_negate] at hset
          rw [hset] at hfull
          exact hfull (by decide +kernel)
        refine ⟨true, set.negate.ranges, (hranges _ hweight).1, (hranges _ hweight).2, rfl, ?_⟩
        rw [foldl_range_eq, if_pos rfl, negate_negate]
      · refine ⟨false, set.ranges, (hranges _ hempty).1, (hranges _ hempty).2, rfl, ?_⟩
        rw [foldl_range_eq, if_neg (by simp)]

/-- The bracket expression of a set is read back as the set. -/
theorem readBracket_render (set : CharSet) : ∃ text, set.render = '[' :: text ∧
    ∀ rest position, ∃ stop,
      readBracket .none ⟨text ++ rest, position⟩ = .ok (set, ⟨rest, stop⟩) := by
  obtain ⟨negated, ranges, hsome, hranges, hrender, hset⟩ := render_eq set
  refine ⟨_, hrender, fun rest position ↦ ?_⟩
  have hread (position : Nat) : ∃ stop, (Bracket.opened .none negated).readItems false []
      ⟨ranges.flatMap (fun ends ↦ renderRange ends.1 ends.2) ++ ']' :: rest, position⟩ =
        .ok (set, ⟨rest, stop⟩) :=
    hset ▸ Bracket.readItems_ranges hranges negated empty (.inl hsome) position
  clear hset
  cases negated with
  | false =>
    have hcaret := (Bracket.atMember_ranges hranges rest).no_caret
    obtain ⟨stop, hstop⟩ := hread position
    refine ⟨stop, ?_⟩
    simp only [Bool.false_eq_true, if_false, List.nil_append, List.append_assoc,
      List.singleton_append]
    rw [readBracket, Bracket.openAt, if_neg hcaret]
    exact hstop
  | true =>
    obtain ⟨stop, hstop⟩ := hread (position + 1)
    refine ⟨stop, ?_⟩
    simp only [if_true, List.append_assoc, List.cons_append, List.nil_append]
    exact hstop

end CharSet

end Exemplar
