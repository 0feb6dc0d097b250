import Exemplar.Proofs.CharSet.Algebra
import Exemplar.Proofs.Grammar.Bracket
import Exemplar.Proofs.Grammar.Positions

/-!
# Bracket expressions denote sets

A `BracketTerm` is a bracket expression of any depth: operands between double ampersands, each of
which lists characters, ranges, predefined sets and further expressions. It has a text
(`BracketTerm.render`) and a set (`BracketTerm.eval`), whose members are characters that the
expression stands for (`BracketTerm.mem_eval`).

Reading the text of an item lists its set in the innermost bracket, whatever surrounds the bracket
(`BracketItem.readItems_render`). By induction on the expression, its text is read as its set, and
nothing behind its bracket is touched (`BracketTerm.readBracket_eval`).
-/

namespace Exemplar

open CharSet (canHold renderMember reserved)

/-! ## Expressions -/

mutual
/-- An item of an operand: a character, the characters from a first to a last one, a predefined set
by the letter of its escape, or another expression. -/
inductive BracketItem where
  | char (c : Char)
  | range (first last : Char)
  | predefined (mark : Char)
  | nested (term : BracketTerm)

/-- A bracket expression: operands whose members are intersected, and whether the complement is
taken. -/
inductive BracketTerm where
  | mk (negated : Bool) (operands : List (List BracketItem))
end

mutual
/-- The item can be written: its characters can be held by a set, its range is in order, its letter
has a set. -/
def BracketItem.IsWritten : BracketItem → Prop
  | .char c => canHold c = true
  | .range first last => canHold first = true ∧ canHold last = true ∧ first.toNat ≤ last.toNat
  | .predefined mark => (Escape.sets.lookup mark).isSome = true
  | .nested term => term.IsWritten

/-- The expression can be written: it has at least one operand, and an item or a double
ampersand. -/
def BracketTerm.IsWritten : BracketTerm → Prop
  | .mk _ operands => operands ≠ [] ∧ operands ≠ [[]] ∧ BracketTerm.AreWritten operands

/-- All items of an operand can be written. -/
def BracketTerm.IsOperand : List BracketItem → Prop
  | [] => True
  | item :: items => item.IsWritten ∧ BracketTerm.IsOperand items

/-- All operands can be written. -/
def BracketTerm.AreWritten : List (List BracketItem) → Prop
  | [] => True
  | operand :: operands => BracketTerm.IsOperand operand ∧ BracketTerm.AreWritten operands
end

mutual
/-- The text of an item. -/
def BracketItem.render : BracketItem → List Char
  | .char c => renderMember c
  | .range first last => renderMember first ++ '-' :: renderMember last
  | .predefined mark => ['\\', mark]
  | .nested term => '[' :: term.render

/-- The text of an expression behind its opening bracket. -/
def BracketTerm.render : BracketTerm → List Char
  | .mk negated operands =>
      (if negated then ['^'] else []) ++ BracketTerm.renderOperands operands ++ [']']

/-- The text of an operand. -/
def BracketTerm.renderOperand : List BracketItem → List Char
  | [] => []
  | item :: items => item.render ++ BracketTerm.renderOperand items

/-- The text of operands, with a double ampersand between any two. -/
def BracketTerm.renderOperands : List (List BracketItem) → List Char
  | [] => []
  | [operand] => BracketTerm.renderOperand operand
  | operand :: operands =>
      BracketTerm.renderOperand operand ++ '&' :: '&' :: BracketTerm.renderOperands operands
end

/-- Intersect a set with those before it, if there are any. -/
def CharSet.meet : Option CharSet → CharSet → Option CharSet
  | some members, set => some (members ∩ set)
  | none, set => some set

mutual
/-- The set of an item: characters and ranges with their other cases, sets as they are. -/
def BracketItem.eval (folding : CaseFolding) : BracketItem → CharSet
  | .char c => (CharSet.single c).foldCase folding
  | .range first last => (CharSet.range first last).foldCase folding
  | .predefined mark => (Escape.sets.lookup mark).getD .empty
  | .nested term => term.eval folding

/-- The set of an expression: the intersection of its operands that list something, or no
characters if none does, and the complement of that behind a caret. -/
def BracketTerm.eval (folding : CaseFolding) : BracketTerm → CharSet
  | .mk negated operands =>
      let members :=
        ((BracketTerm.evalOperands folding operands).foldl CharSet.meet none).getD .empty
      if negated then members.negate else members

/-- The union of the items of an operand. -/
def BracketTerm.evalOperand (folding : CaseFolding) : List BracketItem → CharSet
  | [] => .empty
  | item :: items => item.eval folding ∪ BracketTerm.evalOperand folding items

/-- The sets of the operands that list something. -/
def BracketTerm.evalOperands (folding : CaseFolding) : List (List BracketItem) → List CharSet
  | [] => []
  | [] :: operands => BracketTerm.evalOperands folding operands
  | operand :: operands =>
      BracketTerm.evalOperand folding operand :: BracketTerm.evalOperands folding operands
end

mutual
/-- The item stands for the character. -/
def BracketItem.Holds (folding : CaseFolding) : BracketItem → Char → Prop
  | .char other, c => folding.Closure (· = other) c
  | .range first last, c =>
      folding.Closure (fun c ↦ first.toNat ≤ c.toNat ∧ c.toNat ≤ last.toNat) c
  | .predefined mark, c => ∃ members ∈ Escape.sets.lookup mark, c ∈ members
  | .nested term, c => term.Holds folding c

/-- The expression stands for the character: some operand lists something, and each that does has
an item for the character, or the other way round behind a caret. -/
def BracketTerm.Holds (folding : CaseFolding) : BracketTerm → Char → Prop
  | .mk negated operands, c =>
      let listed :=
        (∃ operand ∈ operands, operand ≠ []) ∧ BracketTerm.AllHold folding operands c
      if negated then canHold c = true ∧ ¬ listed else listed

/-- Some item of an operand stands for the character. -/
def BracketTerm.SomeHolds (folding : CaseFolding) : List BracketItem → Char → Prop
  | [], _ => False
  | item :: items, c => item.Holds folding c ∨ BracketTerm.SomeHolds folding items c

/-- All operands that list something have an item for the character. -/
def BracketTerm.AllHold (folding : CaseFolding) : List (List BracketItem) → Char → Prop
  | [], _ => True
  | operand :: operands, c =>
      (operand = [] ∨ BracketTerm.SomeHolds folding operand c) ∧
      BracketTerm.AllHold folding operands c
end

open BracketTerm
  (IsOperand AreWritten renderOperand renderOperands evalOperand evalOperands SomeHolds AllHold)

/-! ## Members -/

namespace CharSet

/-- The members of an intersection of sets, if there are any, are the members of each. -/
theorem mem_foldl_meet {c : Char} {sets : List CharSet} {before : Option CharSet} :
    c ∈ (sets.foldl meet before).getD .empty ↔
      (before ≠ none ∨ sets ≠ []) ∧ (∀ set ∈ before, c ∈ set) ∧ ∀ set ∈ sets,
      c ∈ set := by
  induction sets generalizing before with
  | nil =>
    cases before with
    | none => simp [mem_iff]
    | some members => simp
  | cons set sets ih =>
    rw [List.foldl_cons, ih]
    cases before with
    | none => simp [meet]
    | some members => simp [meet, mem_inter, and_assoc]

end CharSet

namespace BracketTerm

variable {folding : CaseFolding}

/-- An operand that lists something has a set. -/
@[simp] theorem evalOperands_cons_cons (item : BracketItem) (items : List BracketItem)
    (operands : List (List BracketItem)) : evalOperands folding ((item :: items) :: operands) =
      evalOperand folding (item :: items) :: evalOperands folding operands := by
  rw [evalOperands]
  simp

/-- Some operand has a set when some operand lists something. -/
theorem evalOperands_ne_nil (folding : CaseFolding) {operands : List (List BracketItem)} :
    evalOperands folding operands ≠ [] ↔ ∃ operand ∈ operands, operand ≠ [] := by
  induction operands with
  | nil => simp [evalOperands]
  | cons operand operands ih =>
    cases operand with
    | nil => simp [evalOperands, ih]
    | cons item items => simp

end BracketTerm

mutual
/-- The members of the set of an item are the characters that it stands for. -/
theorem BracketItem.mem_eval (folding : CaseFolding) (c : Char) :
    (item : BracketItem) → item.IsWritten → (c ∈ item.eval folding ↔ item.Holds folding c)
  | .char other, h => by
      have hmem (c : Char) : c ∈ CharSet.single other ↔ c = other := by
        rw [CharSet.mem_single]
        exact ⟨fun hc ↦ hc.1, fun hc ↦ ⟨hc, hc ▸ h⟩⟩
      exact CharSet.mem_foldCase_iff hmem folding c
  | .range first last, h => by
      obtain ⟨-, hlast, -⟩ := h
      have hmem (c : Char) :
          c ∈ CharSet.range first last ↔
            first.toNat ≤ c.toNat ∧ c.toNat ≤ last.toNat := by
        rw [CharSet.mem_range]
        refine and_iff_left_of_imp fun hc ↦ decide_eq_true ?_
        exact Nat.le_trans hc.2 (of_decide_eq_true hlast)
      exact CharSet.mem_foldCase_iff hmem folding c
  | .predefined mark, h => by
      obtain ⟨members, hmembers⟩ := Option.isSome_iff_exists.1 h
      simp [BracketItem.eval, BracketItem.Holds, hmembers]
  | .nested term, h => term.mem_eval folding c h

/-- The members of the set of an expression are the characters that it stands for. -/
theorem BracketTerm.mem_eval (folding : CaseFolding) (c : Char) :
    (term : BracketTerm) → term.IsWritten → (c ∈ term.eval folding ↔ term.Holds folding c)
  | .mk negated operands, h => by
      have hlisted : c ∈ ((evalOperands folding operands).foldl CharSet.meet none).getD .empty ↔
          (∃ operand ∈ operands, operand ≠ []) ∧ AllHold folding operands c := by
        rw [CharSet.mem_foldl_meet, ← BracketTerm.evalOperands_ne_nil folding,
          ← BracketTerm.forall_mem_evalOperands folding c operands h.2.2]
        simp
      rw [BracketTerm.eval, BracketTerm.Holds]
      split
      · rw [CharSet.mem_negate, hlisted]
      · exact hlisted

/-- The members of the set of an operand are the characters for which it has an item. -/
theorem BracketTerm.mem_evalOperand (folding : CaseFolding) (c : Char) :
    (operand : List BracketItem) → IsOperand operand →
      (c ∈ evalOperand folding operand ↔ SomeHolds folding operand c)
  | [], _ => by simp [evalOperand, SomeHolds, CharSet.mem_iff]
  | item :: items, h => by
      rw [evalOperand, SomeHolds, CharSet.mem_union, item.mem_eval folding c h.1,
        BracketTerm.mem_evalOperand folding c items h.2]

/-- A character is a member of all sets of operands when each operand that lists something has an
item for it. -/
theorem BracketTerm.forall_mem_evalOperands (folding : CaseFolding) (c : Char) :
    (operands : List (List BracketItem)) → AreWritten operands →
      ((∀ set ∈ evalOperands folding operands, c ∈ set) ↔ AllHold folding operands c)
  | [], _ => by simp [evalOperands, AllHold]
  | [] :: operands, h => by
      rw [evalOperands, AllHold, BracketTerm.forall_mem_evalOperands folding c operands h.2]
      simp
  | (item :: items) :: operands, h => by
      rw [BracketTerm.evalOperands_cons_cons, AllHold, List.forall_mem_cons,
        BracketTerm.mem_evalOperand folding c (item :: items) h.1,
        BracketTerm.forall_mem_evalOperands folding c operands h.2]
      simp
end

/-! ## What a text goes on with -/

/-- The letter of a predefined set is no letter of another escape. -/
theorem Escape.of_lookup_sets {mark : Char} (h : (Escape.sets.lookup mark).isSome = true) :
    Escape.controls.lookup mark = none ∧ mark ≠ 'Q' := by
  have hmem : mark ∈ Escape.sets.map (·.1) := by
    obtain ⟨members, hmembers⟩ := Option.isSome_iff_exists.1 h
    obtain ⟨before, after, hsets, -⟩ := List.lookup_eq_some_iff.1 hmembers
    rw [hsets]
    simp
  have hall : ∀ mark ∈ Escape.sets.map (·.1), Escape.controls.lookup mark = none ∧
      mark ≠ 'Q' :=
    List.all_iff_forall_prop.1 (by decide)
  exact hall mark hmem

/-- The text goes on with a double ampersand. -/
theorem atMember_ampersands (rest : List Char) : AtMember ('&' :: '&' :: rest) :=
  ⟨by simp, by simp, by simp⟩

/-- The text goes on with another expression. -/
theorem atMember_nested (rest : List Char) : AtMember ('[' :: rest) :=
  ⟨by simp, by simp, by simp⟩

/-- The text goes on with a predefined set. -/
theorem atMember_predefined {mark : Char} (h : (Escape.sets.lookup mark).isSome = true)
    (rest : List Char) : AtMember ('\\' :: mark :: rest) := by
  refine ⟨by simp, by simp, fun more heq ↦ ?_⟩
  cases heq
  exact (Escape.of_lookup_sets h).2 rfl

/-- The text goes on with an item. -/
theorem BracketItem.atMember {item : BracketItem} (h : item.IsWritten) (rest : List Char) :
    AtMember (item.render ++ rest) := by
  cases item with
  | char c => exact (CharSet.spells_renderMember h).atMember rest
  | range first last =>
    rw [render, List.append_assoc]
    exact (CharSet.spells_renderMember h.1).atMember _
  | predefined mark => exact atMember_predefined h rest
  | nested term => exact atMember_nested (term.render ++ rest)

/-- The text goes on with the items of an operand, if there are any. -/
theorem BracketTerm.atMember_renderOperand {operand : List BracketItem} (h : IsOperand operand)
    {rest : List Char} (hrest : AtMember rest) : AtMember (renderOperand operand ++ rest) := by
  cases operand with
  | nil => exact hrest
  | cons item items =>
    rw [renderOperand, List.append_assoc]
    exact item.atMember h.1 _

/-- The text goes on with operands and with the end of the expression. -/
theorem BracketTerm.atMember_renderOperands {operands : List (List BracketItem)}
    (h : AreWritten operands) (rest : List Char) :
    AtMember (renderOperands operands ++ ']' :: rest) := by
  cases operands with
  | nil => exact atMember_bracket rest
  | cons operand operands =>
    cases operands with
    | nil => exact atMember_renderOperand h.1 (atMember_bracket rest)
    | cons next operands =>
      rw [renderOperands, List.append_assoc]
      · exact atMember_renderOperand h.1 (atMember_ampersands _)
      · simp

/-! ## What is listed -/

namespace CharSet

/-- A union with no characters is the set. -/
@[simp] theorem union_empty (set : CharSet) : set ∪ empty = set :=
  ext_of_contains fun c ↦ by simp [contains_union]

/-- A union with no characters is the set. -/
@[simp] theorem empty_union (set : CharSet) : empty ∪ set = set :=
  ext_of_contains fun c ↦ by simp [contains_union]

/-- Unions may be regrouped. -/
theorem union_assoc (first second third : CharSet) :
    first ∪ second ∪ third = first ∪ (second ∪ third) :=
  ext_of_contains fun c ↦ by simp [contains_union, Bool.or_assoc]

end CharSet

namespace Bracket

variable {folding : CaseFolding}

/-- List the items of an operand one after the other. -/
def listItems (folding : CaseFolding) (bracket : Bracket) (items : List BracketItem) : Bracket :=
  items.foldl (fun bracket item ↦
    bracket.listing (bracket.current.addSet (item.eval folding))) bracket

/-- List the items of operands, each in an operand of its own. -/
def listOperands (folding : CaseFolding) : Bracket → List (List BracketItem) → Bracket
  | bracket, [] => bracket
  | bracket, [operand] => bracket.listItems folding operand
  | bracket, operand :: operands =>
      (bracket.listItems folding operand).nextOperand.listOperands folding operands

/-- Items that are listed are added to the current operand. -/
theorem listItems_eq (bracket : Bracket) (items : List BracketItem) :
    bracket.listItems folding items = { bracket with
      current := bracket.current.addSet (evalOperand folding items)
      listed := bracket.listed || !items.isEmpty
      first := bracket.first && items.isEmpty } := by
  induction items generalizing bracket with
  | nil => simp [listItems, evalOperand, CharSet.Builder.addSet]
  | cons item items ih =>
    rw [listItems, List.foldl_cons, ← listItems, ih, evalOperand]
    simp [listing, CharSet.Builder.addSet, CharSet.union_assoc]

/-- The bracket begins an operand: the operand lists nothing yet. -/
structure IsFresh (folding : CaseFolding) (bracket : Bracket) : Prop where
  listed : bracket.listed = false
  current : bracket.current = .start folding

namespace IsFresh

variable {bracket : Bracket} {operand : List BracketItem} {operands : List (List BracketItem)}

/-- A bracket that is opened begins an operand. -/
theorem opened (folding : CaseFolding) (negated : Bool) :
    (Bracket.opened folding negated).IsFresh folding :=
  ⟨rfl, rfl⟩

/-- The next operand is begun. -/
theorem nextOperand (h : bracket.IsFresh folding) (operand : List BracketItem) :
    (bracket.listItems folding operand).nextOperand.IsFresh folding := by
  refine ⟨rfl, ?_⟩
  rw [Bracket.nextOperand, listItems_eq, h.current]
  rfl

/-- The items of an operand are intersected with the operands before it, unless there are none. -/
theorem intersection_listItems (h : bracket.IsFresh folding) :
    (bracket.listItems folding operand).intersection =
      (evalOperands folding [operand]).foldl CharSet.meet bracket.operands := by
  rw [listItems_eq, intersection, h.listed, h.current]
  cases operand with
  | nil => simp [evalOperands]
  | cons item items =>
    cases bracket.operands <;>
      simp [evalOperands, CharSet.meet, CharSet.Builder.build, CharSet.Builder.addSet,
        CharSet.Builder.start]

/-- The sets of operands are intersected one after the other. -/
theorem intersection_listOperands (h : bracket.IsFresh folding) :
    (bracket.listOperands folding operands).intersection =
      (evalOperands folding operands).foldl CharSet.meet bracket.operands := by
  induction operands generalizing bracket with
  | nil =>
    rw [listOperands, intersection, h.listed]
    rfl
  | cons operand operands ih =>
    have hsplit : evalOperands folding (operand :: operands) =
        evalOperands folding [operand] ++ evalOperands folding operands := by
      cases operand with
      | nil => simp [evalOperands]
      | cons item items => simp [evalOperands]
    cases operands with
    | nil => exact h.intersection_listItems
    | cons next operands =>
      rw [listOperands, ih (h.nextOperand operand), hsplit, List.foldl_append,
        ← h.intersection_listItems]
      · rfl
      · simp

end IsFresh

/-- Listing operands does not decide about the complement. -/
theorem negated_listOperands (bracket : Bracket) (operands : List (List BracketItem)) :
    (bracket.listOperands folding operands).negated = bracket.negated := by
  induction operands generalizing bracket with
  | nil => rfl
  | cons operand operands ih =>
    cases operands with
    | nil => rw [listOperands, listItems_eq]
    | cons next operands =>
      rw [listOperands, ih, nextOperand, listItems_eq]
      simp

/-- A bracket that was opened and whose operands were listed has the set of the expression. -/
theorem result_listOperands (folding : CaseFolding) (negated : Bool)
    (operands : List (List BracketItem)) :
    ((opened folding negated).listOperands folding operands).result =
      (BracketTerm.mk negated operands).eval folding := by
  rw [result, (IsFresh.opened folding negated).intersection_listOperands, negated_listOperands,
    BracketTerm.eval]
  rfl

/-! ## Reading -/

/-- Go on behind an expression that has a set: list the set in the bracket around it, if there is
one. -/
def resume (members : CharSet) :
    (enclosing : List Bracket) → Cursor → Except Located (CharSet × Cursor)
  | [], cursor => .ok (members, cursor)
  | outer :: enclosing, cursor =>
      (outer.listing (outer.current.addSet members)).readItems false enclosing cursor

variable {bracket : Bracket} {rest : List Char}

/-- A closing bracket that does not come first closes the innermost expression. -/
theorem readItems_close (hfirst : bracket.first = false) (enclosing : List Bracket)
    (rest : List Char) (position : Nat) :
    bracket.readItems false enclosing ⟨']' :: rest, position⟩ =
      resume bracket.result enclosing ⟨rest, position + 1⟩ := by
  have hitem := readItem_close hfirst enclosing rest position
  cases enclosing with
  | nil => exact readItems_of_closed hitem
  | cons outer enclosing => exact readItems_of_more hitem

/-- A double ampersand begins the next operand. -/
theorem readItems_ampersands (bracket : Bracket) (enclosing : List Bracket) (rest : List Char)
    (position : Nat) : bracket.readItems false enclosing ⟨'&' :: '&' :: rest, position⟩ =
      bracket.nextOperand.readItems false enclosing ⟨rest, position + 2⟩ := by
  have hskip := Cursor.unskipped_of_unquoted (atMember_ampersands rest).unquoted position
  refine readItems_of_more ?_
  simp only [readItem, hskip]
  rw [if_neg (by simp), if_neg (by simp), if_pos (by simp)]
  rfl

/-- An opening bracket begins another expression. -/
theorem readItems_open (bracket : Bracket) (enclosing : List Bracket) (rest : List Char)
    (position : Nat) : bracket.readItems false enclosing ⟨'[' :: rest, position⟩ =
      (openAt bracket.current.folding ⟨rest, position + 1⟩).1.readItems false
        (bracket :: enclosing) (openAt bracket.current.folding ⟨rest, position + 1⟩).2 := by
  have hskip := Cursor.unskipped_of_unquoted (atMember_nested rest).unquoted position
  refine readItems_of_more ?_
  simp only [readItem, hskip]
  rw [if_neg (by simp), if_pos trivial]

/-- The escape of a predefined set lists the set. -/
theorem readItems_predefined (bracket : Bracket) (enclosing : List Bracket) {mark : Char}
    {members : CharSet} (h : Escape.sets.lookup mark = some members) (rest : List Char)
    (position : Nat) : bracket.readItems false enclosing ⟨'\\' :: mark :: rest, position⟩ =
      (bracket.listing (bracket.current.addSet members)).readItems false enclosing
        ⟨rest, position + 2⟩ := by
  have hsome : (Escape.sets.lookup mark).isSome = true := by rw [h, Option.isSome_some]
  have hcontrol := (Escape.of_lookup_sets hsome).1
  have hskip := Cursor.unskipped_of_unquoted (atMember_predefined hsome rest).unquoted position
  have hescape : Reader.readEscape position mark = pure (.set members) := by
    unfold Reader.readEscape
    rw [hcontrol, h]
  refine readItems_of_more ?_
  simp only [readItem, hskip]
  rw [if_neg (by simp), if_neg (by simp), if_neg (by simp), if_pos trivial]
  have hlist : (Reader.listEscape false bracket.current position).run
      ⟨mark :: rest, position + 1⟩ =
      .ok (bracket.current.addSet members, ⟨rest, position + 2⟩) := by
    have hnext : Reader.next?.run ⟨mark :: rest, position + 1⟩ =
        .ok (some mark, ⟨rest, position + 2⟩) := rfl
    rw [Reader.listEscape, StateT.run_bind, hnext]
    simp only [bind, Except.bind, hescape]
    rfl
  rw [hlist]
  rfl

end Bracket

open Exemplar.Bracket (openAt opened resume)

-- The induction is on the expression, for any brackets around it. What follows an item begins with
-- no hyphen, because a character in front of a hyphen would begin a range.
mutual
/-- The text of an item is read as its set, which is listed in the innermost bracket. -/
theorem BracketItem.readItems_render {folding : CaseFolding} (enclosing : List Bracket)
    {rest : List Char} (hrest : AtMember rest) :
    (item : BracketItem) → item.IsWritten → (bracket : Bracket) →
    bracket.current.folding = folding →
      (position : Nat) → ∃ stop,
        bracket.readItems false enclosing ⟨item.render ++ rest, position⟩ =
          (bracket.listing (bracket.current.addSet (item.eval folding))).readItems false enclosing
            ⟨rest, stop⟩
  | .char c, h, bracket, hfolding, position => by
      obtain ⟨stop, hitem⟩ := bracket.readItem_spelled enclosing (CharSet.spells_renderMember h)
        (fun start ↦ Reader.reads_listRange_char h hrest start) position
      exact ⟨stop, hfolding ▸ Bracket.readItems_of_more hitem⟩
  | .range first last, h, bracket, hfolding, position => by
      obtain ⟨hfirst, hlast, hle⟩ := h
      obtain ⟨stop, hitem⟩ :=
        bracket.readItem_spelled enclosing (CharSet.spells_renderMember hfirst)
        (fun start ↦ Reader.reads_listRange hfirst hlast hle
          (CharSet.spells_renderMember hlast) rest start) position
      rw [BracketItem.render, List.append_assoc]
      exact ⟨stop, hfolding ▸ Bracket.readItems_of_more hitem⟩
  | .predefined mark, h, bracket, _, position => by
      obtain ⟨members, hmembers⟩ := Option.isSome_iff_exists.1 h
      refine ⟨position + 2, ?_⟩
      rw [BracketItem.eval, hmembers, Option.getD_some]
      exact bracket.readItems_predefined enclosing hmembers rest position
  | .nested term, h, bracket, hfolding, position => by
      obtain ⟨stop, hread⟩ :=
        BracketTerm.readItems_render (bracket :: enclosing) rest term h folding (position + 1)
      refine ⟨stop, ?_⟩
      rw [BracketItem.render, List.cons_append, Bracket.readItems_open, hfolding, hread]
      rfl

/-- The text of an operand is read as its items, which are listed in the innermost bracket. -/
theorem BracketTerm.readItems_renderOperand {folding : CaseFolding} (enclosing : List Bracket)
    {rest : List Char} (hrest : AtMember rest) :
    (operand : List BracketItem) → IsOperand operand → (bracket : Bracket) →
      bracket.current.folding = folding → (position : Nat) → ∃ stop,
        bracket.readItems false enclosing ⟨renderOperand operand ++ rest, position⟩ =
          (bracket.listItems folding operand).readItems false enclosing ⟨rest, stop⟩
  | [], _, _, _, position => ⟨position, rfl⟩
  | item :: items, h, bracket, hfolding, position => by
      obtain ⟨middle, hitem⟩ := item.readItems_render enclosing
        (BracketTerm.atMember_renderOperand h.2 hrest) h.1 bracket hfolding position
      obtain ⟨stop, hitems⟩ := BracketTerm.readItems_renderOperand enclosing hrest items h.2
        (bracket.listing (bracket.current.addSet (item.eval folding))) hfolding middle
      refine ⟨stop, ?_⟩
      rw [renderOperand, List.append_assoc, hitem, hitems]
      rfl

/-- The text of operands is read up to the bracket that closes the expression. -/
theorem BracketTerm.readItems_renderOperands {folding : CaseFolding} (enclosing : List Bracket)
    (rest : List Char) :
    (operands : List (List BracketItem)) → operands ≠ [] → AreWritten operands →
    (bracket : Bracket) →
      bracket.current.folding = folding → bracket.first = false ∨ operands ≠ [[]] →
      (position : Nat) →
        ∃ stop, bracket.readItems false enclosing
          ⟨renderOperands operands ++ ']' :: rest, position⟩ =
          resume (bracket.listOperands folding operands).result enclosing ⟨rest, stop⟩
  | [operand], _, h, bracket, hfolding, hsome, position => by
      obtain ⟨middle, hoperand⟩ :=
        BracketTerm.readItems_renderOperand enclosing (atMember_bracket rest)
        operand h.1 bracket hfolding position
      have hfirst : (bracket.listItems folding operand).first = false := by
        rw [Bracket.listItems_eq]
        rcases hsome with hfirst | hsome
        · simp [hfirst]
        · simpa using fun _ hnil ↦ hsome (by rw [hnil])
      refine ⟨middle + 1, ?_⟩
      rw [renderOperands, hoperand, Bracket.readItems_close hfirst]
      rfl
  | operand :: next :: operands, _, h, bracket, hfolding, _, position => by
      obtain ⟨middle, hoperand⟩ := BracketTerm.readItems_renderOperand enclosing
        (atMember_ampersands (renderOperands (next :: operands) ++ ']' :: rest)) operand h.1 bracket
        hfolding position
      have hnext : (bracket.listItems folding operand).nextOperand.current.folding = folding := by
        rw [Bracket.nextOperand, Bracket.listItems_eq]
        exact hfolding
      obtain ⟨stop, hoperands⟩ :=
        BracketTerm.readItems_renderOperands enclosing rest (next :: operands)
        (by simp) h.2 (bracket.listItems folding operand).nextOperand hnext (.inl rfl) (middle + 2)
      refine ⟨stop, ?_⟩
      rw [renderOperands, List.append_assoc]
      · exact hoperand.trans ((Bracket.readItems_ampersands ..).trans hoperands)
      · simp

/-- The text of an expression is read as its set, whatever surrounds the expression. -/
theorem BracketTerm.readItems_render (enclosing : List Bracket) (rest : List Char) :
    (term : BracketTerm) → term.IsWritten → (folding : CaseFolding) →
    (position : Nat) → ∃ stop,
      (openAt folding ⟨term.render ++ rest, position⟩).1.readItems false enclosing
          (openAt folding ⟨term.render ++ rest, position⟩).2 =
        resume (term.eval folding) enclosing ⟨rest, stop⟩
  | .mk negated operands, h, folding, position => by
      obtain ⟨hne, hsome, hwritten⟩ := h
      have hread (position : Nat) :=
        BracketTerm.readItems_renderOperands enclosing rest operands hne
        hwritten (opened folding negated) (rfl : _ = folding) (.inr hsome) position
      simp only [Bracket.result_listOperands] at hread
      rw [BracketTerm.render, List.append_assoc, List.append_assoc, List.singleton_append]
      cases negated with
      | false =>
        have hcaret := (BracketTerm.atMember_renderOperands hwritten rest).no_caret
        simp only [Bool.false_eq_true, if_false, List.nil_append]
        rw [openAt, if_neg hcaret]
        exact hread position
      | true => exact hread (position + 1)
end

/-- Where blanks are characters like any other, the text of an expression is read up to its closing
bracket and not beyond, as the set of the expression. The members of the set are the characters that
the expression stands for. -/
theorem BracketTerm.readBracket_eval {flags : Flags} (hcomments : flags.comments = false)
    {term : BracketTerm} (h : term.IsWritten) (rest : List Char) (position : Nat) :
    readBracket flags ⟨term.render ++ rest, position⟩ =
        .ok (term.eval flags.folding, ⟨rest, position + term.render.length⟩) ∧
      ∀ c, c ∈ term.eval flags.folding ↔ term.Holds flags.folding c := by
  refine ⟨?_, fun c ↦ term.mem_eval flags.folding c h⟩
  obtain ⟨stop, hread⟩ := BracketTerm.readItems_render [] rest term h flags.folding position
  have hread : readBracket flags ⟨term.render ++ rest, position⟩ =
      .ok (term.eval flags.folding, ⟨rest, stop⟩) := by
    rw [readBracket, hcomments]
    exact hread
  -- The cursor stays in the text, so what was read is what is no longer left.
  have hon := Cursor.on_replicate ⟨term.render ++ rest, position⟩
  have hlength : stop + rest.length = position + (term.render ++ rest).length :=
    ((on_readBracket hon flags).ok hread).length_eq.trans hon.length_eq.symm
  rw [List.length_append] at hlength
  rw [hread, show stop = position + term.render.length by omega]

/-- The consonants. -/
def BracketTerm.consonants : BracketTerm :=
  .mk false [[.range 'a' 'z'],
    [.nested (.mk true [[.char 'a', .char 'e', .char 'i', .char 'o', .char 'u']])]]

/-- The consonants are read up to their closing bracket. -/
theorem BracketTerm.readBracket_eval_consonants :
    ({ ignoreCase := true } : Flags).comments = false ∧ consonants.IsWritten ∧
      "a-z&&[^aeiou]]+".toList = consonants.render ++ ['+'] ∧
      readBracket { ignoreCase := true } ⟨"a-z&&[^aeiou]]+".toList, 1⟩ =
        .ok (consonants.eval .ascii, ⟨['+'], 15⟩) := by
  have hwritten : consonants.IsWritten := by
    simp +decide [consonants, IsWritten, AreWritten, IsOperand, BracketItem.IsWritten]
  have htext : "a-z&&[^aeiou]]+".toList = consonants.render ++ ['+'] := by decide
  refine ⟨rfl, hwritten, htext, ?_⟩
  rw [htext]
  exact (readBracket_eval rfl hwritten ['+'] 1).1

end Exemplar
