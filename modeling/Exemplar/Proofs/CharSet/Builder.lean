import Exemplar.Proofs.CharSet.Equality

/-!
# Calls on a builder

A row of calls on a builder is described without the builder: the edits of the members act on the
empty set one after the other, and the complement is taken after an odd number of negations
(`described`). A builder that is driven by the calls keeps to the description (`Follows`), so every
set that it gives on the way is the described one, and what it gave before leaves no trace
(`answers_described`).
-/

namespace Exemplar.CharSet.Builder

/-- A change of the members of a builder: add a character or a range of characters with their other
cases, add the members of a set as they are, or keep those that are in a set. -/
inductive Edit where
  | addChar (c : Char)
  | addRange (first last : Char)
  | addSet (set : CharSet)
  | keep (set : CharSet)
  deriving DecidableEq

/-- A call on a builder: edit its members, take the complement at the end or no longer take it, or
ask for the set that was built. -/
inductive Call where
  | edit (edit : Edit)
  | negate
  | build
  deriving DecidableEq

/-- The builder after a call. -/
def call (builder : Builder) : Call → Builder
  | .edit (.addChar c) => builder.addChar c
  | .edit (.addRange first last) => builder.addRange first last
  | .edit (.addSet set) => builder.addSet set
  | .edit (.keep set) => builder.keep set
  | .negate => builder.negate
  | .build => builder

/-- The sets that a builder gives when it is asked for them. -/
def answers (builder : Builder) : List Call → List CharSet
  | [] => []
  | .build :: calls => builder.build :: answers builder calls
  | other :: calls => answers (builder.call other) calls

/-! ## The description -/

/-- What an edit makes of a set. -/
def Edit.onto (folding : CaseFolding) (set : CharSet) : Edit → CharSet
  | addChar c => set ∪ (single c).foldCase folding
  | addRange first last => set ∪ (range first last).foldCase folding
  | addSet other => set ∪ other
  | keep other => set ∩ other

/-- The edit that a call makes, if it makes one. -/
def Call.edit? : Call → Option Edit
  | edit made => some made
  | negate | build => none

/-- The members to which the edits in a row of calls lead. -/
def listed (folding : CaseFolding) (calls : List Call) : CharSet :=
  (calls.filterMap Call.edit?).foldl (Edit.onto folding) empty

/-- The set that a row of calls describes. -/
def described (folding : CaseFolding) (calls : List Call) : CharSet :=
  if calls.count .negate % 2 = 1 then (listed folding calls).negate else listed folding calls

/-- A last call acts on what the others list. -/
theorem listed_concat (folding : CaseFolding) (calls : List Call) (last : Call) :
    listed folding (calls ++ [last]) =
      last.edit?.elim (listed folding calls) (Edit.onto folding (listed folding calls)) := by
  rw [listed, List.filterMap_append, List.foldl_append, ← listed]
  cases last <;> rfl

/-! ## What a builder gives -/

/-- A call keeps the case maps. -/
theorem call_folding (builder : Builder) (next : Call) :
    (builder.call next).folding = builder.folding := by
  rcases next with (_ | _ | _ | _) | _ | _ <;> rfl

/-- A call acts on the members as the edit that it makes. -/
theorem call_members (builder : Builder) (next : Call) :
    (builder.call next).members =
      next.edit?.elim builder.members (Edit.onto builder.folding builder.members) := by
  rcases next with (_ | _ | _ | _) | _ | _ <;> rfl

/-- Only a negation changes whether the complement is taken. -/
theorem call_negated (builder : Builder) (next : Call) :
    (builder.call next).negated = if next = .negate then !builder.negated else builder.negated := by
  rcases next with (_ | _ | _ | _) | _ | _ <;> rfl

/-- A builder is as a row of calls describes it: it has the case maps with which it was started and
the members that the calls list, and it takes the complement after an odd number of negations. -/
structure Follows (folding : CaseFolding) (calls : List Call) (builder : Builder) : Prop where
  folding_eq : builder.folding = folding
  members_eq : builder.members = listed folding calls
  negated_eq : builder.negated = decide (calls.count .negate % 2 = 1)

variable {folding : CaseFolding} {calls : List Call} {builder : Builder}

/-- A builder without members is as no calls describe it. -/
theorem follows_start (folding : CaseFolding) : Follows folding [] (start folding) where
  folding_eq := rfl
  members_eq := rfl
  negated_eq := rfl

/-- A call takes a builder to where the row of calls that ends with it describes it. -/
theorem Follows.call (h : Follows folding calls builder) (next : Call) :
    Follows folding (calls ++ [next]) (builder.call next) where
  folding_eq := by rw [call_folding, h.folding_eq]
  members_eq := by rw [call_members, listed_concat, h.members_eq, h.folding_eq]
  negated_eq := by
    rw [call_negated, h.negated_eq, List.count_append]
    by_cases hnext : next = .negate
    · rw [hnext, List.count_singleton_self, if_pos rfl, ← decide_not]
      exact decide_eq_decide.2 (by omega)
    · rw [if_neg hnext, List.count_singleton, if_neg (by simpa using hnext), Nat.add_zero]

/-- Calls take a builder to where they describe it. -/
theorem Follows.foldl_call (h : Follows folding calls builder) (more : List Call) :
    Follows folding (calls ++ more) (more.foldl Builder.call builder) := by
  induction more generalizing calls builder with
  | nil => rwa [List.append_nil]
  | cons next more ih =>
    rw [List.append_cons]
    exact ih (h.call next)

/-- A builder gives the set that the calls describe. -/
theorem Follows.build_eq (h : Follows folding calls builder) :
    builder.build = described folding calls := by
  rw [build, described, h.members_eq, h.negated_eq]
  simp only [decide_eq_true_eq]

/-- There is an answer to each time that the set is asked for. -/
theorem length_answers (builder : Builder) (calls : List Call) :
    (answers builder calls).length = calls.count .build := by
  fun_induction answers builder calls with
  | case1 => rfl
  | case2 builder calls ih => rw [List.length_cons, ih, List.count_cons_self]
  | case3 builder other calls hother ih =>
    rw [ih, List.count_cons_of_ne fun heq ↦ hother heq]

/-- The answers to two rows of calls are those to the first one, and those of the builder to which
it leads to the second one. -/
theorem answers_append (builder : Builder) (before after : List Call) :
    answers builder (before ++ after) =
      answers builder before ++ answers (before.foldl call builder) after := by
  fun_induction answers builder before with
  | case1 => rfl
  | case2 builder calls ih => rw [List.cons_append, answers, ih]; rfl
  | case3 builder other calls hother ih =>
    rw [List.cons_append, answers, ih, List.foldl_cons]
    exact hother

/-- Whenever a builder is asked for its set, it gives the set that the calls up to then describe,
however often it was asked before and whatever follows. -/
theorem answers_described (folding : CaseFolding) (before after : List Call) :
    (answers (start folding) (before ++ .build :: after))[before.count .build]? =
      some (described folding before) := by
  have hfollows : Follows folding before (before.foldl call (start folding)) :=
    (follows_start folding).foldl_call before
  rw [answers_append, List.getElem?_append_right (by rw [length_answers]), length_answers,
    Nat.sub_self, answers, List.getElem?_cons_zero, hfollows.build_eq]

end Exemplar.CharSet.Builder
