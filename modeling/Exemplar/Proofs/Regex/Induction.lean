import Exemplar.Regex.Basic

/-!
# Induction over pattern trees

A pattern tree contains lists of trees, so the induction that Lean derives for it speaks of lists
too. `Regex.induction` is the principle that is wanted instead: a property of the parts of a
sequence or of the options of a choice is assumed of each of them.
-/

namespace Exemplar.Regex

section Induction

variable {motive : Regex → Prop}
  (empty : motive .empty)
  (literal : ∀ text ignoreCase, motive (.literal text ignoreCase))
  (set : ∀ members, motive (.set members))
  (sequence : ∀ parts, (∀ part ∈ parts, motive part) → motive (.sequence parts))
  (choice : ∀ options, (∀ option ∈ options, motive option) → motive (.choice options))
  (repetition : ∀ body least most mode, motive body → motive (.repetition body least most mode))
  (group : ∀ kind body, motive body → motive (.group kind body))
  (backref : ∀ id extent, motive (.backref id extent))

include empty literal set sequence choice repetition group backref in
/-- A property holds of every tree when every kind of tree inherits it from its parts. -/
@[elab_as_elim, induction_eliminator] theorem induction (tree : Regex) : motive tree := by
  refine tree.rec (motive_2 := fun trees ↦ ∀ tree ∈ trees, motive tree)
    empty literal set sequence choice repetition group backref ?_ ?_
  · intro tree htree
    exact absurd htree List.not_mem_nil
  · intro head tail hhead htail tree htree
    rcases List.mem_cons.1 htree with rfl | htree
    · exact hhead
    · exact htail tree htree

end Induction

end Exemplar.Regex
