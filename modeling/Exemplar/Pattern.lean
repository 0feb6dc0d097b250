import Exemplar.Generation.Checked
import Exemplar.Grammar.Reading
import Exemplar.Random.Lcg
import Exemplar.Regex.Render
import Exemplar.Regex.Simplify

/-!
# Patterns

A `Pattern` is a tree together with the text and the flags from which it was read. The same seed
always yields the same string of a pattern.

Sizes are computed with wrapped arithmetic in `generateFrom`, `generate` and `sized`, and with
checked arithmetic in `generateFrom?`, `generate?` and `sized?`, which have no result where there
is a fault.
-/

namespace Exemplar

/-- A pattern that is ready for generation: its text, the flags under which the text was read, and
its simplified tree. -/
structure Pattern where
  source : String
  flags : Flags
  root : Regex
  deriving DecidableEq, Inhabited

namespace Pattern

/-- Read and simplify a pattern, or say why and where it is refused. -/
def compile (source : String) (flags : Flags) : Except CompileError Pattern :=
  match Regex.parse source.toList flags with
  | .ok tree => .ok ⟨source, flags, tree.simplify⟩
  | .error located => .error ⟨source, located⟩

/-- The pattern of a tree that was built by hand, with the tree's own text. -/
def ofTree (root : Regex) : Pattern :=
  ⟨toString root, .none, root⟩

/-- The least length of the strings. -/
def minLength (pattern : Pattern) : Nat :=
  pattern.root.minLength

/-- The bound on the length of the strings. -/
def maxLength (pattern : Pattern) : Bound :=
  pattern.root.maxLength

/-- Generate a string from a random source, and return the next source too. -/
def generateFrom {σ : Type} [RandomSource σ] (pattern : Pattern) (source : σ)
    (target : Option Nat) : Except GenerationError (String × σ) :=
  pattern.root.generate source target

/-- Generate the string of a seed. With a target it has no more characters than the target, or than
the least length of the pattern if that is larger. -/
def generate (pattern : Pattern) (seed : Int) (target : Option Nat) :
    Except GenerationError String :=
  (pattern.generateFrom (Lcg.ofSeed seed) target).map (·.1)

/-- The pattern restructured for a length target. -/
def sized (pattern : Pattern) (target : Nat) : Pattern :=
  { pattern with root := pattern.root.sized target }

/-- Generate a string from a random source with checked arithmetic, unless there is a fault on the
way. -/
def generateFrom? {σ : Type} [RandomSource σ] (pattern : Pattern) (source : σ)
    (target : Option Nat) : Option (Except GenerationError (String × σ)) :=
  pattern.root.generate? source target

/-- Generate the string of a seed with checked arithmetic, unless there is a fault on the way. -/
def generate? (pattern : Pattern) (seed : Int) (target : Option Nat) :
    Option (Except GenerationError String) :=
  (pattern.generateFrom? (Lcg.ofSeed seed) target).map (·.map (·.1))

/-- The pattern restructured for a length target with checked arithmetic. -/
def sized? (pattern : Pattern) (target : Nat) : Option Pattern :=
  (pattern.root.sized? target).map fun root ↦ { pattern with root }

end Pattern

end Exemplar
