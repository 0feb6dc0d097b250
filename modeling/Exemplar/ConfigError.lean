/-!
# Errors in settings

What can be wrong with the settings of a run, before any pattern is looked at.
-/

namespace Exemplar

/-- A setting that is not allowed: a letter that names no flag, a search without candidates or
without time, and a batch without workers or without values. -/
inductive ConfigError where
  | unknownFlag (letter : Char)
  | invalidShrinkIterations (count : Nat)
  | invalidTimeout
  | invalidThreads (count : Nat)
  | invalidBatchSize (size : Nat)
  deriving DecidableEq, Repr, Inhabited

/-- The text shown for the error. -/
def ConfigError.message : ConfigError → String
  | unknownFlag letter => s!"Unknown flag letter: '{letter}' (expected one of idmsuxl)"
  | invalidShrinkIterations count => s!"Invalid shrink iterations count: {count} (must be > 0)"
  | invalidTimeout => "Invalid timeout (must be > 0)"
  | invalidThreads count => s!"Invalid thread count: {count} (must be > 0)"
  | invalidBatchSize size => s!"Invalid batch size: {size} (must be > 0)"

end Exemplar
