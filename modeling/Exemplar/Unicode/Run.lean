/-!
# Runs of characters

Unicode tables list characters as runs: every character, or every second one, from a first to a
last code point.
-/

namespace Exemplar.Unicode

/-- The code points from a first to a last one, in equal steps. -/
structure Run where
  first : Nat
  last : Nat
  step : Nat
  deriving DecidableEq, Repr

/-- The code points of a run in increasing order. -/
def Run.codes (run : Run) : List Nat :=
  List.range' run.first ((run.last - run.first) / run.step + 1) run.step

/-- Whether the code point belongs to the run. -/
def Run.contains (run : Run) (code : Nat) : Bool :=
  run.first ≤ code && code ≤ run.last && (code - run.first) % run.step == 0

end Exemplar.Unicode
