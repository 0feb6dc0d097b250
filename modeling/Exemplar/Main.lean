import Exemplar.CommandLine.Run

/-!
# The program

The command line runs one command and prints what it leaves behind.
-/

/-- Run the command line. The strings of a batch do not depend on the number of processors, which
is not asked for. -/
def main (arguments : List String) : IO UInt32 := do
  let entropy ← IO.rand 0 0x4000000000000000
  let outcome := Exemplar.CommandLine.run 1 entropy arguments
  IO.print outcome.stdout
  IO.eprint outcome.stderr
  return outcome.code.toUInt32
