import GuardedAutomata.Demo
import GuardedAutomata.Text.WordTable

/-!
# The command line

The first argument is a pattern and the others are inputs; without arguments the
fixed demonstration runs.  Patterns are parsed elsewhere: for each pattern the
program reads one line from the standard input, in the form of
`Pattern.ofPostfix?`, or the reason why the pattern cannot be parsed.
-/

namespace GuardedAutomata
namespace Demo

/-- Reads one line for each pattern, and pairs them. -/
def readTrees (stdin : IO.FS.Stream) (patterns : List String) : IO (List (String × String)) :=
  patterns.mapM fun pattern => do
    let line ← stdin.getLine
    return (pattern, line.trimAscii.toString)

end Demo
end GuardedAutomata

open GuardedAutomata

/-- Runs the demonstration program. -/
def main (args : List String) : IO UInt32 := do
  let known ← Demo.readTrees (← IO.getStdin) (Demo.patterns args)
  let report := Demo.run (Demo.parserOf known) .standard args
  IO.print report.stdout
  IO.eprint report.stderr
  return report.exit
