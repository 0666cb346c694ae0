import GuardedAutomata.Fault
import GuardedAutomata.Pattern.Basic

/-!
# Patterns that cannot be compiled

A pattern is refused because it does not parse, because its automaton would be
too large, or because it has a look for which there is no word data.  The fourth
constructor carries a fault of the grammar that a pattern was lowered to.
-/

namespace GuardedAutomata

/-- Why there is no automaton for a pattern. -/
inductive CompileError where
  /-- The pattern could not be parsed. -/
  | parse (reason : String)
  /-- The automaton needs more states than are allowed. -/
  | tooComplex (needed limit : UInt64)
  /-- A look needs Unicode word characters, which are not known. -/
  | unsupported (look : Look)
  /-- The grammar of the pattern is at fault. -/
  | grammarFault (fault : Fault)

namespace CompileError

/-- The wording of an error. -/
def message : CompileError → String
  | .parse reason => s!"failed to parse pattern: {reason}"
  | .tooComplex needed limit =>
      s!"pattern is too complex: needs about {needed} states, limit is {limit}"
  | .unsupported look => s!"unsupported feature: {look.name} needs the unicode feature"
  | .grammarFault fault => fault.message

/-- The error behind an error, in its own words. -/
def cause : CompileError → Option String
  | .parse reason => some reason
  | .tooComplex .. | .unsupported _ | .grammarFault _ => none

end CompileError
end GuardedAutomata
