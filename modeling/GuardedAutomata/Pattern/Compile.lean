import GuardedAutomata.Grammar.Emission
import GuardedAutomata.Pattern.Estimate
import GuardedAutomata.Pattern.Lowering

/-!
# Compiling patterns

A pattern is compiled in three steps: its size is estimated and held against the
limit, it is lowered into an empty grammar, and the grammar is compiled.  The
order of the steps shows when a pattern has more than one defect: one that is
too large is refused for that, whatever else is wrong with it.
-/

namespace GuardedAutomata

/-- What can be chosen about a compilation. -/
structure Settings where
  /-- The pattern may stand anywhere in a text instead of spanning all of it. -/
  unanchored : Bool := false
  /-- The greatest estimate that is accepted. -/
  sizeLimit : UInt64 := 10000

/-- The automaton of a pattern. -/
def Pattern.compile (words : WordData) (settings : Settings) (p : Pattern) :
    Except CompileError Automaton :=
  let needed := p.estimate settings.unanchored
  if settings.sizeLimit < needed then .error (.tooComplex needed settings.sizeLimit)
  else
    match p.lowerWhole words settings.unanchored Grammar.empty with
    | .error e _ => .error e
    | .ok root g => (g.compile words root).mapError .grammarFault

end GuardedAutomata
