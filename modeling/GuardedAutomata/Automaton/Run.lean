import GuardedAutomata.Automaton.Mask
import GuardedAutomata.Automaton.RankTable

/-!
# Matching texts

An automaton accepts a text if a run through it consumes the whole text and ends
in the target.  `Automaton.run` decides this with the simulation that fits the
number of states, and the answer does not depend on which one that is.
-/

namespace GuardedAutomata
namespace Automaton

/-- Matches a whole text. -/
def run (a : Automaton) (t : Text) : Except Fault Outcome :=
  match a.strategy with
  | .mask => (Mask.simulation a).run t
  | .table => (RankTable.simulation a).run t

/-- The automaton accepts the whole text. -/
def accepts (a : Automaton) (t : Text) : Except Fault Bool := Outcome.accepted <$> a.run t

end Automaton
end GuardedAutomata
