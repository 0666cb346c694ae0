import GuardedAutomata.Automaton.Edge

/-!
# Automata

An automaton has the states `0, …, stateCount - 1`, epsilon edges and alpha
edges.  Runs begin in state `0`, the source, and are accepted in state `1`, the
target.  The edges are lists, because their order shows when the automaton is
printed; what the automaton accepts does not depend on it.

An automaton is simulated by sets of states: in one machine word if it has at
most `maskLimit` states, and in a table with one entry a state otherwise.
-/

namespace GuardedAutomata

/-- Finitely many states with guarded epsilon edges and alpha edges. -/
structure Automaton where
  epsilon : List EpsilonEdge
  alpha : List AlphaEdge
  stateCount : Nat

/-- How the set of states that a run can be in is kept. -/
inductive Strategy where
  /-- One bit a state in a 64-bit word. -/
  | mask
  /-- One entry a state in a table. -/
  | table
  deriving DecidableEq

/-- The name of a strategy. -/
def Strategy.describe : Strategy → String
  | .mask => "Bitset"
  | .table => "Array"

namespace Automaton

/-- The state in which runs begin. -/
def source : StateId := 0

/-- The state in which runs are accepted. -/
def target : StateId := 1

/-- The greatest number of states that fit into one machine word. -/
def maskLimit : Nat := 64

/-- The strategy by which the automaton is simulated. -/
def strategy (a : Automaton) : Strategy :=
  if a.stateCount ≤ maskLimit then .mask else .table

/-- The automaton over several lines: its size, then one line an edge. -/
def display (a : Automaton) : String :=
  s!"states: {a.stateCount} ({a.strategy.describe})\n" ++
    String.join (a.epsilon.map epsilonLine) ++ String.join (a.alpha.map alphaLine)
where
  /-- The line of an epsilon edge, which ends in its guard. -/
  epsilonLine (e : EpsilonEdge) : String :=
    s!"  {e.source} -> {e.target} ε" ++
      (match e.guard with
        | .always => ""
        | .index i => s!" @{i}"
        | .custom _ => " guarded") ++ "\n"
  /-- The line of an alpha edge. -/
  alphaLine (e : AlphaEdge) : String := s!"  {e.source} -> {e.target} α\n"

/-- The automaton on one line. -/
def describe (a : Automaton) : String :=
  Layout.record "NFA"
    [Layout.field "epsilon" (Layout.list (a.epsilon.map EpsilonEdge.describe)),
      Layout.field "alpha" (Layout.list (a.alpha.map AlphaEdge.describe)),
      Layout.field "state_count" (toString a.stateCount)]

/-- Every edge joins states of the automaton, and the two distinguished states
are among them. -/
structure WellFormed (a : Automaton) : Prop where
  two_le_stateCount : 2 ≤ a.stateCount
  epsilon_lt : ∀ e ∈ a.epsilon, e.source < a.stateCount ∧ e.target < a.stateCount
  alpha_lt : ∀ e ∈ a.alpha, e.source < a.stateCount ∧ e.target < a.stateCount

end Automaton
end GuardedAutomata
