import GuardedAutomata.Automaton.Basic

/-!
# Log records

Two events are worth a record: an automaton is finished, and a match ends early
because no state is active any more.  Each record has a level and a message.
-/

namespace GuardedAutomata

/-- An event that is recorded. -/
inductive LogRecord where
  /-- An automaton of the given size was finished. -/
  | built (stateCount epsilonCount alphaCount : Nat) (strategy : Strategy)
  /-- No state was active after so many of all the symbols. -/
  | exhausted (consumed length : Nat)
  deriving DecidableEq

namespace LogRecord

/-- The level of a record. -/
def level : LogRecord → String
  | .built .. => "DEBUG"
  | .exhausted .. => "TRACE"

/-- The message of a record. -/
def message : LogRecord → String
  | .built stateCount epsilonCount alphaCount strategy =>
      s!"built NFA with {stateCount} states, {epsilonCount} epsilon and {alphaCount} alpha " ++
        s!"transitions, using {strategy.describe}"
  | .exhausted consumed length =>
      s!"no active states after {consumed} of {length} symbols"

/-- The record on one line. -/
def line (r : LogRecord) : String := r.level ++ " " ++ r.message

end LogRecord

/-- The record of an automaton that has just been finished. -/
def Automaton.built (a : Automaton) : LogRecord :=
  .built a.stateCount a.epsilon.length a.alpha.length a.strategy

end GuardedAutomata
