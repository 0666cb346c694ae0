import GuardedAutomata.Log
import GuardedAutomata.Text.Basic

/-!
# Simulations

To match a text is to follow the set of states that a run can be in.  A
`Simulation` says how such sets are represented: the set in which runs begin,
its closure under the epsilon edges that are open at the cursor, the set reached
by consuming one code point, and whether the target is in a set.

`Simulation.run` is the matcher over any representation.  It puts the cursor to
the start, and at each slot takes the closure *there* --- guards see the cursor
after the code point was consumed --- before it consumes the next code point.
When a code point leads nowhere, no later one can help: the matcher records
that, moves the cursor to the end and rejects.
-/

namespace GuardedAutomata

/-- A representation of the set of active states. -/
structure Simulation (σ : Type) where
  /-- The source alone. -/
  initial : Except Fault σ
  /-- The states reached over epsilon edges that are open at the cursor. -/
  close : Text → σ → Except Fault σ
  /-- The states reached by consuming a code point, or `none` if there are none. -/
  step : UInt32 → σ → Except Fault (Option σ)
  /-- The target is active. -/
  accepts : σ → Except Fault Bool

/-- What a match comes to. -/
structure Outcome where
  /-- The whole text was accepted. -/
  accepted : Bool
  /-- The text with its cursor where the match left it. -/
  text : Text
  /-- The records of the match. -/
  log : List LogRecord
  deriving DecidableEq

namespace Simulation

variable {σ : Type}

/-- Consumes the given number of further code points. -/
def consume (sim : Simulation σ) : Nat → Text → σ → Except Fault Outcome
  | 0, t, active => do
      let accepted ← sim.accepts active
      return { accepted, text := t, log := [] }
  | remaining + 1, t, active => do
      let value ← t.get t.cursor
      match ← sim.step value active with
      | none =>
          let text ← t.setCursor t.length
          return { accepted := false, text, log := [.exhausted (t.cursor + 1) t.length] }
      | some next =>
          let t ← t.setCursor (t.cursor + 1)
          let closed ← sim.close t next
          sim.consume remaining t closed

/-- Matches a whole text, wherever its cursor is. -/
def run (sim : Simulation σ) (t : Text) : Except Fault Outcome := do
  let t ← t.setCursor 0
  let start ← sim.initial
  let closed ← sim.close t start
  sim.consume t.length t closed

end Simulation
end GuardedAutomata
