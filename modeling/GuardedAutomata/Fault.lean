/-!
# Faults

Building an automaton and running one both follow indices: states into state
tables, nodes into a grammar, positions into a text.  Every such use is checked
where it happens, and a check that fails is a `Fault`.  A fault is the report of
a misuse --- an edge between states that nobody allocated, a grammar that refers
to itself --- and never an answer about a text.

Operations that can fault live in `Except Fault`, so that "this operation never
faults" is a statement that can be proved about them: the checks are part of the
definitions, not assumptions beside them.

`Fault.message` holds the wording of every fault, and nothing else does.
-/

namespace GuardedAutomata

/-- A misuse that stops an operation, by its cause. -/
inductive Fault where
  /-- An index outside a sequence of the given length was read or written. -/
  | indexOutOfBounds (length index : Nat)
  /-- A cursor was moved past the end of its text. -/
  | cursorOutOfRange (cursor : Nat)
  /-- A state has no bit in a 64-bit mask. -/
  | shiftOverflow
  /-- An edge has an endpoint at or beyond the number of states. -/
  | unallocatedState (source target stateCount : Nat)
  /-- A slot was to be bound to a node that is not in the grammar. -/
  | missingNode (node : Nat)
  /-- A node that is no slot was to be bound. -/
  | notASlot (node : Nat)
  /-- A slot without a body was to be emitted. -/
  | unboundSlot
  /-- The node `node` is one of its own descendants: `via` has it as a child. -/
  | selfReference (node via : Nat)
  /-- Emission entered a node while emitting that same node. -/
  | endlessEmission
  deriving DecidableEq

/-- The wording of a fault. -/
def Fault.message : Fault → String
  | .indexOutOfBounds length index =>
      s!"index out of bounds: the len is {length} but the index is {index}"
  | .cursorOutOfRange cursor => s!"cursor {cursor} out of range"
  | .shiftOverflow => "attempt to shift left with overflow"
  | .unallocatedState source target stateCount =>
      s!"transition {source} -> {target} references a state that was never allocated " ++
        s!"(state count is {stateCount})"
  | .missingNode node => s!"node {node} does not exist"
  | .notASlot node => s!"node {node} is not a slot"
  | .unboundSlot => "grammar slot was never bound"
  | .selfReference node via => s!"grammar node {node} refers to itself through node {via}"
  | .endlessEmission => "emission does not end"

/-- Two steps come to a value exactly if the first does, and the second goes on to it. -/
theorem bind_eq_ok_iff {ε α β : Type} {step : Except ε α} {next : α → Except ε β} {y : β} :
    step >>= next = .ok y ↔ ∃ x, step = .ok x ∧ next x = .ok y := by
  constructor
  · intro h
    cases step with
    | error e => cases h
    | ok x => exact ⟨x, rfl, h⟩
  · rintro ⟨x, rfl, h⟩
    exact h

end GuardedAutomata
