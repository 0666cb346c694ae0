import GuardedAutomata.Automaton.Basic

/-!
# Building automata

A `Builder` is an automaton under construction.  It starts with the source and
the target and no edges; states are allocated by `freshState`, and an edge may
only join states that are allocated already.

An operation on a builder is a `Build`: a state transformer that can fault.  A
faulting operation keeps everything that was built before it, so a caller that
goes on after a fault goes on from there, and a rejected edge leaves the builder
as it was.
-/

namespace GuardedAutomata

/-- An automaton under construction. -/
structure Builder where
  epsilon : Array EpsilonEdge := #[]
  alpha : Array AlphaEdge := #[]
  stateCount : Nat := 2

/-- An operation on a builder, which keeps what it built when it faults. -/
abbrev Build := EStateM Fault Builder

namespace Builder

/-- The builder with the source, the target and no edges. -/
def empty : Builder := {}

/-- The finished automaton, its edges in the order in which they were added. -/
def build (b : Builder) : Automaton where
  epsilon := b.epsilon.toList
  alpha := b.alpha.toList
  stateCount := b.stateCount

/-- Both states are allocated. -/
def hasStates (b : Builder) (source target : StateId) : Bool :=
  source < b.stateCount && target < b.stateCount

theorem hasStates_iff {b : Builder} {source target : StateId} :
    b.hasStates source target = true ↔ source < b.stateCount ∧ target < b.stateCount := by
  unfold hasStates
  rw [Bool.and_eq_true, decide_eq_true_eq, decide_eq_true_eq]

@[simp] theorem stateCount_empty : empty.stateCount = 2 := rfl

@[simp] theorem stateCount_build (b : Builder) : b.build.stateCount = b.stateCount := rfl

end Builder

namespace Build

/-- Allocates the next state. -/
def freshState : Build StateId := fun b =>
  .ok b.stateCount { b with stateCount := b.stateCount + 1 }

/-- Adds an epsilon edge between allocated states. -/
def addEpsilon (e : EpsilonEdge) : Build Unit := fun b =>
  if b.hasStates e.source e.target then .ok () { b with epsilon := b.epsilon.push e }
  else .error (.unallocatedState e.source e.target b.stateCount) b

/-- Adds an alpha edge between allocated states. -/
def addAlpha (e : AlphaEdge) : Build Unit := fun b =>
  if b.hasStates e.source e.target then .ok () { b with alpha := b.alpha.push e }
  else .error (.unallocatedState e.source e.target b.stateCount) b

theorem freshState_eq (b : Builder) :
    freshState b = .ok b.stateCount { b with stateCount := b.stateCount + 1 } := rfl

theorem addEpsilon_eq_ok {b : Builder} {e : EpsilonEdge}
    (h : b.hasStates e.source e.target = true) :
    addEpsilon e b = .ok () { b with epsilon := b.epsilon.push e } := if_pos h

theorem addEpsilon_eq_error {b : Builder} {e : EpsilonEdge}
    (h : ¬b.hasStates e.source e.target = true) :
    addEpsilon e b = .error (.unallocatedState e.source e.target b.stateCount) b := if_neg h

theorem addAlpha_eq_ok {b : Builder} {e : AlphaEdge}
    (h : b.hasStates e.source e.target = true) :
    addAlpha e b = .ok () { b with alpha := b.alpha.push e } := if_pos h

theorem addAlpha_eq_error {b : Builder} {e : AlphaEdge}
    (h : ¬b.hasStates e.source e.target = true) :
    addAlpha e b = .error (.unallocatedState e.source e.target b.stateCount) b := if_neg h

/-- Joins two states by an edge that is always open. -/
def epsilon (source target : StateId) : Build Unit := addEpsilon { source, target }

/-- Joins two states by an edge that is open at the slot an index names. -/
def anchor (source target : StateId) (index : Int) : Build Unit :=
  addEpsilon { source, target, guard := .index index }

/-- Joins two states by an edge that is open where a predicate holds. -/
def guard (source target : StateId) (predicate : Text → Bool) : Build Unit :=
  addEpsilon { source, target, guard := .custom predicate }

/-- Joins two states by an edge that consumes a code point of a predicate. -/
def alpha (source target : StateId) (accepts : UInt32 → Bool) : Build Unit :=
  addAlpha { source, target, accepts }

/-- Joins two states by an edge that consumes one character. -/
def literal (source target : StateId) (c : Char) : Build Unit :=
  addAlpha (.literal source target c)

end Build
end GuardedAutomata
