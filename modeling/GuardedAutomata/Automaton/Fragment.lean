import GuardedAutomata.Automaton.Builder

/-!
# Fragments

A fragment is an operation that adds the edges of a language between two given
states, its entry and its exit, with whatever fresh states it needs in between.
The combinators below are the ways in which fragments are put together.

## The discipline

No combinator adds an edge into its entry or out of its exit.  That is what lets
alternatives share both: a run that enters one alternative cannot leave through
another.  A loop needs a state to come back to, so `loop` takes two fresh states
and runs the loop between those.

## The order of work

The order in which states are allocated and edges are added shows in the printed
automaton, and when a part faults it decides what has been built by then.  A
chain and a row of copies allocate the state after a part *before* the part
itself is built.
-/

namespace GuardedAutomata

/-- Adds the edges of a language between an entry and an exit. -/
abbrev Fragment := (entry exit : StateId) → Build Unit

namespace Fragment

/-- The empty sequence: one open edge. -/
def empty : Fragment := fun entry exit => Build.epsilon entry exit

/-- The empty sequence wherever a guard holds. -/
def guarded (g : Guard) : Fragment := fun entry exit =>
  Build.addEpsilon { source := entry, target := exit, guard := g }

/-- One code point of a class. -/
def symbol (c : CodeClass) : Fragment := fun entry exit =>
  Build.addAlpha (.ofClass entry exit c)

/-- No fragment at all: the fault that stands in its place. -/
def fault (f : Fault) : Fragment := fun _ _ => throw f

/-- One fragment after the other. -/
def chain : List Fragment → Fragment
  | [] => empty
  | [last] => last
  | first :: second :: rest => fun entry exit => do
      let middle ← Build.freshState
      first entry middle
      chain (second :: rest) middle exit

/-- Any one of several fragments; without fragments, nothing is accepted. -/
def branch : List Fragment → Fragment
  | [] => fun _ _ => pure ()
  | first :: rest => fun entry exit => do
      first entry exit
      branch rest entry exit

/-- Copies of a fragment in a row, from the entry to the state that is returned. -/
def copies (body : Fragment) : Nat → StateId → Build StateId
  | 0, entry => pure entry
  | n + 1, entry => do
      let next ← Build.freshState
      body entry next
      copies body n next

/-- Copies of a fragment in a row, each of which may be left out together with
those after it. -/
def optionalCopies (body : Fragment) (exit : StateId) : Nat → StateId → Build StateId
  | 0, entry => pure entry
  | n + 1, entry => do
      let next ← Build.freshState
      Build.epsilon entry exit
      body entry next
      optionalCopies body exit n next

/-- Any number of copies of a fragment. -/
def loop (body : Fragment) : Fragment := fun entry exit => do
  let top ← Build.freshState
  let bottom ← Build.freshState
  Build.epsilon entry top
  body top bottom
  Build.epsilon bottom top
  Build.epsilon top exit

/-- At least `min` and at most `max` copies of a fragment, with no upper bound if
`max` is missing, and exactly `min` copies if `max` is the smaller one. -/
def repetition (body : Fragment) (min : Nat) (max : Option Nat) : Fragment :=
  fun entry exit => do
    let last ← copies body min entry
    match max with
    | none => loop body last exit
    | some max =>
        let last ← optionalCopies body exit (max - min) last
        Build.epsilon last exit

end Fragment
end GuardedAutomata
