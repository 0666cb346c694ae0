import GuardedAutomata.Automaton.Basic
import Mathlib.Logic.Relation

/-!
# Runs

A run through an automaton goes from configuration to configuration.  A
configuration is a state and a slot of the text; an epsilon edge that is open at
the slot changes the state alone, and an alpha edge that accepts the next code
point changes both.  The automaton accepts a text if a run leads from the source
at the first slot to the target at the last.

Nothing here says how runs are found.  Moves are defined over two lists of edges
rather than over an automaton, so that a builder that is still growing has moves
as well.
-/

namespace GuardedAutomata

/-- A state at a slot of a text. -/
structure Config where
  state : StateId
  slot : Nat
  deriving DecidableEq

/-- One move over the given edges, on a text with the given code points. -/
inductive Move (epsilon : List EpsilonEdge) (alpha : List AlphaEdge) (w : Array UInt32) :
    Config → Config → Prop where
  /-- Over an epsilon edge that is open at the slot. -/
  | free {e : EpsilonEdge} {slot : Nat} (mem : e ∈ epsilon) (h : slot ≤ w.size)
      (isOpen : e.isOpen (Text.ofValuesAt w slot h) = true) :
      Move epsilon alpha w ⟨e.source, slot⟩ ⟨e.target, slot⟩
  /-- Over an alpha edge that accepts the next code point. -/
  | consume {e : AlphaEdge} {slot : Nat} (mem : e ∈ alpha) (h : slot < w.size)
      (accepts : e.accepts w[slot] = true) :
      Move epsilon alpha w ⟨e.source, slot⟩ ⟨e.target, slot + 1⟩

namespace Automaton

/-- A run leads from one configuration to another. -/
def Reaches (a : Automaton) (w : Array UInt32) : Config → Config → Prop :=
  Relation.ReflTransGen (Move a.epsilon a.alpha w)

/-- A run leads from the source before the text to the target after it. -/
def Accepts (a : Automaton) (w : Array UInt32) : Prop :=
  a.Reaches w ⟨source, 0⟩ ⟨target, w.size⟩

end Automaton

end GuardedAutomata
