import GuardedAutomata.Anchor
import GuardedAutomata.Text.Basic
import GuardedAutomata.Text.RangeSet

/-!
# Edges

States are numbers.  An *epsilon* edge consumes nothing and is open to a run
only where its guard holds; an *alpha* edge consumes one code point that it
accepts.  Guards and acceptance are arbitrary total predicates: a guard sees the
text and its cursor, acceptance sees the one code point.

The two most common guards keep their form, because an automaton can be printed:
an edge that is always open, and an edge that is open at one slot.
-/

namespace GuardedAutomata

/-- A state of an automaton, by its number. -/
abbrev StateId := Nat

/-- The condition under which an epsilon edge is open. -/
inductive Guard where
  /-- Open everywhere. -/
  | always
  /-- Open at the slot that the index names. -/
  | index (index : Int)
  /-- Open wherever the predicate holds of the text and its cursor. -/
  | custom (predicate : Text → Bool)

namespace Guard

/-- The guard holds at the cursor of a text. -/
def holds : Guard → Text → Bool
  | .always, _ => true
  | .index i, t => Anchor.names i t.cursor t.length
  | .custom predicate, t => predicate t

@[simp] theorem holds_always (t : Text) : Guard.always.holds t = true := rfl

@[simp] theorem holds_index (i : Int) (t : Text) :
    (Guard.index i).holds t = Anchor.names i t.cursor t.length := rfl

@[simp] theorem holds_custom (predicate : Text → Bool) (t : Text) :
    (Guard.custom predicate).holds t = predicate t := rfl

/-- The guard on one line; a predicate has no text of its own. -/
def describe : Guard → String
  | .always => "Always"
  | .index i => Layout.tagged "Index" (toString i)
  | .custom _ => Layout.tagged "Custom" Layout.hidden

end Guard

/-- An edge that consumes nothing. -/
structure EpsilonEdge where
  source : StateId
  target : StateId
  guard : Guard := .always

namespace EpsilonEdge

/-- The edge is open at the cursor of a text. -/
def isOpen (e : EpsilonEdge) (t : Text) : Bool := e.guard.holds t

/-- The edge on one line. -/
def describe (e : EpsilonEdge) : String :=
  Layout.record "EpsilonTransition"
    [Layout.field "transition"
        (Layout.record "Transition"
          [Layout.field "s0" (toString e.source), Layout.field "s1" (toString e.target)]),
      Layout.field "guard" e.guard.describe]

end EpsilonEdge

/-- An edge that consumes one code point. -/
structure AlphaEdge where
  source : StateId
  target : StateId
  accepts : UInt32 → Bool

namespace AlphaEdge

/-- An edge for one character. -/
def literal (source target : StateId) (c : Char) : AlphaEdge where
  source
  target
  accepts v := v == c.val

/-- An edge for the code points of a class. -/
def ofClass (source target : StateId) (c : CodeClass) : AlphaEdge where
  source
  target
  accepts := c.accepts

/-- The edge on one line. -/
def describe (e : AlphaEdge) : String :=
  Layout.record "AlphaTransition"
    [Layout.field "s0" (toString e.source), Layout.field "s1" (toString e.target), Layout.hidden]

end AlphaEdge
end GuardedAutomata
