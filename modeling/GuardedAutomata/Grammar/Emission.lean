import GuardedAutomata.Automaton.Fragment
import GuardedAutomata.Grammar.Acyclic

/-!
# From grammars to automata

A node of a grammar is emitted between two states of a builder: it adds edges so
that what leads from the first state to the second is what the node stands for.
The node decides how the fragments of its children are put together, and
`Fragment` knows how that is done; a node that is shared is emitted once for
every use.

Emission follows the children, so its depth is bounded by the number of nodes
unless it enters a node within itself.  `emitWithin` counts the depth down and
faults when it runs out; `emit` starts with a depth that only such a node can
exhaust.

`Grammar.compile` is the whole way: the check for cycles, then the emission of
the root from the source to the target of an empty builder.
-/

namespace GuardedAutomata

/-- The guard of an assertion.  The ends of the text are slots with an index. -/
def Assertion.guard (words : WordData) : Assertion → Guard
  | .textStart => .index 0
  | .textEnd => .index (-1)
  | condition => .custom (condition.holds words)

/-- The fragment of a node, given the fragments of its children. -/
def Node.fragment (words : WordData) (child : NodeId → Fragment) : Node → Fragment
  | .empty => .empty
  | .slot none => .fault .unboundSlot
  | .slot (some body) => child body
  | .concat children => .chain (children.map child)
  | .alternation children => .branch (children.map child)
  | .codeClass members => .symbol members
  | .assertion condition => .guarded (condition.guard words)
  | .repetition body min max => .repetition (child body) min max

namespace Grammar

/-- The fragment of a node, to at most the given depth. -/
def emitWithin (words : WordData) (g : Grammar) : Nat → NodeId → Fragment
  | 0, _ => .fault .endlessEmission
  | depth + 1, id =>
      match g.nodes[id]? with
      | none => .fault (.indexOutOfBounds g.size id)
      | some n => n.fragment words (emitWithin words g depth)

/-- The fragment of a node. -/
def emit (words : WordData) (g : Grammar) (id : NodeId) : Fragment :=
  g.emitWithin words (g.size + 1) id

/-- The automaton of a root. -/
def compile (words : WordData) (g : Grammar) (root : NodeId) : Except Fault Automaton := do
  g.validate root
  match g.emit words root Automaton.source Automaton.target Builder.empty with
  | .ok _ b => return b.build
  | .error fault _ => throw fault

end Grammar
end GuardedAutomata
