import GuardedAutomata.Grammar.Basic
import Mathlib.Logic.Relation

/-!
# What a root depends on

The nodes that are reachable from a root are the root itself and the children of
reachable nodes, whether they exist or not.  Three conditions on them decide what
can be done with a root:

* `Complete` --- every reachable node exists;
* `Acyclic` --- no reachable node is one of its own descendants;
* `Bound` --- no reachable slot is without a body.
-/

namespace GuardedAutomata
namespace Grammar

/-- The second node is a child of the first. -/
def HasChild (g : Grammar) (parent child : NodeId) : Prop := child ∈ g.childrenOf parent

/-- The node can be reached from the root along children. -/
def Reachable (g : Grammar) (root : NodeId) : NodeId → Prop :=
  Relation.ReflTransGen g.HasChild root

/-- The second node is reached from the first along at least one child. -/
def Descendant (g : Grammar) : NodeId → NodeId → Prop := Relation.TransGen g.HasChild

/-- Every node reachable from the root exists. -/
def Complete (g : Grammar) (root : NodeId) : Prop := ∀ id, g.Reachable root id → id < g.size

/-- No node reachable from the root is one of its own descendants. -/
def Acyclic (g : Grammar) (root : NodeId) : Prop :=
  ∀ id, g.Reachable root id → ¬g.Descendant id id

/-- No slot reachable from the root is without a body. -/
def Bound (g : Grammar) (root : NodeId) : Prop :=
  ∀ id, g.Reachable root id → g.nodes[id]? ≠ some (.slot none)

/-- What a child depends on, its parent depends on. -/
theorem Reachable.of_hasChild {g : Grammar} {root child id : NodeId}
    (hchild : g.HasChild root child) (h : g.Reachable child id) : g.Reachable root id :=
  Relation.ReflTransGen.head hchild h

/-- A node that does not exist has no children. -/
theorem childrenOf_of_size_le {g : Grammar} {id : NodeId} (h : g.size ≤ id) :
    g.childrenOf id = [] := by
  unfold childrenOf
  rw [Array.getElem?_eq_none h]

end Grammar
end GuardedAutomata
