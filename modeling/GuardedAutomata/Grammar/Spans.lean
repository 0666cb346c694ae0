import GuardedAutomata.Grammar.Basic
import GuardedAutomata.SlotRelation

/-!
# What nodes stand for

The meaning of a node on a text is put together from the meanings of its
children.  A grammar may refer to itself, so the meaning is reached from below:
`spansWithin` follows children to a bounded depth and finds nothing beyond it,
and a node relates two slots if it does so at some depth.
-/

namespace GuardedAutomata

/-- The slots between which a node can stand, given those of its children. -/
def Node.spans (words : WordData) (w : Array UInt32) (child : NodeId → SlotRelation) :
    Node → SlotRelation
  | .empty => SlotRelation.stay
  | .slot none => SlotRelation.oneOf []
  | .slot (some body) => child body
  | .concat children => SlotRelation.inOrder (children.map child)
  | .alternation children => SlotRelation.oneOf (children.map child)
  | .codeClass members =>
      SlotRelation.symbol w fun v => ∃ r ∈ members.ranges, r.first ≤ v ∧ v ≤ r.last
  | .assertion condition => SlotRelation.condition w (condition.holds words)
  | .repetition body min max => SlotRelation.repetition (child body) min max

namespace Grammar

/-- The slots between which a node can stand, its descendants followed to a depth. -/
def spansWithin (words : WordData) (g : Grammar) (w : Array UInt32) :
    Nat → NodeId → SlotRelation
  | 0, _ => SlotRelation.oneOf []
  | depth + 1, id =>
      match g.nodes[id]? with
      | none => SlotRelation.oneOf []
      | some n => n.spans words w (spansWithin words g w depth)

/-- The slots between which a node can stand. -/
def spans (words : WordData) (g : Grammar) (w : Array UInt32) (id : NodeId) : SlotRelation :=
  fun i j => ∃ depth, g.spansWithin words w depth id i j

end Grammar
end GuardedAutomata
