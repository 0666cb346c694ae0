import GuardedAutomata.Assertion
import GuardedAutomata.Text.RangeSet

/-!
# Grammars

A grammar is a table of nodes that refer to each other by number.  Because
children are numbers, a node may be the child of several others, and a node may
refer to one that is added later, or to none at all.  Nothing is checked when a
node is added; what a grammar can be used for is decided when it is used.

A *slot* is an indirection to one other node.  It can be added before its body
exists, and it can be bound again, which changes the meaning of every node that
refers to it.  Slots are also the only way to write a grammar that refers to
itself.
-/

namespace GuardedAutomata

/-- A node of a grammar, by its number. -/
abbrev NodeId := Nat

/-- A node of a grammar. -/
inductive Node where
  /-- The empty sequence. -/
  | empty
  /-- Whatever the body stands for; nothing yet, while there is no body. -/
  | slot (body : Option NodeId)
  /-- One child after the other. -/
  | concat (children : List NodeId)
  /-- Any one of the children. -/
  | alternation (children : List NodeId)
  /-- One code point of a class. -/
  | codeClass (members : CodeClass)
  /-- The empty sequence where an assertion holds. -/
  | assertion (condition : Assertion)
  /-- Copies of the body, `min` to `max` of them; without `max`, any number from
  `min` on; exactly `min` if `max` is smaller. -/
  | repetition (body : NodeId) (min : Nat) (max : Option Nat)

namespace Node

/-- The nodes that a node refers to, in order. -/
def children : Node → List NodeId
  | .empty | .codeClass _ | .assertion _ => []
  | .slot body => body.toList
  | .concat children | .alternation children => children
  | .repetition body _ _ => [body]

/-- The node with its children renumbered. -/
def mapChildren (f : NodeId → NodeId) : Node → Node
  | .slot body => .slot (body.map f)
  | .concat children => .concat (children.map f)
  | .alternation children => .alternation (children.map f)
  | .repetition body min max => .repetition (f body) min max
  | .empty => .empty
  | .codeClass members => .codeClass members
  | .assertion condition => .assertion condition

/-- The node on one line. -/
def describe : Node → String
  | .empty => "EmptyNode"
  | .slot body =>
      Layout.record "SlotNode" [Layout.field "body" (Layout.optional (body.map toString))]
  | .concat children =>
      Layout.record "Concat" [Layout.field "children" (Layout.list (children.map toString))]
  | .alternation children =>
      Layout.record "Alternation" [Layout.field "children" (Layout.list (children.map toString))]
  | .codeClass members =>
      Layout.record "ClassNode"
        [Layout.field "ranges" (Layout.list (members.ranges.map fun r =>
            Layout.pair (toString r.first) (toString r.last))),
          Layout.hidden]
  | .assertion condition => condition.describe
  | .repetition body min max =>
      Layout.record "Repetition"
        [Layout.field "body" (toString body), Layout.field "min" (toString min),
          Layout.field "max" (Layout.optional (max.map toString))]

@[simp] theorem children_mapChildren (f : NodeId → NodeId) (n : Node) :
    (n.mapChildren f).children = n.children.map f := by
  cases n with
  | slot body => cases body <;> rfl
  | _ => rfl

end Node

/-- A table of nodes. -/
structure Grammar where
  nodes : Array Node := #[]

namespace Grammar

/-- The grammar without nodes. -/
def empty : Grammar := {}

/-- The number of nodes, which is the number that the next node gets. -/
def size (g : Grammar) : Nat := g.nodes.size

/-- The grammar with one more node, whose number is the size before. -/
def push (g : Grammar) (n : Node) : Grammar := ⟨g.nodes.push n⟩

/-- The node of a number. -/
def node (g : Grammar) (id : NodeId) : Except Fault Node :=
  match g.nodes[id]? with
  | some n => .ok n
  | none => .error (.indexOutOfBounds g.size id)

/-- The children of a node, and none of a node that does not exist. -/
def childrenOf (g : Grammar) (id : NodeId) : List NodeId :=
  match g.nodes[id]? with
  | some n => n.children
  | none => []

/-- The grammar with a slot bound to a target.  The target is looked at first. -/
def bind (g : Grammar) (slot target : NodeId) : Except Fault Grammar := do
  unless target < g.size do throw (.missingNode target)
  match ← g.node slot with
  | .slot _ => return ⟨g.nodes.setIfInBounds slot (.slot (some target))⟩
  | _ => throw (.notASlot slot)

@[simp] theorem size_empty : empty.size = 0 := rfl

@[simp] theorem size_push (g : Grammar) (n : Node) : (g.push n).size = g.size + 1 :=
  Array.size_push n

end Grammar
end GuardedAutomata
