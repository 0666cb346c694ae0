import GuardedAutomata.Fault
import GuardedAutomata.Grammar.Basic

/-!
# The cycle check

A node that is one of its own descendants has no finite expansion, so a grammar
is checked before it is expanded.  The check walks over everything that can be
reached from a root, depth first.  Its stack holds the path to the node at hand,
each node with the children that are still to be visited, and every node of the
grammar has a mark: not seen, on the path, or done with.

* A child that is on the path closes a cycle.
* A child that is done with is not visited again; that it was reached a second
  time is no fault, because nodes may be shared.
* A child that does not exist is a fault.

## Why it ends

A step that enters a child takes one node from those not yet seen.  Every other
step leaves fewer children to be visited on the stack.  So the pair of the two
numbers goes down in the lexicographic order.
-/

namespace GuardedAutomata
namespace Grammar

/-- What the check knows of a node. -/
inductive Mark where
  | unseen
  | onPath
  | done
  deriving DecidableEq

/-- The path to the node at hand, the deepest node first, each with the children
that are still to be visited. -/
abbrev SearchPath := List (NodeId × List NodeId)

/-- The number of nodes that were not seen yet. -/
def unseenCount (marks : Array Mark) : Nat := marks.count .unseen

/-- The number of nodes and children that are left on a path. -/
def pathWeight (path : SearchPath) : Nat :=
  path.foldr (fun entry weight => entry.2.length + 1 + weight) 0

@[simp] theorem pathWeight_cons (entry : NodeId × List NodeId) (path : SearchPath) :
    pathWeight (entry :: path) = entry.2.length + 1 + pathWeight path := rfl

/-- A mark other than `unseen` leaves no more unseen nodes than before. -/
theorem unseenCount_setIfInBounds_le (marks : Array Mark) (id : NodeId) {mark : Mark}
    (h : mark ≠ .unseen) : unseenCount (marks.setIfInBounds id mark) ≤ unseenCount marks := by
  unfold unseenCount Array.setIfInBounds
  split
  · next hlt =>
    rw [Array.count_set hlt, if_neg (show ¬(mark == Mark.unseen) = true by simpa using h)]
    exact Nat.sub_le _ _
  · exact Nat.le_refl _

/-- Such a mark on an unseen node leaves fewer. -/
theorem unseenCount_setIfInBounds_lt {marks : Array Mark} {id : NodeId} {mark : Mark}
    (hid : marks[id]? = some .unseen) (h : mark ≠ .unseen) :
    unseenCount (marks.setIfInBounds id mark) < unseenCount marks := by
  obtain ⟨hlt, hget⟩ := Array.getElem?_eq_some_iff.mp hid
  have hpos : 0 < marks.count .unseen :=
    Array.count_pos_iff.mpr (hget ▸ Array.getElem_mem hlt)
  unfold unseenCount Array.setIfInBounds
  rw [dif_pos hlt, Array.count_set hlt, hget, if_pos (beq_self_eq_true _),
    if_neg (show ¬(mark == Mark.unseen) = true by simpa using h)]
  exact Nat.sub_lt hpos Nat.one_pos

/-- The walk from a path on. -/
def walk (g : Grammar) (path : SearchPath) (marks : Array Mark) : Except Fault Unit :=
  match path with
  | [] => .ok ()
  | (id, []) :: rest => walk g rest (marks.setIfInBounds id .done)
  | (id, child :: later) :: rest =>
      match _h : marks[child]? with
      | none => .error (.indexOutOfBounds marks.size child)
      | some .onPath => .error (.selfReference child id)
      | some .done => walk g ((id, later) :: rest) marks
      | some .unseen =>
          walk g ((child, g.childrenOf child) :: (id, later) :: rest)
            (marks.setIfInBounds child .onPath)
termination_by (unseenCount marks, pathWeight path)
decreasing_by
  · have hle : unseenCount (marks.setIfInBounds id .done) ≤ unseenCount marks :=
      unseenCount_setIfInBounds_le marks id (by decide)
    rcases Nat.lt_or_eq_of_le hle with hlt | heq
    · exact .left _ _ hlt
    · rw [heq]
      refine .right _ ?_
      simp only [pathWeight_cons, List.length_nil]
      omega
  · refine .right _ ?_
    simp only [pathWeight_cons, List.length_cons]
    omega
  · exact .left _ _ (unseenCount_setIfInBounds_lt _h (by decide))

/-- Checks that everything reachable from a root exists and that nothing reachable
from it is one of its own descendants. -/
def validate (g : Grammar) (root : NodeId) : Except Fault Unit :=
  if root < g.size then
    walk g [(root, g.childrenOf root)]
      ((Array.replicate g.size Mark.unseen).setIfInBounds root .onPath)
  else .error (.indexOutOfBounds g.size root)

end Grammar
end GuardedAutomata
