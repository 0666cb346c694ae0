import GuardedAutomata.Pattern.Basic
import GuardedAutomata.SlotRelation
import GuardedAutomata.Text.Utf8

/-!
# What patterns stand for

`Pattern.spans` is the meaning of a pattern on a text: the relation between the
slots where it can begin and those where it can end.  It follows the tree, and
it knows neither automata nor the order in which alternatives are tried.

Assertions are decided at their slot of the whole text, also inside a part of it
that is matched by a search.
-/

namespace GuardedAutomata
namespace Pattern

/-- The value lies in one of the ranges. -/
def InRanges (ranges : List CodeRange) (v : UInt32) : Prop :=
  ∃ r ∈ ranges, r.first ≤ v ∧ v ≤ r.last

mutual

/-- The slots between which a pattern can stand. -/
def spans (words : WordData) (w : Array UInt32) : Pattern → SlotRelation
  | .empty => SlotRelation.stay
  | .literal bytes => SlotRelation.word w (Utf8.codePoints bytes)
  | .codeClass ranges => SlotRelation.symbol w (InRanges ranges)
  | .look l => SlotRelation.condition w (l.assertion.holds words)
  | .repetition min max _ sub => SlotRelation.repetition (spans words w sub) min max
  | .capture _ _ sub => spans words w sub
  | .concat subs => SlotRelation.inOrder (spansAll words w subs)
  | .alternation subs => SlotRelation.oneOf (spansAll words w subs)

/-- The relations of several patterns, in order. -/
def spansAll (words : WordData) (w : Array UInt32) : List Pattern → List SlotRelation
  | [] => []
  | sub :: rest => spans words w sub :: spansAll words w rest

end

/-- The pattern can stand for the whole text. -/
def Matches (words : WordData) (p : Pattern) (w : Array UInt32) : Prop :=
  p.spans words w 0 w.size

/-- The pattern can stand for some part of the text. -/
def Occurs (words : WordData) (p : Pattern) (w : Array UInt32) : Prop :=
  ∃ i j, i ≤ j ∧ j ≤ w.size ∧ p.spans words w i j

/-- Several patterns are taken one by one. -/
@[simp] theorem spansAll_eq_map (words : WordData) (w : Array UInt32) (subs : List Pattern) :
    spansAll words w subs = subs.map (spans words w) := by
  induction subs with
  | nil => rfl
  | cons sub rest ih => rw [spansAll, ih, List.map_cons]

end Pattern
end GuardedAutomata
