/-!
# Anchors: naming a slot by an index

A text of length `n` has the slots `0, …, n`.  An index names a slot from the
start if it is not negative and from the end if it is: `0` is the slot before
the first code point and `-1` the slot after the last, whatever the length.
`Anchor.names` is this rule over the integers.

`Anchor.namesWord?` computes the same in 64-bit arithmetic, where the
difference of two positions and the successor of an index have to fit into a
signed word.  It refuses, by `none`, a computation that leaves the word.
-/

namespace GuardedAutomata
namespace Anchor

/-- The slot `cursor` of a text of the given length is the one the index names. -/
def names (index : Int) (cursor length : Nat) : Bool :=
  if 0 ≤ index then (cursor : Int) == index
  else (cursor : Int) - (length : Int) == index + 1

/-- From the start, an index names the slot of its own number. -/
theorem names_of_nonneg {index : Int} (h : 0 ≤ index) (cursor length : Nat) :
    names index cursor length = true ↔ (cursor : Int) = index := by
  rw [names, if_pos h, beq_iff_eq]

/-- From the end, `-1` names the last slot and each index the slot before that of the
next. -/
theorem names_of_neg {index : Int} (h : index < 0) (cursor length : Nat) :
    names index cursor length = true ↔ (cursor : Int) = (length : Int) + index + 1 := by
  rw [names, if_neg (Int.not_le.mpr h), beq_iff_eq]
  omega

/-- The difference of two signed words, if it is one. -/
def subWord? (a b : Int64) : Option Int64 :=
  if (a - b).toInt = a.toInt - b.toInt then some (a - b) else none

/-- The sum of two signed words, if it is one. -/
def addWord? (a b : Int64) : Option Int64 :=
  if (a + b).toInt = a.toInt + b.toInt then some (a + b) else none

/-- The rule of `names` in 64-bit arithmetic; `none` if a result leaves the word. -/
def namesWord? (index : Int64) (cursor length : UInt64) : Option Bool :=
  if 0 ≤ index then some (cursor == index.toUInt64)
  else do
    let distance ← subWord? cursor.toInt64 length.toInt64
    let slot ← addWord? index 1
    return distance == slot

end Anchor
end GuardedAutomata
