/-!
# Sets of code points given by ranges

A class of code points is written as a list of inclusive ranges, in any order:
ranges may overlap, touch, repeat and be empty.  `CodeRange.canonical` brings
such a list into its canonical form --- no empty range, ascending, and at least
one value missing between neighbours --- and `RangeSet` looks values up in that
form by bisection.

## How the canonical form is reached

Empty ranges are dropped first, so that afterwards every range has a least and a
greatest member.  The rest is sorted by first member, then by last.  One scan
then joins each range to the one before it whenever the two overlap or touch.
Touching is decided by `successor`, which has no value to go to above the
greatest 32-bit value and stays there: a range that reaches the top absorbs
everything after it, and nothing wraps round to `0`.
-/

namespace GuardedAutomata

/-- The code points from `first` to `last`, both included; none if `last` is
the smaller one. -/
structure CodeRange where
  first : UInt32
  last : UInt32
  deriving DecidableEq

namespace CodeRange

/-- The range of a single code point. -/
def single (v : UInt32) : CodeRange := ⟨v, v⟩

/-- The range of all 32-bit values. -/
def all : CodeRange := ⟨0, 0xFFFFFFFF⟩

/-- The range has a member. -/
def isInhabited (r : CodeRange) : Bool := r.first ≤ r.last

/-- The order by first member, then by last. -/
def precedes (r s : CodeRange) : Bool :=
  r.first < s.first || (r.first == s.first && r.last ≤ s.last)

/-- The next value, or the same one at the top of the 32-bit range. -/
def successor (v : UInt32) : UInt32 := if v = 0xFFFFFFFF then v else v + 1

/-- One scan over ranges in ascending order, with `current` still growing. -/
def absorb (current : CodeRange) : List CodeRange → List CodeRange
  | [] => [current]
  | r :: rest =>
      if r.first ≤ successor current.last then
        absorb ⟨current.first, max current.last r.last⟩ rest
      else current :: absorb r rest

/-- Joins ranges in ascending order wherever neighbours overlap or touch. -/
def joinNeighbours : List CodeRange → List CodeRange
  | [] => []
  | r :: rest => absorb r rest

/-- The canonical form of a list of ranges. -/
def canonical (ranges : List CodeRange) : List CodeRange :=
  joinNeighbours ((ranges.filter isInhabited).mergeSort precedes)

end CodeRange

/-- Ranges in canonical form, ready for look-up. -/
structure RangeSet where
  ranges : Array CodeRange
  deriving DecidableEq

namespace RangeSet

/-- The set of all values in one of the given ranges. -/
def ofList (ranges : List CodeRange) : RangeSet := ⟨(CodeRange.canonical ranges).toArray⟩

/-- Bisection among the ranges with index at least `low` and below `high`. -/
def search (ranges : Array CodeRange) (v : UInt32) (low high : Nat) : Bool :=
  if low < high then
    let middle := low + (high - low) / 2
    match ranges[middle]? with
    | none => false
    | some r =>
        if r.last < v then search ranges v (middle + 1) high
        else if v < r.first then search ranges v low middle
        else true
  else false
termination_by high - low

/-- The value lies in one of the ranges. -/
def contains (s : RangeSet) (v : UInt32) : Bool := search s.ranges v 0 s.ranges.size

end RangeSet

/-- A class of code points: the ranges as they were written, and the set they
denote, brought into canonical form once for every edge that tests it. -/
structure CodeClass where
  ranges : List CodeRange
  set : RangeSet := RangeSet.ofList ranges
  set_eq : set = RangeSet.ofList ranges := by rfl

namespace CodeClass

/-- The class of the given ranges. -/
def ofRanges (ranges : List CodeRange) : CodeClass := { ranges }

/-- The class of one code point. -/
def single (v : UInt32) : CodeClass := ofRanges [.single v]

/-- The class of every 32-bit value, surrogates included. -/
def any : CodeClass := ofRanges [.all]

/-- The class accepts the value. -/
def accepts (c : CodeClass) (v : UInt32) : Bool := c.set.contains v

end CodeClass
end GuardedAutomata
