import GuardedAutomata.Pattern.Basic
import GuardedAutomata.Text.Utf8

/-!
# How many states a pattern needs

Before a pattern is compiled, the number of states that its automaton takes
beyond the source and the target is estimated from the tree alone.

* `Pattern.stateBound` is the estimate as a natural number.
* `Pattern.estimate` is the same in 64-bit words that saturate: a result too
  large for the word is replaced by the greatest word.  Counted repetitions can
  be nested, so the natural number may have any number of digits, while a word
  is enough to see that a limit is exceeded.

A literal and a concatenation take one state between neighbours.  A copy of a
repetition takes the states of its body and one to continue from; an unbounded
repetition takes its mandatory copies and two more, for the loop.
-/

namespace GuardedAutomata

namespace Saturating

/-- The word of a number, and the greatest word for every number that is too large. -/
def ofNat (n : Nat) : UInt64 := UInt64.ofNatClamp n

/-- The saturating sum. -/
def add (a b : UInt64) : UInt64 := ofNat (a.toNat + b.toNat)

/-- The saturating product. -/
def mul (a b : UInt64) : UInt64 := ofNat (a.toNat * b.toNat)

end Saturating

namespace Pattern

/-- The number of copies that a repetition counts for. -/
def copyCount (min : Nat) : Option Nat → Nat
  | some max => max
  | none => min + 2

/-- The states of a search around a pattern: two loops and the two joins. -/
def searchStates : Nat := 6

mutual

/-- The estimated number of states of a pattern beyond the source and the target. -/
def stateBound : Pattern → Nat
  | .empty | .codeClass _ | .look _ => 0
  | .literal bytes => (Utf8.codePoints bytes).length - 1
  | .repetition min max _ sub => (stateBound sub + 1) * copyCount min max
  | .capture _ _ sub => stateBound sub
  | .concat subs => subs.length - 1 + stateBoundAll subs
  | .alternation subs => stateBoundAll subs

/-- The sum of the estimates of several patterns. -/
def stateBoundAll : List Pattern → Nat
  | [] => 0
  | sub :: rest => stateBound sub + stateBoundAll rest

end

mutual

/-- The estimate of `stateBound` in saturating words. -/
def estimateTree : Pattern → UInt64
  | .empty | .codeClass _ | .look _ => 0
  | .literal bytes => Saturating.ofNat ((Utf8.codePoints bytes).length - 1)
  | .repetition min max _ sub =>
      let copies := match max with
        | some max => Saturating.ofNat max
        | none => Saturating.add (Saturating.ofNat min) 2
      Saturating.mul (Saturating.add (estimateTree sub) 1) copies
  | .capture _ _ sub => estimateTree sub
  | .concat subs => estimateSum (Saturating.ofNat (subs.length - 1)) subs
  | .alternation subs => estimateSum 0 subs

/-- The estimates of several patterns, added to what is there already. -/
def estimateSum : UInt64 → List Pattern → UInt64
  | total, [] => total
  | total, sub :: rest => estimateSum (Saturating.add total (estimateTree sub)) rest

end

/-- The estimated number of states of a pattern, or of a search for it, beyond the
source and the target. -/
def estimate (unanchored : Bool) (p : Pattern) : UInt64 :=
  if unanchored then Saturating.add p.estimateTree (Saturating.ofNat searchStates)
  else p.estimateTree

end Pattern
end GuardedAutomata
