import GuardedAutomata.Pattern.Basic

/-!
# Patterns in postfix form

A parsed pattern can be handed over as one line of words, each node after the
nodes below it.  The reader keeps a stack of finished patterns; a word takes the
patterns it stands above from the stack and puts one back.  A line is a pattern
if exactly one is left at the end.

    empty   literal:97,98   class:48-57,97-122   look:WordUnicode
    repeat:0:*:greedy   repeat:2:3:lazy   capture:1   capture:1:name
    concat:2   alternation:3

All numbers are decimal.  The number after `concat` and `alternation` counts the
patterns that they join.
-/

namespace GuardedAutomata
namespace Pattern

/-- The items of a list that is separated by commas; an empty text has none. -/
def items (s : String) : List String := if s.isEmpty then [] else s.splitOn ","

/-- A number of at most the given size. -/
def numberUpTo? (limit : Nat) (s : String) : Option Nat := do
  let n ← s.toNat?
  if n ≤ limit then some n else none

/-- A range as two numbers with a hyphen between them. -/
def range? (s : String) : Option CodeRange :=
  match s.splitOn "-" with
  | [first, last] => do
      let first ← numberUpTo? 0xFFFFFFFF first
      let last ← numberUpTo? 0xFFFFFFFF last
      return ⟨.ofNat first, .ofNat last⟩
  | _ => none

/-- The upper bound of a repetition, where `*` stands for none. -/
def bound? (s : String) : Option (Option Nat) :=
  if s == "*" then some none else some <$> s.toNat?

/-- Takes the given number of patterns from a stack; the topmost comes last. -/
def takeTop? (count : Nat) (stack : List Pattern) : Option (List Pattern × List Pattern) :=
  if count ≤ stack.length then some ((stack.take count).reverse, stack.drop count) else none

/-- The effect of one word on the stack. -/
def readWord? (stack : List Pattern) (word : String) : Option (List Pattern) :=
  match word.splitOn ":", stack with
  | ["empty"], stack => some (.empty :: stack)
  | ["literal", bytes], stack => do
      let bytes ← (items bytes).mapM (numberUpTo? 0xFF)
      return .literal (bytes.map UInt8.ofNat) :: stack
  | ["class", ranges], stack => do
      let ranges ← (items ranges).mapM range?
      return .codeClass ranges :: stack
  | ["look", name], stack => do
      let l ← Look.ofName? name
      return .look l :: stack
  | ["repeat", min, max, greed], sub :: stack => do
      let min ← min.toNat?
      let max ← bound? max
      return .repetition min max (greed == "greedy") sub :: stack
  | ["capture", index], sub :: stack => do
      let index ← index.toNat?
      return .capture index none sub :: stack
  | ["capture", index, name], sub :: stack => do
      let index ← index.toNat?
      return .capture index (some name) sub :: stack
  | ["concat", count], stack => do
      let count ← count.toNat?
      let (subs, stack) ← takeTop? count stack
      return .concat subs :: stack
  | ["alternation", count], stack => do
      let count ← count.toNat?
      let (subs, stack) ← takeTop? count stack
      return .alternation subs :: stack
  | _, _ => none

/-- Reads a line of words. -/
def ofPostfix? (line : String) : Option Pattern := do
  let words := (line.splitOn " ").filter fun word => !word.isEmpty
  match ← words.foldlM readWord? [] with
  | [p] => some p
  | _ => none

end Pattern
end GuardedAutomata
