import GuardedAutomata.Automaton.Run
import GuardedAutomata.Pattern.Compile
import GuardedAutomata.Text.Quoted
import GuardedAutomata.Text.Utf16

/-!
# Regular expressions

A `Regex` is the text of a pattern together with its automaton, ready to be asked
whether a whole input matches.  How the text of a pattern is parsed is a
parameter: a parser answers with the tree, or with the reason why there is none.
-/

namespace GuardedAutomata

/-- Reads the text of a pattern, or says why it cannot be read. -/
abbrev PatternParser := String → Except String Pattern

/-- A compiled pattern together with its text. -/
structure Regex where
  pattern : String
  automaton : Automaton

namespace Regex

/-- Parses and compiles a pattern. -/
def compile (parser : PatternParser) (words : WordData) (settings : Settings)
    (pattern : String) : Except CompileError Regex := do
  let tree ← (parser pattern).mapError .parse
  let automaton ← tree.compile words settings
  return { pattern, automaton }

/-- The whole string matches. -/
def isMatch (r : Regex) (input : String) : Except Fault Bool :=
  r.automaton.accepts (.ofString input)

/-- The whole input, given as UTF-16 units, matches. -/
def isMatchUtf16 (r : Regex) (units : List UInt16) : Except Fault Bool :=
  r.automaton.accepts (.ofUtf16 units)

/-- The pattern and the automaton on one line. -/
def describe (r : Regex) : String :=
  Layout.record "Regex"
    [Layout.field "pattern" (Quoted.quote r.pattern),
      Layout.field "nfa" r.automaton.describe]

end Regex
end GuardedAutomata
