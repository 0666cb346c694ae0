import GuardedAutomata.Pattern.Postfix
import GuardedAutomata.Regex

/-!
# The demonstration program

Given a pattern and inputs, the program prints the automaton of the pattern and,
for each input, whether it matches.  Without arguments it does this for a fixed
list of patterns.

`Demo.run` is the program as a function of its arguments: what it writes to the
two output channels and the code it ends with.
-/

namespace GuardedAutomata
namespace Demo

/-- What the program leaves behind. -/
structure Report where
  exit : UInt32 := 0
  stdout : String := ""
  stderr : String := ""
  deriving DecidableEq

namespace Report

/-- One report after the other; the first code other than `0` counts. -/
def append (first second : Report) : Report where
  exit := if first.exit = 0 then second.exit else first.exit
  stdout := first.stdout ++ second.stdout
  stderr := first.stderr ++ second.stderr

/-- A line on the standard output. -/
def line (s : String) : Report where
  stdout := s ++ "\n"

end Report

/-- The first line of the fixed demonstration, which is underlined. -/
def title : String := "Cursor NFA Compiler - Automaton Structure Demo"

/-- The patterns of the fixed demonstration, each with its inputs. -/
def examples : List (String × List String) :=
  [("ab", ["ab", "a", "abc"]),
    ("a*", ["", "aaa", "ab"]),
    ("a|b", ["a", "b", "ab"]),
    ("[^abc]", ["x", "a"]),
    ("^a$", ["a", "ab", ""]),
    ("(?m)^b$", ["b", "a\nb"]),
    ("\\bcat\\b", ["cat", "cats"]),
    ("(?:ab)\x7b2,3\x7d", ["abab", "ab"])]

/-- The report on the inputs of a pattern.  A fault would end the program there. -/
def reportInputs (r : Regex) : List String → Report
  | [] => {}
  | input :: rest =>
      match r.isMatch input with
      | .ok accepted =>
          (Report.line (Quoted.quote input ++ (if accepted then " -> match" else " -> no match")))
            |>.append (reportInputs r rest)
      | .error fault => { exit := 101, stderr := fault.message ++ "\n" }

/-- The report on one pattern and its inputs. -/
def reportPattern (parser : PatternParser) (words : WordData) (pattern : String)
    (inputs : List String) : Report :=
  let heading := Report.line s!"\n=== Pattern: '{pattern}' ==="
  match Regex.compile parser words {} pattern with
  | .error e => heading.append { exit := 1, stderr := s!"Failed to compile: {e.message}\n" }
  | .ok r =>
      let automaton : Report := { stdout := r.automaton.display }
      (heading.append automaton).append (reportInputs r inputs)

/-- The program.  In the fixed demonstration a pattern that cannot be compiled is
reported, but it does not count as a failure. -/
def run (parser : PatternParser) (words : WordData) : List String → Report
  | pattern :: inputs => reportPattern parser words pattern inputs
  | [] =>
      let heading := (Report.line title).append
        (.line (String.ofList (List.replicate title.length '=')))
      examples.foldl
        (fun report e => report.append { reportPattern parser words e.1 e.2 with exit := 0 })
        heading

/-- The patterns that the program needs parsed, in the order of their use. -/
def patterns : List String → List String
  | pattern :: _ => [pattern]
  | [] => examples.map Prod.fst

/-- The parser that knows the given patterns, each by the line that stands for it:
a pattern in postfix form, or else the reason why there is none. -/
def parserOf (known : List (String × String)) : PatternParser := fun pattern =>
  match known.lookup pattern with
  | none => .error "no tree was given for the pattern"
  | some line =>
      match Pattern.ofPostfix? line with
      | some tree => .ok tree
      | none => .error line

end Demo
end GuardedAutomata
