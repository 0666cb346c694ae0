import GuardedAutomata.Assertion
import GuardedAutomata.Text.RangeSet

/-!
# Patterns

A `Pattern` is a regular expression after parsing: a tree of literals, classes,
looks, repetitions, captures, concatenations and alternations.  Captures and
greediness have no bearing on which texts are accepted as a whole; they are part
of the tree because the parser puts them there.

A *look* is an assertion as patterns name it.  Each name stands for exactly one
assertion together with its flags, which is what `Look.assertion` says.
-/

namespace GuardedAutomata

/-- An assertion, as patterns name it. -/
inductive Look where
  | start
  | finish
  | startLF
  | endLF
  | startCRLF
  | endCRLF
  | wordAscii
  | wordAsciiNegate
  | wordUnicode
  | wordUnicodeNegate
  | wordStartAscii
  | wordEndAscii
  | wordStartUnicode
  | wordEndUnicode
  | wordStartHalfAscii
  | wordEndHalfAscii
  | wordStartHalfUnicode
  | wordEndHalfUnicode
  deriving DecidableEq

namespace Look

/-- Every look. -/
def all : List Look :=
  [.start, .finish, .startLF, .endLF, .startCRLF, .endCRLF, .wordAscii, .wordAsciiNegate,
    .wordUnicode, .wordUnicodeNegate, .wordStartAscii, .wordEndAscii, .wordStartUnicode,
    .wordEndUnicode, .wordStartHalfAscii, .wordEndHalfAscii, .wordStartHalfUnicode,
    .wordEndHalfUnicode]

/-- The name of a look. -/
def name : Look → String
  | .start => "Start"
  | .finish => "End"
  | .startLF => "StartLF"
  | .endLF => "EndLF"
  | .startCRLF => "StartCRLF"
  | .endCRLF => "EndCRLF"
  | .wordAscii => "WordAscii"
  | .wordAsciiNegate => "WordAsciiNegate"
  | .wordUnicode => "WordUnicode"
  | .wordUnicodeNegate => "WordUnicodeNegate"
  | .wordStartAscii => "WordStartAscii"
  | .wordEndAscii => "WordEndAscii"
  | .wordStartUnicode => "WordStartUnicode"
  | .wordEndUnicode => "WordEndUnicode"
  | .wordStartHalfAscii => "WordStartHalfAscii"
  | .wordEndHalfAscii => "WordEndHalfAscii"
  | .wordStartHalfUnicode => "WordStartHalfUnicode"
  | .wordEndHalfUnicode => "WordEndHalfUnicode"

/-- The look of a name. -/
def ofName? (s : String) : Option Look := all.find? fun l => l.name == s

/-- The assertion that a look stands for. -/
def assertion : Look → Assertion
  | .start => .textStart
  | .finish => .textEnd
  | .startLF => .startLine false
  | .endLF => .endLine false
  | .startCRLF => .startLine true
  | .endCRLF => .endLine true
  | .wordAscii => .wordBoundary false false
  | .wordAsciiNegate => .wordBoundary false true
  | .wordUnicode => .wordBoundary true false
  | .wordUnicodeNegate => .wordBoundary true true
  | .wordStartAscii => .wordStart false
  | .wordEndAscii => .wordEnd false
  | .wordStartUnicode => .wordStart true
  | .wordEndUnicode => .wordEnd true
  | .wordStartHalfAscii => .wordStartHalf false
  | .wordEndHalfAscii => .wordEndHalf false
  | .wordStartHalfUnicode => .wordStartHalf true
  | .wordEndHalfUnicode => .wordEndHalf true

/-- The look needs Unicode word characters. -/
def needsUnicode (l : Look) : Bool := l.assertion.needsUnicode

end Look

/-- A regular expression as a tree. -/
inductive Pattern where
  /-- The empty sequence. -/
  | empty
  /-- A byte string; see `Utf8.codePoints` for what it stands for. -/
  | literal (bytes : List UInt8)
  /-- One code point in one of the ranges. -/
  | codeClass (ranges : List CodeRange)
  /-- The empty sequence where an assertion holds. -/
  | look (look : Look)
  /-- Repetitions of a pattern, `min` to `max` of them; without `max`, any number
  from `min` on; exactly `min` if `max` is smaller. -/
  | repetition (min : Nat) (max : Option Nat) (greedy : Bool) (sub : Pattern)
  /-- A pattern in a numbered and perhaps named group. -/
  | capture (index : Nat) (name : Option String) (sub : Pattern)
  /-- One pattern after the other. -/
  | concat (subs : List Pattern)
  /-- Any one of the patterns. -/
  | alternation (subs : List Pattern)

end GuardedAutomata
