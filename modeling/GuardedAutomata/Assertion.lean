import GuardedAutomata.Text.Basic
import GuardedAutomata.Text.Word

/-!
# Assertions

An assertion is a condition on a slot of a text that consumes nothing: being at
an end of the text, at an end of a line, or at an end of a word.  Each is
decided by the code points on the two sides of the cursor and by nothing else.

Lines end in a line feed.  With `crlf` they end in a carriage return as well,
and a carriage return directly followed by a line feed is *one* terminator, so
no line starts or ends between the two.

Word assertions look up their neighbours in the given `WordData`.
-/

namespace GuardedAutomata

/-- A condition on a slot of a text. -/
inductive Assertion where
  /-- The slot before the first code point. -/
  | textStart
  /-- The slot after the last code point. -/
  | textEnd
  /-- The first slot of a line. -/
  | startLine (crlf : Bool)
  /-- The last slot of a line, before its terminator. -/
  | endLine (crlf : Bool)
  /-- A word character on exactly one side; with `negate`, on neither or both. -/
  | wordBoundary (unicode negate : Bool)
  /-- No word character before, and one after. -/
  | wordStart (unicode : Bool)
  /-- A word character before, and none after. -/
  | wordEnd (unicode : Bool)
  /-- No word character before, whatever comes after. -/
  | wordStartHalf (unicode : Bool)
  /-- No word character after, whatever comes before. -/
  | wordEndHalf (unicode : Bool)
  deriving DecidableEq

namespace Assertion

/-- The line feed. -/
def lineFeed : UInt32 := 0x0A

/-- The carriage return. -/
def carriageReturn : UInt32 := 0x0D

/-- The assertion holds between the two given neighbours of a slot, where `none`
is the outside of the text. -/
def holdsBetween (words : WordData) (a : Assertion) (before after : Option UInt32) : Bool :=
  match a with
  | .textStart => before.isNone
  | .textEnd => after.isNone
  | .startLine false => before.isNone || before == some lineFeed
  | .endLine false => after.isNone || after == some lineFeed
  | .startLine true =>
      before.isNone || before == some lineFeed ||
        (before == some carriageReturn && after != some lineFeed)
  | .endLine true =>
      after.isNone || after == some carriageReturn ||
        (after == some lineFeed && before != some carriageReturn)
  | .wordBoundary unicode negate =>
      (words.isWord unicode before != words.isWord unicode after) != negate
  | .wordStart unicode => !words.isWord unicode before && words.isWord unicode after
  | .wordEnd unicode => words.isWord unicode before && !words.isWord unicode after
  | .wordStartHalf unicode => !words.isWord unicode before
  | .wordEndHalf unicode => !words.isWord unicode after

/-- The assertion holds at the cursor of a text. -/
def holds (words : WordData) (a : Assertion) (t : Text) : Bool :=
  a.holdsBetween words t.before? t.after?

/-- The assertion asks for Unicode word characters. -/
def needsUnicode : Assertion → Bool
  | .wordBoundary unicode _ | .wordStart unicode | .wordEnd unicode
  | .wordStartHalf unicode | .wordEndHalf unicode => unicode
  | .textStart | .textEnd | .startLine _ | .endLine _ => false

/-- The assertion on one line. -/
def describe : Assertion → String
  | .textStart => "Start"
  | .textEnd => "End"
  | .startLine crlf => flagged "StartLine" [("crlf", crlf)]
  | .endLine crlf => flagged "EndLine" [("crlf", crlf)]
  | .wordBoundary unicode negate =>
      flagged "WordBoundary" [("unicode", unicode), ("negate", negate)]
  | .wordStart unicode => flagged "WordStart" [("unicode", unicode)]
  | .wordEnd unicode => flagged "WordEnd" [("unicode", unicode)]
  | .wordStartHalf unicode => flagged "WordStartHalf" [("unicode", unicode)]
  | .wordEndHalf unicode => flagged "WordEndHalf" [("unicode", unicode)]
where
  /-- A record whose fields are flags. -/
  flagged (name : String) (flags : List (String × Bool)) : String :=
    Layout.record name (flags.map fun f => Layout.field f.1 (Layout.truth f.2))

end Assertion
end GuardedAutomata
