/-!
# Word characters

Word boundaries ask of a neighbour of the cursor whether it is a word character.
There are two answers to choose from: an ASCII one, given by bytes, and the
Unicode one.  Both are data that `WordData` carries, and the Unicode one may be
missing.  Nothing below depends on which characters they name, so what holds of
word assertions holds for every choice of data.

A value that is no character --- an unpaired surrogate, or a value beyond the
Unicode range --- is no word character, and neither is the outside of a text.
-/

namespace GuardedAutomata

/-- The word characters: those of ASCII, and those of Unicode where they are known. -/
structure WordData where
  /-- Whether the byte of an ASCII character is a word character. -/
  ascii : UInt8 → Bool
  /-- Whether a character is a Unicode word character; `none` if that is not known. -/
  unicode : Option (Char → Bool)

namespace WordData

/-- The letters, digits and underscore of ASCII, without the Unicode word characters. -/
def missing : WordData where
  ascii b := (Char.ofUInt8 b).isAlphanum || b == '_'.toUInt8
  unicode := none

/-- The Unicode word characters are known. -/
def hasUnicode (words : WordData) : Bool := words.unicode.isSome

/-- The character with a given value, if there is one. -/
def char? (v : UInt32) : Option Char :=
  if h : v.isValidChar then some ⟨v, h⟩ else none

/-- The character is a word character, in the Unicode or in the ASCII sense.
Where the Unicode word characters are not known, no character is one. -/
def isWordChar (words : WordData) (unicode : Bool) (c : Char) : Bool :=
  if unicode then
    match words.unicode with
    | some isWord => isWord c
    | none => false
  else c.val ≤ 127 && words.ascii c.val.toUInt8

/-- The neighbour of a cursor, if there is one, is a word character. -/
def isWord (words : WordData) (unicode : Bool) (neighbour : Option UInt32) : Bool :=
  match neighbour.bind char? with
  | some c => words.isWordChar unicode c
  | none => false

@[simp] theorem isWord_none (words : WordData) (unicode : Bool) :
    words.isWord unicode none = false := rfl

end WordData
end GuardedAutomata
