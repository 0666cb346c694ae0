/-!
# Byte strings as code points

A literal of a pattern is a byte string.  When the bytes are well-formed UTF-8
they stand for the characters they encode.  Otherwise no part of them is read as
UTF-8: each byte stands for the code point of its own value.  The choice is made
once for the whole string, so it is not a property of the single bytes.
-/

namespace GuardedAutomata
namespace Utf8

/-- The characters of a byte string, if it is well-formed UTF-8. -/
def chars? (bytes : List UInt8) : Option (List Char) :=
  (String.fromUTF8? bytes.toByteArray).map String.toList

/-- The code points that a byte string stands for. -/
def codePoints (bytes : List UInt8) : List UInt32 :=
  match chars? bytes with
  | some chars => chars.map Char.val
  | none => bytes.map UInt8.toUInt32

end Utf8
end GuardedAutomata
