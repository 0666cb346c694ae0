import GuardedAutomata.Text.Basic

/-!
# Texts and UTF-16 code units

A list of UTF-16 units is read from left to right.  A high surrogate that is
followed directly by a low surrogate is one code point beyond `0xFFFF`; every
other unit, an unpaired surrogate included, is the code point of its own value.
So no list of units is refused, and `encode` takes every decoded list back to
the units it came from.

All the arithmetic is on code points rather than on units, so that both
directions speak of the same two tests, `isHigh` and `isLow`.
-/

namespace GuardedAutomata
namespace Utf16

/-- The value is a high (leading) surrogate. -/
def isHigh (v : UInt32) : Bool := 0xD800 ≤ v && v ≤ 0xDBFF

/-- The value is a low (trailing) surrogate. -/
def isLow (v : UInt32) : Bool := 0xDC00 ≤ v && v ≤ 0xDFFF

/-- The code point that a high and a low surrogate stand for together. -/
def combine (high low : UInt32) : UInt32 :=
  0x10000 + (high - 0xD800) * 0x400 + (low - 0xDC00)

/-- The code points of a list of units. -/
def decode : List UInt16 → List UInt32
  | [] => []
  | [u] => [u.toUInt32]
  | u :: v :: rest =>
      if isHigh u.toUInt32 && isLow v.toUInt32 then
        combine u.toUInt32 v.toUInt32 :: decode rest
      else u.toUInt32 :: decode (v :: rest)

/-- The units of one code point: a surrogate pair from `0x10000` on, and the
value itself below. -/
def encodeOne (v : UInt32) : List UInt16 :=
  if v < 0x10000 then [v.toUInt16]
  else
    [(0xD800 + (v - 0x10000) / 0x400).toUInt16, (0xDC00 + (v - 0x10000) % 0x400).toUInt16]

/-- The units of a list of code points. -/
def encode (values : List UInt32) : List UInt16 := values.flatMap encodeOne

@[simp] theorem decode_nil : decode [] = [] := rfl

@[simp] theorem encode_nil : encode [] = [] := rfl

@[simp] theorem encode_cons (v : UInt32) (values : List UInt32) :
    encode (v :: values) = encodeOne v ++ encode values := rfl

end Utf16

/-- The text of a list of UTF-16 units, its cursor at the start. -/
def Text.ofUtf16 (units : List UInt16) : Text :=
  Text.ofValues (Utf16.decode units).toArray

end GuardedAutomata
