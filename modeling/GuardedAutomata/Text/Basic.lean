import GuardedAutomata.Fault
import GuardedAutomata.Layout

/-!
# Texts with a cursor

A `Text` is a sequence of code points together with a cursor.  A text of length
`n` has `n + 1` cursor positions, the *slots* `0, …, n`: slot `0` stands before
the first code point and slot `n` after the last.  Guards look at a text at its
cursor, and only the matcher moves it.

A code point is any 32-bit value, so a text can hold unpaired surrogates and
values beyond the Unicode range.  That the cursor names a slot is part of the
type; `Text.setCursor` is the one way to move it and faults where that would
break.
-/

namespace GuardedAutomata

/-- A sequence of code points and a cursor at one of its slots. -/
structure Text where
  /-- The code points, in order. -/
  values : Array UInt32
  /-- The slot that guards look at. -/
  cursor : Nat := 0
  cursor_le : cursor ≤ values.size := by omega
  deriving DecidableEq

namespace Text

/-- The text with the given code points, its cursor at the start. -/
def ofValues (values : Array UInt32) : Text where
  values

/-- The text with the given code points, its cursor at a slot. -/
def ofValuesAt (values : Array UInt32) (slot : Nat) (h : slot ≤ values.size) : Text where
  values
  cursor := slot
  cursor_le := h

/-- The text without code points. -/
def empty : Text := ofValues #[]

/-- The characters of a string, its cursor at the start. -/
def ofString (s : String) : Text := ofValues (s.toList.map Char.val).toArray

/-- The number of code points. -/
def length (t : Text) : Nat := t.values.size

/-- The code point at a position. -/
def get (t : Text) (position : Nat) : Except Fault UInt32 :=
  match t.values[position]? with
  | some value => .ok value
  | none => .error (.indexOutOfBounds t.length position)

/-- The same code points with the cursor at another slot. -/
def setCursor (t : Text) (slot : Nat) : Except Fault Text :=
  if h : slot ≤ t.values.size then .ok (ofValuesAt t.values slot h)
  else .error (.cursorOutOfRange slot)

/-- The code point before the cursor, if there is one. -/
def before? (t : Text) : Option UInt32 :=
  match t.cursor with
  | 0 => none
  | position + 1 => t.values[position]?

/-- The code point after the cursor, if there is one. -/
def after? (t : Text) : Option UInt32 := t.values[t.cursor]?

/-- The code points and the cursor on one line. -/
def describe (t : Text) : String :=
  Layout.record "CodePoints"
    [Layout.field "values" (Layout.list (t.values.toList.map toString)),
      Layout.field "cursor" (toString t.cursor)]

@[simp] theorem length_ofValues (values : Array UInt32) :
    (ofValues values).length = values.size := rfl

@[simp] theorem cursor_ofValues (values : Array UInt32) : (ofValues values).cursor = 0 := rfl

@[simp] theorem length_ofValuesAt (values : Array UInt32) (slot : Nat) (h : slot ≤ values.size) :
    (ofValuesAt values slot h).length = values.size := rfl

@[simp] theorem cursor_ofValuesAt (values : Array UInt32) (slot : Nat) (h : slot ≤ values.size) :
    (ofValuesAt values slot h).cursor = slot := rfl

/-- Reading inside the text answers with the code point there. -/
theorem get_eq_ok {t : Text} {position : Nat} (h : position < t.values.size) :
    t.get position = .ok t.values[position] := by
  unfold get
  rw [Array.getElem?_eq_getElem h]

/-- Moving the cursor to a slot of the text changes nothing else. -/
theorem setCursor_eq_ok {t : Text} {slot : Nat} (h : slot ≤ t.values.size) :
    t.setCursor slot = .ok (ofValuesAt t.values slot h) :=
  dif_pos h

end Text
end GuardedAutomata
