/-!
# Layouts

The one-line description of a value is put together from four shapes: a record
with named fields, a bracketed list, a tuple and a tagged value.  The shapes are
here, and each type that has a description says which one it takes.
-/

namespace GuardedAutomata
namespace Layout

/-- A record: its name, then its fields in braces. -/
def record (name : String) (fields : List String) : String :=
  name ++ " \x7b " ++ ", ".intercalate fields ++ " \x7d"

/-- A field of a record. -/
def field (name value : String) : String := name ++ ": " ++ value

/-- The field that stands for contents that have no description. -/
def hidden : String := ".."

/-- A list in square brackets. -/
def list (items : List String) : String := "[" ++ ", ".intercalate items ++ "]"

/-- A pair in parentheses. -/
def pair (first second : String) : String := "(" ++ first ++ ", " ++ second ++ ")"

/-- A tag applied to a value. -/
def tagged (tag value : String) : String := tag ++ "(" ++ value ++ ")"

/-- An optional value, tagged by whether it is there. -/
def optional : Option String → String
  | none => "None"
  | some value => tagged "Some" value

/-- A truth value. -/
def truth : Bool → String
  | true => "true"
  | false => "false"

end Layout
end GuardedAutomata
