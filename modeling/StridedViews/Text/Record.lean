/-!
One-line descriptions of structured data: a name with its fields between braces, and lists between
brackets.
-/

namespace StridedViews.Text

/-- A name with its fields, each as its own name and its text, between braces. -/
def describe (name : String) (fields : List (String × String)) : String :=
  name ++ " \x7b " ++ ", ".intercalate (fields.map fun f => f.1 ++ ": " ++ f.2) ++ " \x7d"

/-- The texts of a list between brackets. -/
def bracketed (items : List String) : String := "[" ++ ", ".intercalate items ++ "]"

/-- The word for a truth value. -/
def truth (b : Bool) : String := if b then "true" else "false"

end StridedViews.Text
