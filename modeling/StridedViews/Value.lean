import StridedViews.Text.Quoted
import StridedViews.Text.Record
import StridedViews.Text.Shortest

/-!
Boxed values, as the generic entry of an operation takes and returns them. Integers are signed
64-bit words. Equality of values is that of their contents, so it follows the equality of doubles:
`nan` differs from itself and the two zeros are equal.
-/

namespace StridedViews

/-- A boxed value. `noValue` marks an argument that was not given and is not the value `none`. -/
inductive Value where
  | noValue
  | none
  | bool (b : Bool)
  | int (i : Int64)
  | float (x : Float)
  | str (s : String)
  | bytes (bs : List UInt8)
  deriving BEq, Inhabited

namespace Value

/-- The name of a value's type. -/
def typeName : Value → String
  | noValue => "NoValue"
  | none => "NoneType"
  | bool _ => "bool"
  | int _ => "int"
  | float _ => "float"
  | str _ => "str"
  | bytes _ => "bytes"

/-- Whether this is the mark of an argument that was not given. -/
def isNoValue : Value → Bool
  | noValue => true
  | _ => false

/-- Empty and zero values are false; `nan` is not zero. -/
def isTruthy : Value → Bool
  | noValue | none => false
  | bool b => b
  | int i => i != 0
  | float x => x != 0.0
  | str s => !s.isEmpty
  | bytes bs => !bs.isEmpty

/-- The text of a value for its reader. -/
def display : Value → String
  | noValue => "<no value>"
  | none => "None"
  | bool true => "True"
  | bool false => "False"
  | int i => toString i.toInt
  | float x => Text.floatText x
  | str s => Text.quote s
  | bytes bs => s!"b<{bs.length} bytes>"

/-- The text of a value that names its constructor. -/
def describe : Value → String
  | noValue => "NoValue"
  | none => "None"
  | bool b => s!"Bool({Text.truth b})"
  | int i => s!"Int({i.toInt})"
  | float x => s!"Float({Text.floatText x})"
  | str s => s!"Str({Text.quote s})"
  | bytes bs => s!"Bytes({Text.bracketed (bs.map fun b => toString b.toNat)})"

end Value
end StridedViews
