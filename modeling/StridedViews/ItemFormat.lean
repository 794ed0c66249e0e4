/-!
Scalar item formats.

An item format is written as one code letter, optionally after one byte-order mark. Anything else is
`other`: a format whose item size only its exporter knows. `parse_code` says that every format with a
code of its own is read back from that code.
-/

namespace StridedViews

/-- How one item of a buffer is encoded. -/
inductive ItemFormat where
  | int8 | uint8
  | int16 | uint16
  | int32 | uint32
  | int64 | uint64
  | intSize | uintSize
  | float32 | float64
  | bool | char | pointer
  | other
  deriving DecidableEq, Repr, Inhabited

namespace ItemFormat

/-- The marks that may stand before a code letter. -/
def isByteOrderMark (c : Char) : Bool :=
  c = '@' || c = '=' || c = '<' || c = '>' || c = '!'

/-- The format of a code letter. -/
def ofLetter : Char → ItemFormat
  | 'b' => int8
  | 'B' => uint8
  | 'h' => int16
  | 'H' => uint16
  | 'i' | 'l' => int32
  | 'I' | 'L' => uint32
  | 'q' => int64
  | 'Q' => uint64
  | 'n' => intSize
  | 'N' => uintSize
  | 'f' => float32
  | 'd' => float64
  | '?' => bool
  | 'c' => char
  | 'P' => pointer
  | _ => other

/-- The format of what follows the byte-order mark: exactly one code letter. -/
def ofLetters : List Char → ItemFormat
  | [c] => ofLetter c
  | _ => other

/-- Reads a format text. The empty text means unsigned bytes. -/
def parse (s : String) : ItemFormat :=
  match s.toList with
  | [] => uint8
  | c :: rest => ofLetters (if isByteOrderMark c then rest else c :: rest)

/-- Bytes per item; `none` for a format whose item size is not fixed. -/
def itemSize : ItemFormat → Option Nat
  | int8 | uint8 | bool | char => some 1
  | int16 | uint16 => some 2
  | int32 | uint32 | float32 => some 4
  | int64 | uint64 | float64 | intSize | uintSize | pointer => some 8
  | other => none

/-- The code letter that stands for the format, empty for `other`. -/
def code : ItemFormat → String
  | int8 => "b"
  | uint8 => "B"
  | int16 => "h"
  | uint16 => "H"
  | int32 => "i"
  | uint32 => "I"
  | int64 => "q"
  | uint64 => "Q"
  | intSize => "n"
  | uintSize => "N"
  | float32 => "f"
  | float64 => "d"
  | bool => "?"
  | char => "c"
  | pointer => "P"
  | other => ""

/-- The formats whose items are plain bytes. -/
def isByte : ItemFormat → Bool
  | int8 | uint8 | char => true
  | _ => false

/-- All formats, in the order of their declaration. -/
def all : List ItemFormat :=
  [int8, uint8, int16, uint16, int32, uint32, int64, uint64, intSize, uintSize, float32, float64,
   bool, char, pointer, other]

/-- The code letter of a format reads back as that format. -/
theorem parse_code (f : ItemFormat) (h : f ≠ other) : parse f.code = f := by
  cases f with
  | other => exact absurd rfl h
  | _ => rfl

theorem itemSize_pos {f : ItemFormat} {n : Nat} (h : f.itemSize = some n) : 0 < n := by
  cases f <;> simp [itemSize] at h <;> omega

end ItemFormat
end StridedViews
