import StridedViews.Layout.Strides
import StridedViews.Text.Record

/-!
View flags: whether a view is released, and what is known about its layout.
-/

namespace StridedViews

/-- The flags of a view. Only `released` changes after construction. -/
structure ViewFlags where
  released : Bool := false
  rowContiguous : Bool := false
  columnContiguous : Bool := false
  scalar : Bool := false
  /-- Some axis follows stored pointers. -/
  indirect : Bool := false
  deriving DecidableEq, Repr, Inhabited

namespace ViewFlags

/-- The flags that a layout shows. -/
def ofLayout (l : Layout) : ViewFlags :=
  { rowContiguous := l.isRowContiguous
    columnContiguous := l.isColumnContiguous
    scalar := l.isScalar
    indirect := l.isIndirect }

/-- The flags with their names, lowest bit first. -/
def named (f : ViewFlags) : List (String × Bool) :=
  [("RELEASED", f.released), ("C_CONTIGUOUS", f.rowContiguous),
   ("FORTRAN_CONTIGUOUS", f.columnContiguous), ("SCALAR", f.scalar), ("PIL", f.indirect)]

/-- The flags of a list of names; other names mean nothing. -/
def ofNames (names : List String) : ViewFlags :=
  { released := names.contains "RELEASED"
    rowContiguous := names.contains "C_CONTIGUOUS"
    columnContiguous := names.contains "FORTRAN_CONTIGUOUS"
    scalar := names.contains "SCALAR"
    indirect := names.contains "PIL" }

/-- The flags as one number. -/
def bits (f : ViewFlags) : Nat := f.named.foldr (fun flag n => 2 * n + flag.2.toNat) 0

/-- The text of the flags: the names of those that are set. -/
def describe (f : ViewFlags) : String :=
  match (f.named.filter (·.2)).map (·.1) with
  | [] => "ViewFlags(0x0)"
  | names => "ViewFlags(" ++ " | ".intercalate names ++ ")"

end ViewFlags
end StridedViews
