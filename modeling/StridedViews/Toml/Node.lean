/-!
The tree that a TOML document describes, and how its statements build it.

A table remembers how it came to be, because that decides whether a later statement may add to it:
a table with a header of its own is opened once, a table that only a longer header or a dotted key
implies may still be added to in its own way, and an inline table is complete as written.
-/

namespace StridedViews.Toml

/-- How a table came to be. -/
inductive TableForm where
  /-- Opened by a header of its own; the root of a document too. -/
  | opened
  /-- Implied by a header for something inside it. -/
  | implied
  /-- Implied by a dotted key. -/
  | dotted
  /-- Written in braces. -/
  | inline
  deriving DecidableEq, Repr

/-- A value. Floats, dates and times are only known to be well formed. -/
inductive Node where
  | text (s : String)
  | integer (i : Int)
  | boolean (b : Bool)
  | unread
  | array (items : List Node)
  | table (form : TableForm) (entries : List (String × Node))
  /-- A list of tables, each opened by a header in double brackets; the newest stands first. -/
  | tables (items : List (List (String × Node)))
  deriving Inhabited

/-- The members of a table, in the order in which they were first named. -/
abbrev Entries := List (String × Node)

/-- Gives a member a new value, in its place, or adds it at the end. -/
def Entries.put (key : String) (n : Node) : Entries → Entries
  | [] => [(key, n)]
  | (k, m) :: rest => if k = key then (key, n) :: rest else (k, m) :: put key n rest

/-- Adds a member that is not there yet. -/
def Entries.addNew (key : String) (n : Node) (entries : Entries) : Option Entries :=
  match entries.lookup key with
  | none => some (entries ++ [(key, n)])
  | some _ => none

/-- Changes the table that a header's path leads to, making the tables that the path implies. In a
list of tables the path leads into the newest one. -/
def Entries.alter (f : Entries → Option Entries) : List String → Entries → Option Entries
  | [], entries => f entries
  | key :: path, entries =>
    match entries.lookup key with
    | none => do
      return entries.put key (.table .implied (← alter f path []))
    | some (.table form inner) =>
      if form = .inline then none
      else do
        return entries.put key (.table form (← alter f path inner))
    | some (.tables (newest :: older)) => do
        return entries.put key (.tables ((← alter f path newest) :: older))
    | some _ => none

/-- Opens a table in its parent. -/
def Entries.openTable (key : String) (entries : Entries) : Option Entries :=
  match entries.lookup key with
  | none => some (entries.put key (.table .opened []))
  | some (.table .implied inner) => some (entries.put key (.table .opened inner))
  | some _ => none

/-- Opens a new table of a list of tables in its parent. -/
def Entries.openElement (key : String) (entries : Entries) : Option Entries :=
  match entries.lookup key with
  | none => some (entries.put key (.tables [[]]))
  | some (.tables older) => some (entries.put key (.tables ([] :: older)))
  | some _ => none

/-- Gives a member of the current table a value, by a key that may be dotted. The tables that the
key leads through must not be opened or inline ones, and the last of them must be dotted. -/
def Entries.assign (n : Node) : List String → Entries → Option Entries
  | [], _ => none
  | [key], entries => entries.addNew key n
  | key :: path, entries =>
    match entries.lookup key with
    | none => do
      return entries.put key (.table .dotted (← assign n path []))
    | some (.table .dotted inner) => do
      return entries.put key (.table .dotted (← assign n path inner))
    | some (.table .implied inner) =>
      if path.length = 1 then none
      else do
        return entries.put key (.table .implied (← assign n path inner))
    | some (.tables (newest :: older)) =>
      if path.length = 1 then none
      else do
        return entries.put key (.tables ((← assign n path newest) :: older))
    | some _ => none

/-- Whether a node holds nothing: an empty table or an empty array. -/
def Node.isEmpty : Node → Bool
  | array items => items.isEmpty
  | table _ entries => entries.isEmpty
  | tables items => items.isEmpty
  | _ => false

end StridedViews.Toml
