import StridedViews.Toml.Token

/-!
Reading TOML documents. A document is a sequence of lines; each is blank, opens a table, opens an
element of a list of tables, or gives a key a value. `read?` returns the members of the root table,
or nothing if any line is malformed or contradicts an earlier one.
-/

namespace StridedViews.Toml

/-- A space or a tab. -/
def isBlank (c : Char) : Bool := c = ' ' || c = '\t'

def skipBlanks (s : List Char) : List Char := s.dropWhile isBlank

/-- Takes a line end off the front. -/
def lineEnd? : List Char → Option (List Char)
  | '\n' :: rest | '\r' :: '\n' :: rest => some rest
  | _ => none

/-- Skips blanks, line ends and comments, as between the elements of an array. -/
def skipLines (inComment : Bool) : List Char → List Char
  | '\n' :: rest | '\r' :: '\n' :: rest => skipLines false rest
  | c :: rest =>
    if inComment then
      if isPlain c then skipLines true rest else c :: rest
    else if c = '#' then skipLines true rest
    else if isBlank c then skipLines false rest
    else c :: rest
  | [] => []

/-- The end of a line: blanks, perhaps a comment, and a line end or the end of the document. -/
def finishLine? (s : List Char) : Option (List Char) :=
  let s := skipBlanks s
  let s := match s with
    | '#' :: rest => rest.dropWhile isPlain
    | s => s
  if s.isEmpty then some [] else lineEnd? s

/-- The characters of a key that is not quoted. -/
def isBareKeyChar (c : Char) : Bool := c.isAlphanum || c = '_' || c = '-'

/-- One part of a key: bare, or a one-line string. -/
def keyPart? : List Char → Option (String × List Char)
  | '"' :: rest => (basicBody rest).map fun (text, rest) => (String.ofList text, rest)
  | '\'' :: rest => (literalBody rest).map fun (text, rest) => (String.ofList text, rest)
  | s =>
    let (key, rest) := s.span isBareKeyChar
    if key.isEmpty then none else some (String.ofList key, rest)

/-- A key, its parts separated by dots. The fuel bounds the number of parts. -/
def key? : (fuel : Nat) → List Char → Option (List String × List Char)
  | 0, _ => none
  | fuel + 1, s => do
    let (part, rest) ← keyPart? (skipBlanks s)
    match skipBlanks rest with
    | '.' :: rest => do
      let (parts, rest) ← key? fuel rest
      return (part :: parts, rest)
    | rest => return ([part], rest)

/-- Keys have fewer than this many parts, and values nest less deeply than this. -/
def maxDepth : Nat := 80

/-- A date, when a blank and a time follow it, extends over them. -/
def splitDateTime (s : List Char) : List Char × List Char :=
  let (token, rest) := splitToken s
  match rest with
  | ' ' :: after =>
    let (time, rest') := splitToken after
    if isDate token && isOffsetTime time then (token ++ 'T' :: time, rest') else (token, rest)
  | _ => (token, rest)

mutual

/-- A value and what follows it, inside `depth` brackets. The fuel is spent on each bracket, element
and member, all of which take up input. -/
def value? : (fuel depth : Nat) → List Char → Option (Node × List Char)
  | 0, _, _ => none
  | fuel + 1, depth, s =>
    match s with
    | '"' :: _ | '\'' :: _ => (string? s).map fun (text, rest) => (.text (String.ofList text), rest)
    | '[' :: rest =>
      if depth + 1 < maxDepth then do
        let (items, rest) ← elements? fuel (depth + 1) (skipLines false rest)
        return (.array items, rest)
      else none
    | '\x7b' :: rest =>
      if depth + 1 < maxDepth then
        match skipBlanks rest with
        | '\x7d' :: rest => some (.table .inline [], rest)
        | rest => do
          let (entries, rest) ← members? fuel (depth + 1) [] rest
          return (.table .inline entries, rest)
      else none
    | s => do
      let (token, rest) := splitDateTime s
      return (← Node.ofToken? token, rest)

/-- The elements of an array, from the next one or the closing bracket on. -/
def elements? : (fuel depth : Nat) → List Char → Option (List Node × List Char)
  | 0, _, _ => none
  | fuel + 1, depth, s =>
    match s with
    | ']' :: rest => some ([], rest)
    | s => do
      let (item, rest) ← value? fuel depth s
      match skipLines false rest with
      | ']' :: rest => return ([item], rest)
      | ',' :: rest => do
        let (items, rest) ← elements? fuel depth (skipLines false rest)
        return (item :: items, rest)
      | _ => none

/-- The members of an inline table, from the next one on. -/
def members? : (fuel depth : Nat) → Entries → List Char → Option (Entries × List Char)
  | 0, _, _, _ => none
  | fuel + 1, depth, entries, s => do
    let (key, rest) ← key? (maxDepth - 1) s
    match rest with
    | '=' :: rest => do
      let (item, rest) ← value? fuel depth (skipBlanks rest)
      let entries ← entries.assign item key
      match skipBlanks rest with
      | '\x7d' :: rest => return (entries, rest)
      | ',' :: rest => members? fuel depth entries rest
      | _ => none
    | _ => none

end

/-- What one line of a document says. -/
inductive Statement where
  | nothing
  | openTable (path : List String)
  | openElement (path : List String)
  | assign (key : List String) (n : Node)

/-- The statement at the start of a line, and the lines that follow it. -/
def statement? (s : List Char) : Option (Statement × List Char) := do
  match skipBlanks s with
  | '[' :: '[' :: rest =>
    let (path, rest) ← key? (maxDepth - 1) rest
    match rest with
    | ']' :: ']' :: rest => return (.openElement path, ← finishLine? rest)
    | _ => none
  | '[' :: rest =>
    let (path, rest) ← key? (maxDepth - 1) rest
    match rest with
    | ']' :: rest => return (.openTable path, ← finishLine? rest)
    | _ => none
  | rest =>
    match rest with
    | [] | '#' :: _ | '\n' :: _ | '\r' :: _ => return (.nothing, ← finishLine? rest)
    | rest =>
      let (key, rest) ← key? (maxDepth - 1) rest
      match rest with
      | '=' :: rest =>
        let (n, rest) ← value? (rest.length + 1) 0 (skipBlanks rest)
        return (.assign key n, ← finishLine? rest)
      | _ => none

/-- A document under construction: the root's members and the path of the current table. -/
structure Draft where
  root : Entries
  current : List String

/-- Splits a path into the path of the parent and the last key. -/
def splitLast (path : List String) : Option (List String × String) :=
  path.getLast?.map (path.dropLast, ·)

/-- Adds a statement to a document. -/
def Draft.add? (d : Draft) : Statement → Option Draft
  | .nothing => some d
  | .openTable path => do
    let (parent, key) ← splitLast path
    return { root := ← d.root.alter (·.openTable key) parent, current := path }
  | .openElement path => do
    let (parent, key) ← splitLast path
    return { root := ← d.root.alter (·.openElement key) parent, current := path }
  | .assign key n => do
    return { d with root := ← d.root.alter (·.assign n key) d.current }

/-- Adds all lines to a document. The fuel bounds the number of lines. -/
def Draft.addAll? (d : Draft) : (fuel : Nat) → List Char → Option Draft
  | 0, _ => none
  | fuel + 1, s =>
    if s.isEmpty then some d
    else do
      let (statement, rest) ← statement? s
      (← d.add? statement).addAll? fuel rest

/-- Reads a document. A byte-order mark in front of it is skipped. -/
def read? (text : String) : Option Entries :=
  let s := match text.toList with
    | '\ufeff' :: rest => rest
    | s => s
  (Draft.addAll? ⟨[], []⟩ (s.length + 1) s).map (·.root)

end StridedViews.Toml
