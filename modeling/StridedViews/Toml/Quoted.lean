/-!
TOML strings: basic ones with escapes, literal ones without, each on one line or, between triple
quotes, on several. Every reader here starts behind the opening quotes and returns the text and what
follows the closing ones.
-/

namespace StridedViews.Toml

/-- A character that may stand in a comment, and unescaped in a string: no control but the tab. -/
def isPlain (c : Char) : Bool := c = '\t' || (0x20 ≤ c.toNat && c.toNat ≠ 0x7f)

/-- The value of a hexadecimal digit. -/
def hexDigit? (c : Char) : Option Nat :=
  if '0' ≤ c ∧ c ≤ '9' then some (c.toNat - 48)
  else if 'a' ≤ c ∧ c ≤ 'f' then some (c.toNat - 87)
  else if 'A' ≤ c ∧ c ≤ 'F' then some (c.toNat - 55)
  else none

/-- The character with a hexadecimal code point. -/
def codePoint? (digits : List Char) : Option Char := do
  let n ← digits.foldlM (fun n c => (hexDigit? c).map (16 * n + ·)) 0
  if n.isValidChar then some (Char.ofNat n) else none

/-- The character that a one-letter escape stands for. -/
def simpleEscape? : Char → Option Char
  | 'b' => some '\x08'
  | 't' => some '\t'
  | 'n' => some '\n'
  | 'f' => some '\x0c'
  | 'r' => some '\r'
  | '"' => some '"'
  | '\\' => some '\\'
  | _ => none

/-- A text read so far with what follows it. -/
abbrev Reading := Option (List Char × List Char)

/-- Puts characters in front of a text. -/
def Reading.cons (cs : List Char) (r : Reading) : Reading := r.map fun (text, rest) => (cs ++ text, rest)

/-- The rest of a one-line basic string. -/
def basicBody : List Char → Reading
  | '"' :: rest => some ([], rest)
  | '\\' :: 'u' :: a :: b :: c :: d :: rest => do
      let x ← codePoint? [a, b, c, d]
      (basicBody rest).cons [x]
  | '\\' :: 'U' :: a :: b :: c :: d :: e :: f :: g :: h :: rest => do
      let x ← codePoint? [a, b, c, d, e, f, g, h]
      (basicBody rest).cons [x]
  | '\\' :: c :: rest => do
      let x ← simpleEscape? c
      (basicBody rest).cons [x]
  | c :: rest => if isPlain c ∧ c ≠ '\\' then (basicBody rest).cons [c] else none
  | [] => none

/-- The rest of a one-line literal string. -/
def literalBody : List Char → Reading
  | '\'' :: rest => some ([], rest)
  | c :: rest => if isPlain c then (literalBody rest).cons [c] else none
  | [] => none

/-- Where the reader of a multi-line basic string stands. -/
inductive Fold where
  /-- In the text. -/
  | none
  /-- Behind a backslash that must end its line. -/
  | lineEnd
  /-- Behind such a line: blanks and line ends are skipped. -/
  | skip
  deriving DecidableEq

/-- The rest of a multi-line basic string. Up to two quotes may stand before the closing ones. -/
def multiBasicBody : Fold → List Char → Reading
  | .lineEnd, ' ' :: rest | .lineEnd, '\t' :: rest => multiBasicBody .lineEnd rest
  | .lineEnd, '\n' :: rest | .lineEnd, '\r' :: '\n' :: rest => multiBasicBody .skip rest
  | .lineEnd, _ => none
  | .skip, ' ' :: rest | .skip, '\t' :: rest => multiBasicBody .skip rest
  | .skip, '\n' :: rest | .skip, '\r' :: '\n' :: rest => multiBasicBody .skip rest
  | _, '"' :: '"' :: '"' :: '"' :: '"' :: rest => some (['"', '"'], rest)
  | _, '"' :: '"' :: '"' :: '"' :: rest => some (['"'], rest)
  | _, '"' :: '"' :: '"' :: rest => some ([], rest)
  | _, '\\' :: 'u' :: a :: b :: c :: d :: rest => do
      let x ← codePoint? [a, b, c, d]
      (multiBasicBody .none rest).cons [x]
  | _, '\\' :: 'U' :: a :: b :: c :: d :: e :: f :: g :: h :: rest => do
      let x ← codePoint? [a, b, c, d, e, f, g, h]
      (multiBasicBody .none rest).cons [x]
  | _, '\\' :: ' ' :: rest | _, '\\' :: '\t' :: rest => multiBasicBody .lineEnd rest
  | _, '\\' :: '\n' :: rest | _, '\\' :: '\r' :: '\n' :: rest => multiBasicBody .skip rest
  | _, '\\' :: c :: rest => do
      let x ← simpleEscape? c
      (multiBasicBody .none rest).cons [x]
  | _, '\n' :: rest | _, '\r' :: '\n' :: rest => (multiBasicBody .none rest).cons ['\n']
  | _, c :: rest => if isPlain c ∧ c ≠ '\\' then (multiBasicBody .none rest).cons [c] else none
  | _, [] => none

/-- The rest of a multi-line literal string. -/
def multiLiteralBody : List Char → Reading
  | '\'' :: '\'' :: '\'' :: '\'' :: '\'' :: rest => some (['\'', '\''], rest)
  | '\'' :: '\'' :: '\'' :: '\'' :: rest => some (['\''], rest)
  | '\'' :: '\'' :: '\'' :: rest => some ([], rest)
  | '\n' :: rest | '\r' :: '\n' :: rest => (multiLiteralBody rest).cons ['\n']
  | c :: rest => if isPlain c then (multiLiteralBody rest).cons [c] else none
  | [] => none

/-- Drops the line end right behind opening triple quotes. -/
def dropLineEnd : List Char → List Char
  | '\n' :: rest | '\r' :: '\n' :: rest => rest
  | s => s

/-- A string of any of the four sorts; `none` also if the input starts with no quote. -/
def string? : List Char → Reading
  | '"' :: '"' :: '"' :: rest => multiBasicBody .none (dropLineEnd rest)
  | '"' :: rest => basicBody rest
  | '\'' :: '\'' :: '\'' :: rest => multiLiteralBody (dropLineEnd rest)
  | '\'' :: rest => literalBody rest
  | _ => none

end StridedViews.Toml
