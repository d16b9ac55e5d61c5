namespace SmallLisp

inductive Bracket
  | round
  | square
  | curly
  deriving DecidableEq

namespace Bracket

def opening : Bracket → Char
  | round => '('
  | square => '['
  | curly => '\x7b'

def closing : Bracket → Char
  | round => ')'
  | square => ']'
  | curly => '\x7d'

def ofOpening? (c : Char) : Option Bracket :=
  [round, square, curly].find? fun bracket => bracket.opening = c

def ofClosing? (c : Char) : Option Bracket :=
  [round, square, curly].find? fun bracket => bracket.closing = c

end Bracket

/-- What a token is. A stray character belongs to no other kind. -/
inductive TokenKind
  | blank
  | opening (bracket : Bracket)
  | closing (bracket : Bracket)
  | quote
  | text
  | character
  | decimal
  | integer
  | atom
  | stray
  deriving DecidableEq

/-- A piece of a source, its offset counted in characters. -/
structure Token where
  kind : TokenKind
  text : List Char
  offset : Nat
  deriving DecidableEq

namespace Escape

/-- The escapes of text literals: the character after the backslash, and what it stands for. -/
def table : List (Char × Char) :=
  [('\\', '\\'), ('a', '\x07'), ('b', '\x08'), ('t', '\t'), ('n', '\n'), ('v', '\x0b'),
   ('f', '\x0c'), ('r', '\r'), ('"', '"')]

/-- Whether a character may follow a backslash. -/
def isEscapable (c : Char) : Bool :=
  (table.lookup c).isSome

/-- The text that the inside of a literal stands for, or the first character that has no escape
though a backslash stands before it. A backslash at the very end stands for itself. -/
def decode : List Char → Except Char (List Char)
  | [] => .ok []
  | '\\' :: c :: rest =>
    match table.lookup c with
    | some char => (decode rest).map (char :: ·)
    | none => .error c
  | c :: rest => (decode rest).map (c :: ·)

end Escape

end SmallLisp
