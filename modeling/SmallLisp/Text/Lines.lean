import SmallLisp.Text.Category

namespace SmallLisp.Text

/-- Text without the blanks before it. -/
def trimLeft (text : List Char) : List Char :=
  text.dropWhile isBlank

/-- Text without the blanks around it. -/
def trim (text : List Char) : List Char :=
  (trimLeft (trimLeft text).reverse).reverse

def isLineEnd (c : Char) : Bool :=
  c = '\n' || c = '\r' || c = '\x0b' || c = '\x0c' || c = '\x1c' || c = '\x1d' || c = '\x1e' ||
    c = '\u0085' || c = '\u2028' || c = '\u2029'

/-- The lines of a document without their ends. A carriage return and the newline after it end one
line; text after the last line end is a line, the empty text is none. -/
def lines : List Char → List (List Char)
  | [] => []
  | '\r' :: '\n' :: rest => [] :: lines rest
  | c :: rest =>
    if isLineEnd c then [] :: lines rest
    else match lines rest with
      | [] => [[c]]
      | line :: others => (c :: line) :: others

/-- A place in a text, both parts counted from one. -/
structure Position where
  line : Nat
  column : Nat
  deriving DecidableEq

/-- The place of an offset: one line for each newline before it, and a column counted from the last
of them. -/
def position (source : List Char) (offset : Nat) : Position :=
  let before := source.take offset
  let tail := before.reverse.takeWhile (· ≠ '\n')
  { line := before.count '\n' + 1
    column := offset - (before.length - tail.length) + 1 }

end SmallLisp.Text
