import SmallLisp.Text.Category

namespace SmallLisp.Text

/-- A character, or a surrogate that stands alone: text that came through escapes of sixteen-bit
units can hold one that found no partner. -/
inductive CodePoint
  | char (c : Char)
  | surrogate (code : Nat)
  deriving DecidableEq

namespace CodePoint

def toNat : CodePoint → Nat
  | char c => c.toNat
  | surrogate code => code

def ofText (text : List Char) : List CodePoint :=
  text.map char

def toChar? : CodePoint → Option Char
  | char c => some c
  | surrogate _ => none

/-- Ordinary text, when no surrogate stands alone in it. -/
def toText? (points : List CodePoint) : Option (List Char) :=
  points.mapM toChar?

end CodePoint

namespace Quoted

/-- A number in hexadecimal with at least the given count of digits. -/
def hex (width : Nat) (code : Nat) : List Char :=
  let digits := Nat.toDigits 16 code
  List.replicate (width - digits.length) '0' ++ digits

/-- A code point that is written as a number, in the shortest of the three widths that holds it. -/
def numbered (code : Nat) : List Char :=
  if code < 0x100 then ['\\', 'x'] ++ hex 2 code
  else if code < 0x10000 then ['\\', 'u'] ++ hex 4 code
  else ['\\', 'U'] ++ hex 8 code

def delimiter (points : List CodePoint) : Char :=
  if points.contains (.char '\'') && !points.contains (.char '"') then '"' else '\''

def encodePoint (quote : Char) : CodePoint → List Char
  | .surrogate code => numbered code
  | .char c =>
    if c = quote ∨ c = '\\' then ['\\', c]
    else if c = '\n' then ['\\', 'n']
    else if c = '\r' then ['\\', 'r']
    else if c = '\t' then ['\\', 't']
    else if isPrintable c then [c]
    else numbered c.toNat

def encodePoints (points : List CodePoint) : List Char :=
  let quote := delimiter points
  quote :: points.flatMap (encodePoint quote) ++ [quote]

def encode (text : List Char) : List Char :=
  encodePoints (CodePoint.ofText text)

end Quoted

namespace StandIn

def firstPrivate : Nat := 0xe000

/-- How many characters for private use there are, from the first one on. -/
def capacity : Nat := 6400

/-- Whether ordinary text has another character in the place of a code point: a surrogate, or a
character for private use. No class of characters tells these apart. -/
def isReplaced (code : Nat) : Bool :=
  0xd800 ≤ code && code < firstPrivate + capacity

/-- Puts a number into an ascending list, unless the list has it. -/
def insert (code : Nat) : List Nat → List Nat
  | [] => [code]
  | other :: codes =>
    if code < other then code :: other :: codes
    else if code = other then other :: codes
    else other :: insert code codes

/-- The code points of a text that are replaced, in ascending order. The place of one in this list
tells its replacement. -/
def replaced (points : List CodePoint) : List Nat :=
  ((points.map CodePoint.toNat).filter isReplaced).foldl (fun codes code => insert code codes) []

/-- The character for private use at a place. There are `capacity` of them: of a text with more code
points to be replaced, those that find no character of their own all get the last one. -/
def privateChar (place : Nat) : Char :=
  Char.ofNat (firstPrivate + min place (capacity - 1))

/-- The character in the place of a code point. As long as there are characters for private use
enough, their order is that of the code points and each tells the code point it stands for. -/
def standIn (codes : List Nat) (point : CodePoint) : Char :=
  match point with
  | .char c => if isReplaced c.toNat then privateChar (codes.idxOf c.toNat) else c
  | .surrogate code => privateChar (codes.idxOf code)

def ofCode (code : Nat) : CodePoint :=
  if 0xd800 ≤ code ∧ code < 0xe000 then .surrogate code else .char (Char.ofNat code)

def represented (codes : List Nat) (c : Char) : CodePoint :=
  if isReplaced c.toNat then
    match codes[c.toNat - firstPrivate]? with
    | some code => ofCode code
    | none => .char c
  else .char c

def encode (codes : List Nat) (points : List CodePoint) : List Char :=
  points.map (standIn codes)

def decode (codes : List Nat) (text : List Char) : List CodePoint :=
  text.map (represented codes)

end StandIn

end SmallLisp.Text
