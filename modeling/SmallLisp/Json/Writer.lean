import SmallLisp.Json.Basic

namespace SmallLisp.Json

open Text

/-- A unit of sixteen bits as an escape. -/
def escapeUnit (unit : Nat) : List Char :=
  ['\\', 'u'] ++ Quoted.hex 4 unit

/-- A code point as one escape, or as two beyond the units of sixteen bits. -/
def escapeCode (code : Nat) : List Char :=
  if code < 0x10000 then escapeUnit code
  else
    let offset := code - 0x10000
    escapeUnit (0xd800 + offset / 0x400) ++ escapeUnit (0xdc00 + offset % 0x400)

def encodeChar (c : Char) : List Char :=
  if c = '"' then ['\\', '"']
  else if c = '\\' then ['\\', '\\']
  else if c = '\n' then ['\\', 'n']
  else if c = '\r' then ['\\', 'r']
  else if c = '\t' then ['\\', 't']
  else if c = '\x0c' then ['\\', 'f']
  else if c = '\x08' then ['\\', 'b']
  else if ' ' ≤ c ∧ c ≤ '~' then [c]
  else escapeCode c.toNat

def encodePoint : CodePoint → List Char
  | .char c => encodeChar c
  | .surrogate code => escapeCode code

def encodeString (points : List CodePoint) : List Char :=
  '"' :: points.flatMap encodePoint ++ ['"']

def encodeDecimal : Binary64 → List Char
  | .nan => "NaN".toList
  | .infinite negative => (if negative then "-Infinity" else "Infinity").toList
  | number => number.text

mutual

/-- A value, with a space after each comma and colon. -/
def encode : Json → List Char
  | null => "null".toList
  | boolean truth => (if truth then "true" else "false").toList
  | integer number => number.repr.toList
  | decimal number => encodeDecimal number
  | string points => encodeString points
  | array items => '[' :: encodeItems items ++ [']']
  | object members => '\x7b' :: encodeMembers members ++ ['\x7d']

/-- Items with commas between them. -/
def encodeItems : List Json → List Char
  | [] => []
  | [item] => encode item
  | item :: items => encode item ++ [',', ' '] ++ encodeItems items

/-- Members with commas between them. -/
def encodeMembers : List (List CodePoint × Json) → List Char
  | [] => []
  | [(name, value)] => encodeString name ++ [':', ' '] ++ encode value
  | (name, value) :: members =>
    encodeString name ++ [':', ' '] ++ encode value ++ [',', ' '] ++ encodeMembers members

end

end SmallLisp.Json
