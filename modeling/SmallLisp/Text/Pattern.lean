/-!
Patterns that a text can start with. A pattern can match in several ways, which come in the order in
which they are tried; the first way that lets everything after it match is the one that counts.
-/

namespace SmallLisp.Text

/-- A pattern, some parts of which have names. -/
inductive Pattern (Name : Type)
  | empty
  /-- One character of a class. -/
  | one (accepts : Char → Bool)
  /-- As many characters of a class as there are, or else fewer. -/
  | many (accepts : Char → Bool)
  | sequence (first second : Pattern Name)
  /-- The first pattern, or else the second. -/
  | either (first second : Pattern Name)
  /-- Nothing, where the pattern does not match. -/
  | notBefore (pattern : Pattern Name)
  | named (name : Name) (pattern : Pattern Name)

/-- A way in which a text starts with a pattern: the text after it, and for every named part the
texts from its start on and from its end on. -/
structure Match (Name : Type) where
  parts : List (Name × List Char × List Char)
  rest : List Char

namespace Match

variable {Name : Type}

/-- The text of a named part; none if no part has the name. -/
def part [DecidableEq Name] (way : Match Name) (name : Name) : List Char :=
  match way.parts.lookup name with
  | some (start, after) => start.take (start.length - after.length)
  | none => []

def withParts (earlier : List (Name × List Char × List Char)) (way : Match Name) : Match Name :=
  { way with parts := earlier ++ way.parts }

end Match

namespace Pattern

variable {Name : Type}

/-- What comes after characters of a class at the start of a text: first after all of them, last
after none. The other texts are put behind these. -/
def leftovers (accepts : Char → Bool) (others : List (List Char)) : List Char → List (List Char)
  | [] => [] :: others
  | c :: cs =>
    if accepts c then leftovers accepts ((c :: cs) :: others) cs else (c :: cs) :: others

/-- The ways in which a text starts with a pattern. -/
def ways : Pattern Name → List Char → List (Match Name)
  | empty, text => [{ parts := [], rest := text }]
  | one accepts, c :: cs => if accepts c then [{ parts := [], rest := cs }] else []
  | one _, [] => []
  | many accepts, text => (leftovers accepts [] text).map fun rest => { parts := [], rest }
  | sequence first second, text =>
    (first.ways text).flatMap fun way => (second.ways way.rest).map (Match.withParts way.parts)
  | either first second, text => first.ways text ++ second.ways text
  | notBefore pattern, text =>
    if (pattern.ways text).isEmpty then [{ parts := [], rest := text }] else []
  | named name pattern, text =>
    (pattern.ways text).map fun way => way.withParts [(name, text, way.rest)]

/-- How a text starts with a pattern, if it does. -/
def firstWay? (pattern : Pattern Name) (text : List Char) : Option (Match Name) :=
  (pattern.ways text).head?

/-- One character of a class or more. -/
def oneOrMore (accepts : Char → Bool) : Pattern Name :=
  sequence (one accepts) (many accepts)

def optional (pattern : Pattern Name) : Pattern Name :=
  either pattern empty

end Pattern

end SmallLisp.Text
