import SmallLisp.Binary64.Reader
import SmallLisp.Json.Basic

namespace SmallLisp.Json

open Text

inductive Token
  | openArray
  | closeArray
  | openObject
  | closeObject
  | colon
  | comma
  | string (points : List CodePoint)
  /-- A value of one token that is no string. -/
  | leaf (value : Json)
  | invalid

namespace Token

def isSpace (c : Char) : Bool :=
  c = ' ' || c = '\t' || c = '\n' || c = '\r'

def escapes : List (Char × Char) :=
  [('"', '"'), ('\\', '\\'), ('/', '/'), ('b', '\x08'), ('f', '\x0c'), ('n', '\n'), ('r', '\r'),
   ('t', '\t')]

/-- The code point of a unit of sixteen bits. -/
def unitPoint (unit : Nat) : CodePoint :=
  if 0xd800 ≤ unit ∧ unit < 0xe000 then .surrogate unit else .char (Char.ofNat unit)

/-- Puts a code point before others. A leading surrogate before a trailing one makes a character
with it. -/
def consPoint (point : CodePoint) (points : List CodePoint) : List CodePoint :=
  match point, points with
  | .surrogate high, .surrogate low :: rest =>
    if high < 0xdc00 ∧ 0xdc00 ≤ low then
      .char (Char.ofNat (0x10000 + (high - 0xd800) * 0x400 + (low - 0xdc00))) :: rest
    else point :: points
  | _, _ => point :: points

/-- The inside of a string up to its closing quote, and what follows that. Control characters cannot
stand in a string. -/
def takeString? : List Char → Option (List CodePoint × List Char)
  | [] => none
  | '"' :: rest => some ([], rest)
  | '\\' :: 'u' :: a :: b :: c :: d :: rest =>
    if [a, b, c, d].all isHexDigit then
      (takeString? rest).map fun (points, after) =>
        (consPoint (unitPoint (hexValue [a, b, c, d])) points, after)
    else none
  | '\\' :: c :: rest =>
    match escapes.lookup c with
    | some char => (takeString? rest).map fun (points, after) => (.char char :: points, after)
    | none => none
  | c :: rest =>
    if c < ' ' ∨ c = '\\' then none
    else (takeString? rest).map fun (points, after) => (.char c :: points, after)

/-- The exponent of a numeral, and what follows it; none unless it has a digit. -/
def takeExponent? : List Char → Option (Int × List Char)
  | [] => none
  | mark :: rest =>
    let (negative, body) := takeSign rest
    let digits := body.takeWhile isDigit
    if (mark = 'e' ∨ mark = 'E') ∧ digits ≠ [] then
      let value : Int := decimalValue digits
      some (if negative then -value else value, body.dropWhile isDigit)
    else none

/-- The whole digits of a numeral, and what follows them. No zero stands before other digits. -/
def takeWhole? : List Char → Option (List Char × List Char)
  | '0' :: rest => some (['0'], rest)
  | c :: rest =>
    if isDigit c then some (c :: rest.takeWhile isDigit, rest.dropWhile isDigit) else none
  | [] => none

/-- The number of a numeral without its sign, and what follows it. It is a whole number unless it
has a fraction or an exponent. -/
def takeUnsigned? (negative : Bool) (text : List Char) : Option (Json × List Char) :=
  match takeWhole? text with
  | none => none
  | some (whole, rest) =>
    let (fraction, afterFraction) := (takeFraction? rest).getD ([], rest)
    let (exponent, after) := (takeExponent? afterFraction).getD (0, afterFraction)
    if fraction ≠ [] ∨ after.length ≠ afterFraction.length then
      some (decimal (.ofParts negative whole (fraction.drop 1) exponent), after)
    else if whole.length ≤ digitLimit then
      let value : Int := decimalValue whole
      some (integer (if negative then -value else value), after)
    else none

/-- What follows a word, if the text starts with it. -/
def takeWord? (word : String) (text : List Char) : Option (List Char) :=
  if word.toList.isPrefixOf text then some (text.drop word.length) else none

def wordValues : List (String × Json) :=
  [("null", null), ("true", boolean true), ("false", boolean false), ("NaN", decimal .nan),
   ("Infinity", decimal (.infinite false)), ("-Infinity", decimal (.infinite true))]

/-- A value that is a word or a number, and what follows it. -/
def takeLeaf? (text : List Char) : Option (Json × List Char) :=
  match wordValues.findSome? fun (word, value) => (takeWord? word text).map (value, ·) with
  | some found => some found
  | none =>
    match text with
    | '-' :: rest => takeUnsigned? true rest
    | _ => takeUnsigned? false text

/-- The token that starts with a character, and what follows it. After an invalid token nothing
does. -/
def next (c : Char) (cs : List Char) : Token × List Char :=
  if c = '[' then (openArray, cs)
  else if c = ']' then (closeArray, cs)
  else if c = '\x7b' then (openObject, cs)
  else if c = '\x7d' then (closeObject, cs)
  else if c = ':' then (colon, cs)
  else if c = ',' then (comma, cs)
  else if c = '"' then
    match takeString? cs with
    | some (points, rest) => (string points, rest)
    | none => (invalid, [])
  else match takeLeaf? (c :: cs) with
    | some (value, rest) => (leaf value, rest)
    | none => (invalid, [])

theorem takeString?_length {cs after : List Char} {points : List CodePoint}
    (h : takeString? cs = some (points, after)) : after.length ≤ cs.length := by
  fun_induction takeString? cs generalizing points after with
  | case1 => simp at h
  | case2 rest =>
    simp only [Option.some.injEq, Prod.mk.injEq] at h
    simp [← h.2]
  | case3 a b c d rest _ ih =>
    simp only [Option.map_eq_some_iff, Prod.exists, Prod.mk.injEq] at h
    obtain ⟨_, _, found, _, rfl⟩ := h
    have := ih found
    simp only [List.length_cons]
    omega
  | case4 => simp at h
  | case5 c rest _ char _ ih =>
    simp only [Option.map_eq_some_iff, Prod.exists, Prod.mk.injEq] at h
    obtain ⟨_, _, found, _, rfl⟩ := h
    have := ih found
    simp only [List.length_cons]
    omega
  | case6 => simp at h
  | case7 => simp at h
  | case8 c rest _ _ _ _ ih =>
    simp only [Option.map_eq_some_iff, Prod.exists, Prod.mk.injEq] at h
    obtain ⟨_, _, found, _, rfl⟩ := h
    have := ih found
    simp only [List.length_cons]
    omega

theorem takeWhole?_length {cs digits after : List Char}
    (h : takeWhole? cs = some (digits, after)) : after.length < cs.length := by
  unfold takeWhole? at h
  split at h
  · simp only [Option.some.injEq, Prod.mk.injEq] at h
    simp [← h.2]
  · split at h
    · next c rest _ _ =>
      simp only [Option.some.injEq, Prod.mk.injEq] at h
      have := (List.dropWhile_suffix isDigit (l := rest)).length_le
      simp only [← h.2, List.length_cons]
      omega
    · simp at h
  · simp at h

theorem takeFraction?_length {cs fraction after : List Char}
    (h : takeFraction? cs = some (fraction, after)) : after.length ≤ cs.length := by
  have := congrArg List.length (takeFraction?_append h)
  simp only [List.length_append] at this
  omega

theorem takeExponent?_length {cs after : List Char} {exponent : Int}
    (h : takeExponent? cs = some (exponent, after)) : after.length ≤ cs.length := by
  unfold takeExponent? at h
  split at h
  · simp at h
  · next mark rest =>
    dsimp only at h
    split at h
    · simp only [Option.some.injEq, Prod.mk.injEq] at h
      have drop := (List.dropWhile_suffix isDigit (l := (takeSign rest).2)).length_le
      have sign : (takeSign rest).2.length ≤ rest.length := by
        unfold takeSign
        split <;> simp
      rw [h.2] at drop
      simp only [List.length_cons]
      omega
    · simp at h

theorem takeUnsigned?_length {negative : Bool} {cs after : List Char} {value : Json}
    (h : takeUnsigned? negative cs = some (value, after)) : after.length < cs.length := by
  unfold takeUnsigned? at h
  split at h
  · simp at h
  · next whole rest wholeTaken =>
    have first := takeWhole?_length wholeTaken
    have second : ((takeFraction? rest).getD ([], rest)).2.length ≤ rest.length := by
      cases found : takeFraction? rest with
      | none => simp
      | some fraction => simpa using takeFraction?_length found
    have third (rest : List Char) :
        ((takeExponent? rest).getD (0, rest)).2.length ≤ rest.length := by
      cases found : takeExponent? rest with
      | none => simp
      | some exponent => simpa using takeExponent?_length found
    have last := third ((takeFraction? rest).getD ([], rest)).2
    dsimp only at h
    split at h
    · simp only [Option.some.injEq, Prod.mk.injEq] at h
      rw [← h.2]
      omega
    · split at h
      · simp only [Option.some.injEq, Prod.mk.injEq] at h
        rw [← h.2]
        omega
      · simp at h

theorem takeLeaf?_length {cs after : List Char} {value : Json}
    (h : takeLeaf? cs = some (value, after)) : after.length < cs.length := by
  unfold takeLeaf? at h
  split at h
  · next found word =>
    obtain ⟨entry, member, taken⟩ := List.exists_of_findSome?_eq_some (word.trans h)
    simp only [takeWord?, Option.map_eq_some_iff, Option.ite_none_right_eq_some, Option.some.injEq,
      Prod.mk.injEq] at taken
    obtain ⟨rest, ⟨start, rfl⟩, _, rfl⟩ := taken
    have short := (List.isPrefixOf_iff_prefix.1 start).length_le
    have sizes : ∀ entry ∈ wordValues.map Prod.fst, 0 < entry.length := by decide
    have size := sizes entry.1 (List.mem_map_of_mem member)
    simp only [List.length_drop, String.length_toList] at short ⊢
    omega
  · split at h
    · have := takeUnsigned?_length h
      simp only [List.length_cons]
      omega
    · exact takeUnsigned?_length h

theorem next_length (c : Char) (cs : List Char) : (next c cs).2.length < (c :: cs).length := by
  unfold next
  repeat' split
  any_goals simp
  · next points rest h =>
    have := takeString?_length h
    omega
  · next value rest h => simpa using takeLeaf?_length h

end Token

/-- The tokens of a text, up to the first invalid one. -/
def tokens : List Char → List Token
  | [] => []
  | c :: cs =>
    if Token.isSpace c then tokens cs
    else (Token.next c cs).1 :: tokens (Token.next c cs).2
termination_by text => text.length
decreasing_by
  · simp
  · exact Token.next_length c cs

end SmallLisp.Json
