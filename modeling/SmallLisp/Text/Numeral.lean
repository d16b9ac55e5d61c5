import SmallLisp.Text.Category

namespace SmallLisp.Text

/-- The most decimal digits of a whole number that are read or written. -/
def digitLimit : Nat := 4300

/-- The value of a numeral in ASCII decimal digits. -/
def decimalValue (digits : List Char) : Nat :=
  Nat.ofDigitChars 10 digits 0

def hexDigit? (c : Char) : Option Nat :=
  if isDigit c then some (c.toNat - '0'.toNat)
  else if 'a' ≤ c ∧ c ≤ 'f' then some (c.toNat - 'a'.toNat + 10)
  else if 'A' ≤ c ∧ c ≤ 'F' then some (c.toNat - 'A'.toNat + 10)
  else none

def isHexDigit (c : Char) : Bool :=
  (hexDigit? c).isSome

def isOctalDigit (c : Char) : Bool :=
  '0' ≤ c && c ≤ '7'

def hexValue (digits : List Char) : Nat :=
  digits.foldl (fun value c => 16 * value + (hexDigit? c).getD 0) 0

def octalValue (digits : List Char) : Nat :=
  Nat.ofDigitChars 8 digits 0

/-- Whether a character is one of the six blanks of ASCII that may stand around a numeral. -/
def isPlainBlank (c : Char) : Bool :=
  c = ' ' || ('\t' ≤ c && c ≤ '\r')

/-- A numeral character in ASCII: decimal digits of any script to the digits from `0`, blanks
outside ASCII to a space, and whatever else is outside ASCII to a question mark. -/
def plainNumeral (c : Char) : Char :=
  if c.toNat < 0x7f then c
  else if isBlank c then ' '
  else match decimalDigit? c with
    | some value => Char.ofNat ('0'.toNat + value)
    | none => '?'

/-- Text without a sign in front of it, and whether the sign was a minus. -/
def takeSign : List Char → Bool × List Char
  | '-' :: rest => (true, rest)
  | '+' :: rest => (false, rest)
  | rest => (false, rest)

/-- Digits without the underscores between them; none if an underscore has no digit on either side.
The flag tells whether a digit came last. -/
def ungroup (afterDigit : Bool) : List Char → Option (List Char)
  | [] => some []
  | '_' :: c :: rest =>
    if afterDigit && isDigit c then (ungroup true rest).map (c :: ·) else none
  | c :: rest => if c = '_' then none else (ungroup (isDigit c) rest).map (c :: ·)

/-- The fraction of a decimal numeral, from its point on, and what follows it; none unless a digit
comes after the point. -/
def takeFraction? : List Char → Option (List Char × List Char)
  | '.' :: c :: rest =>
    if isDigit c then some ('.' :: c :: rest.takeWhile isDigit, rest.dropWhile isDigit) else none
  | _ => none

theorem takeFraction?_append {cs body after : List Char}
    (h : takeFraction? cs = some (body, after)) : body ++ after = cs := by
  unfold takeFraction? at h
  split at h
  · split at h
    · simp only [Option.some.injEq, Prod.mk.injEq] at h
      simp [← h.1, ← h.2, List.takeWhile_append_dropWhile]
    · simp at h
  · simp at h

end SmallLisp.Text
