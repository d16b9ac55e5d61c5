import SmallLisp.Binary64.Reader
import SmallLisp.Reader.Misreading
import SmallLisp.Text.Numeral

/-!
Reading one token at a time. What has been read so far is a stack of forms that are still open;
each token opens one, completes an expression that goes into the innermost, closes the innermost,
or stops the reading.
-/

namespace SmallLisp.Reader

/-- How a source is read: whether brackets have to match, and how many forms can be open inside one
another. -/
structure Options where
  strict : Bool
  levels : Nat
  deriving DecidableEq

/-- A form that is still open. The items of a list are held latest first. -/
inductive Frame
  | quoted
  | list (bracket : Bracket) (items : List Value)

/-- What the reader waits for, inside the forms that are open, the innermost first. -/
inductive Pending
  | expression (stack : List Frame)
  /-- The first item of a list, or the bracket that closes it. -/
  | opened (bracket : Bracket) (stack : List Frame)
  /-- A blank before the next item of a list, or the bracket that closes it. -/
  | afterItem (bracket : Bracket) (items : List Value) (stack : List Frame)

inductive Step
  /-- The token belongs to the expression, and more is needed. -/
  | more (pending : Pending)
  | done (value : Value)
  /-- The token cannot stand here and is left in place. -/
  | refused (cause : Misreading)
  /-- The token is taken, but no expression has it. -/
  | failed (stop : Stop)

/-- An expression put into the innermost open form. A quotation that it completes goes into the next
one in turn. -/
def complete (value : Value) : List Frame → Step
  | [] => .done value
  | .quoted :: stack => complete value.quotation stack
  | .list bracket items :: stack => .more (.afterItem bracket (value :: items) stack)

/-- The value of an atom: one of the two truth values, or a symbol. -/
def atomValue (text : List Char) : Value :=
  if text = ['#', 't'] then .boolean true
  else if text = ['#', 'f'] then .boolean false
  else .symbol (String.ofList text)

/-- The character that a name stands for. A single letter stands for itself. -/
def characterOf? : List Char → Option Char
  | [c] => some c
  | name => CharacterName.char? name

def decimalOf (text : List Char) : Binary64 :=
  Binary64.ofParts false (text.takeWhile Text.isDigit) ((text.dropWhile Text.isDigit).drop 1) 0

def begin (options : Options) (stack : List Frame) (token : Token) : Step :=
  match token.kind with
  | .atom => complete (atomValue token.text) stack
  | .text =>
    match Escape.decode (token.text.drop 1).dropLast with
    | .ok content => complete (.text (String.ofList content)) stack
    | .error c => .failed (.defect (.unknownEscape c))
  | .character =>
    match characterOf? (token.text.drop 2) with
    | some c => complete (.character c) stack
    | none => .failed (.misread (.unknownCharacterName (token.text.drop 2)) token.offset)
  | .integer =>
    if token.text.length ≤ Text.digitLimit then
      complete (.integer (Text.decimalValue token.text)) stack
    else .failed (.misread (.literalTooLong token.text.length) token.offset)
  | .decimal => complete (.decimal (decimalOf token.text)) stack
  | .quote =>
    if stack.length < options.levels then .more (.expression (.quoted :: stack))
    else .failed .tooDeep
  | .opening bracket =>
    if stack.length < options.levels then .more (.opened bracket stack) else .failed .tooDeep
  | .blank | .closing _ | .stray => .refused (.unexpected (.ofToken token) .expression)

def close (options : Options) (bracket closing : Bracket) (items : List Value)
    (stack : List Frame) (token : Token) : Step :=
  if options.strict ∧ closing ≠ bracket then
    .failed (.misread (.unexpected (.ofToken token) (.closing bracket)) token.offset)
  else complete (.list items.reverse) stack

def step (options : Options) (pending : Pending) (token : Token) : Step :=
  match pending with
  | .expression stack => begin options stack token
  | .opened bracket stack =>
    match token.kind with
    | .closing closing => close options bracket closing [] stack token
    | _ => begin options (.list bracket [] :: stack) token
  | .afterItem bracket items stack =>
    match token.kind with
    | .closing closing => close options bracket closing items stack token
    | .blank => .more (.expression (.list bracket items :: stack))
    | _ => .refused (.unexpected (.ofToken token) .blankOrClosing)

def Pending.expected : Pending → Expected
  | expression _ => .expression
  | opened _ _ => .expression
  | afterItem _ _ _ => .blankOrClosing

/-- How a reading ended, and the tokens it left. -/
structure Reading where
  outcome : Except Stop Value
  rest : List Token

/-- Reads on through tokens until an expression is complete or the reading stops. The source ends at
`endOffset`. -/
def resume (options : Options) (endOffset : Nat) : Pending → List Token → Reading
  | pending, [] =>
    { outcome := .error (.misread (.unexpected .endOfInput pending.expected) endOffset)
      rest := [] }
  | pending, token :: tokens =>
    match step options pending token with
    | .more next => resume options endOffset next tokens
    | .done value => { outcome := .ok value, rest := tokens }
    | .refused cause => { outcome := .error (.misread cause token.offset), rest := token :: tokens }
    | .failed stop => { outcome := .error stop, rest := tokens }

end SmallLisp.Reader
