import SmallLisp.Reader.Pending
import SmallLisp.Token.Lexer

/-!
Reading from a source that is cut into tokens as they are asked for. The next token can be looked at
before it is taken; until then it is kept. What counts for the reading is which tokens have not been
taken, whether they are cut already or not.
-/

namespace SmallLisp.Reader

/-- What comes next in a source: a token, or its end. -/
inductive Upcoming
  | token (token : Token)
  | ending (offset : Nat)
  deriving DecidableEq

/-- A source that has been read up to some place. -/
structure Stream where
  source : List Char
  options : Options
  /-- The token that was looked at and has not been taken. -/
  ahead : Option Token
  /-- The text that has not been cut, and its offset in the source. -/
  uncut : List Char
  offset : Nat

namespace Stream

def ofSource (options : Options) (source : List Char) : Stream :=
  { source, options, ahead := none, uncut := source, offset := 0 }

/-- The tokens that have not been taken. -/
def tokens (stream : Stream) : List Token :=
  stream.ahead.toList ++ Token.lexFrom stream.offset stream.uncut

/-- Cuts the next token off the text. -/
def cut (stream : Stream) : Upcoming × Stream :=
  match stream.uncut with
  | [] => (.ending stream.source.length, stream)
  | c :: cs =>
    let next := Token.lexeme c cs
    (.token { kind := next.kind, text := next.text, offset := stream.offset },
      { stream with uncut := next.rest, offset := stream.offset + next.text.length })

/-- Looks at what comes next. A token that is seen for the first time is kept. -/
def peek (stream : Stream) : Upcoming × Stream :=
  match stream.ahead with
  | some token => (.token token, stream)
  | none =>
    match stream.cut with
    | (.token token, later) => (.token token, { later with ahead := some token })
    | (.ending offset, later) => (.ending offset, later)

/-- Takes what comes next. At the end there is nothing to take, however often it is tried. -/
def advance (stream : Stream) : Upcoming × Stream :=
  match stream.ahead with
  | some token => (.token token, { stream with ahead := none })
  | none => stream.cut

/-- How much there is to take. -/
def size (stream : Stream) : Nat :=
  stream.ahead.toList.length + stream.uncut.length

theorem size_advance_of_peek {stream later : Stream} {token : Token}
    (h : stream.peek = (.token token, later)) : later.advance.2.size < stream.size := by
  unfold peek at h
  split at h
  · rename_i ahead hahead
    simp only [Prod.mk.injEq, Upcoming.token.injEq] at h
    obtain ⟨-, rfl⟩ := h
    simp [advance, size, hahead]
  · rename_i hahead
    unfold cut at h
    split at h
    · rename_i hcut
      split at hcut
      · simp at hcut
      · rename_i c cs huncut
        have hrest := Token.lexeme_rest_length c cs
        simp only [Prod.mk.injEq, Upcoming.token.injEq] at hcut h
        obtain ⟨-, rfl⟩ := h
        obtain ⟨-, rfl⟩ := hcut
        simpa [advance, size, hahead, huncut] using hrest
    · simp at h

/-- Takes the tokens of what is waited for. A token that cannot stand where it does is looked at and
not taken. -/
def readOn (stream : Stream) (pending : Pending) : Except Stop Value × Stream :=
  match _ : stream.peek with
  | (.ending offset, later) =>
    (.error (.misread (.unexpected .endOfInput pending.expected) offset), later)
  | (.token token, later) =>
    match step stream.options pending token with
    | .more next => later.advance.2.readOn next
    | .done value => (.ok value, later.advance.2)
    | .refused cause => (.error (.misread cause token.offset), later)
    | .failed stop => (.error stop, later.advance.2)
termination_by stream.size
decreasing_by exact size_advance_of_peek ‹_›

/-- Takes the tokens of one expression. When they are none, the tokens up to the fault are taken. -/
def readExpression (stream : Stream) : Outcome Value × Stream :=
  let (outcome, later) := stream.readOn (.expression [])
  (outcome.mapError (Stop.fault stream.source), later)

end Stream

/-- The expression at the start of a source, whatever follows it. -/
def read (options : Options) (source : List Char) : Outcome Value :=
  (Stream.ofSource options source).readExpression.1

end SmallLisp.Reader
