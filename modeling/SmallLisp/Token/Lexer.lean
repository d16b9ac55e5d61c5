import SmallLisp.Text.Numeral
import SmallLisp.Token

/-!
Cutting a source into tokens. Each token is decided by its first character and reaches as far as its
kind allows; the tokens together are the source, nothing skipped.
-/

namespace SmallLisp.Token

open Text

/-- The marks that atoms are made of, besides letters and digits. -/
def symbolMarks : List Char :=
  ['!', '#', '$', '%', '&', '|', '*', '+', '-', '/', ':', '<', '=', '>', '?', '@', '^', '_', '~']

def startsAtom (c : Char) : Bool :=
  isLetter c || symbolMarks.contains c

def continuesAtom (c : Char) : Bool :=
  startsAtom c || isDigit c

/-- The rest of a text literal up to and with its closing quote, and what follows it; none if the
literal is never closed or holds a backslash that is no escape. -/
def takeLiteral? : List Char → Option (List Char × List Char)
  | [] => none
  | '"' :: rest => some (['"'], rest)
  | '\\' :: c :: rest =>
    if Escape.isEscapable c then
      (takeLiteral? rest).map fun (body, after) => ('\\' :: c :: body, after)
    else none
  | c :: rest =>
    if c = '\\' then none
    else (takeLiteral? rest).map fun (body, after) => (c :: body, after)

/-- The name after the mark of a character, with the backslash before it, and what follows it. -/
def takeName? : List Char → Option (List Char × List Char)
  | '\\' :: c :: rest =>
    if isLetter c then some ('\\' :: c :: rest.takeWhile isLetter, rest.dropWhile isLetter)
    else none
  | _ => none

/-- A token before it has an offset, and the text after it. -/
structure Lexeme where
  kind : TokenKind
  text : List Char
  rest : List Char

/-- A token that starts with a character and goes on as long as a class holds. -/
def Lexeme.ofRun (kind : TokenKind) (goesOn : Char → Bool) (c : Char) (cs : List Char) : Lexeme :=
  { kind, text := c :: cs.takeWhile goesOn, rest := cs.dropWhile goesOn }

/-- A token that starts with a character and whose other characters are found already. -/
def Lexeme.ofTail (kind : TokenKind) (c : Char) (tail : List Char × List Char) : Lexeme :=
  { kind, text := c :: tail.1, rest := tail.2 }

/-- The token that starts with a character, given the characters after it. -/
def lexeme (c : Char) (cs : List Char) : Lexeme :=
  if isBlank c then .ofRun .blank isBlank c cs
  else if let some bracket := Bracket.ofOpening? c then .ofTail (.opening bracket) c ([], cs)
  else if let some bracket := Bracket.ofClosing? c then .ofTail (.closing bracket) c ([], cs)
  else if c = '\'' then .ofTail .quote c ([], cs)
  else if c = '"' then
    match takeLiteral? cs with
    | some tail => .ofTail .text c tail
    | none => .ofTail .stray c ([], cs)
  else if isDigit c then
    let digits := cs.takeWhile isDigit
    match takeFraction? (cs.dropWhile isDigit) with
    | some (fraction, rest) => .ofTail .decimal c (digits ++ fraction, rest)
    | none => .ofRun .integer isDigit c cs
  else if startsAtom c then
    match if c = '#' then takeName? cs else none with
    | some tail => .ofTail .character c tail
    | none => .ofRun .atom continuesAtom c cs
  else .ofTail .stray c ([], cs)

theorem takeLiteral?_append {cs body after : List Char} (h : takeLiteral? cs = some (body, after)) :
    body ++ after = cs := by
  fun_induction takeLiteral? cs generalizing body after with
  | case1 => simp at h
  | case2 rest => simp only [Option.some.injEq, Prod.mk.injEq] at h; simp [← h.1, ← h.2]
  | case3 c rest _ ih =>
    simp only [Option.map_eq_some_iff, Prod.exists, Prod.mk.injEq] at h
    obtain ⟨b, a, hba, rfl, rfl⟩ := h
    simp [ih hba]
  | case4 => simp at h
  | case5 => simp at h
  | case6 c rest _ _ _ ih =>
    simp only [Option.map_eq_some_iff, Prod.exists, Prod.mk.injEq] at h
    obtain ⟨b, a, hba, rfl, rfl⟩ := h
    simp [ih hba]

theorem takeName?_append {cs body after : List Char}
    (h : takeName? cs = some (body, after)) : body ++ after = cs := by
  unfold takeName? at h
  split at h
  · split at h
    · simp only [Option.some.injEq, Prod.mk.injEq] at h
      simp [← h.1, ← h.2, List.takeWhile_append_dropWhile]
    · simp at h
  · simp at h

theorem lexeme_append (c : Char) (cs : List Char) :
    (lexeme c cs).text ++ (lexeme c cs).rest = c :: cs := by
  have run (kind : TokenKind) (p : Char → Bool) :
      (Lexeme.ofRun kind p c cs).text ++ (Lexeme.ofRun kind p c cs).rest = c :: cs := by
    simp [Lexeme.ofRun, List.takeWhile_append_dropWhile]
  unfold lexeme
  split
  · exact run _ _
  split
  · rfl
  split
  · rfl
  split
  · rfl
  split
  · split
    · next tail h => simpa [Lexeme.ofTail] using takeLiteral?_append h
    · rfl
  split
  · dsimp only
    split
    · next fraction rest h =>
      simp only [Lexeme.ofTail, List.cons_append, List.append_assoc, takeFraction?_append h,
        List.takeWhile_append_dropWhile]
    · exact run _ _
  split
  · split
    · next tail h =>
      split at h
      · simpa [Lexeme.ofTail] using takeName?_append h
      · simp at h
    · exact run _ _
  · rfl

theorem lexeme_rest_length (c : Char) (cs : List Char) :
    (lexeme c cs).rest.length < (c :: cs).length := by
  have parts := congrArg List.length (lexeme_append c cs)
  have first : 0 < (lexeme c cs).text.length := by
    unfold lexeme
    repeat' (first | split | dsimp only)
    all_goals simp [Lexeme.ofRun, Lexeme.ofTail]
  simp only [List.length_append] at parts
  omega

def lexFrom (offset : Nat) : List Char → List Token
  | [] => []
  | c :: cs =>
    let next := lexeme c cs
    { kind := next.kind, text := next.text, offset } ::
      lexFrom (offset + next.text.length) next.rest
termination_by source => source.length
decreasing_by exact lexeme_rest_length c cs

def lex (source : List Char) : List Token :=
  lexFrom 0 source

end SmallLisp.Token
