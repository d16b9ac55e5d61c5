import SmallLisp.Document.Report

namespace SmallLisp.Editor

open Document (Report)

/-- The calls of the primitives, in the order in which they are offered. -/
def primitiveSignatures : List (String × String) :=
  [("+", "(+ n1 n2 &rest ns)"), ("-", "(- n1 n2 &rest ns)"), ("*", "(* n1 n2 &rest ns)"),
   ("/", "(/ n1 n2 &rest ns)"), ("mod", "(mod n1 n2 &rest ns)"),
   ("quotient", "(quotient n1 n2 &rest ns)"), ("remainder", "(remainder n1 n2 &rest ns)"),
   ("=", "(= a b)"), ("<", "(< a b)"), (">", "(> a b)"), ("!=", "(!= a b)"), (">=", "(>= a b)"),
   ("<=", "(<= a b)"), ("and", "(and p q)"), ("or", "(or p q)"), ("string=?", "(string=? s1 s2)"),
   ("string>?", "(string>? s1 s2)"), ("string<?", "(string<? s1 s2)"),
   ("string<=?", "(string<=? s1 s2)"), ("string>=?", "(string>=? s1 s2)"), ("car", "(car xs)"),
   ("cdr", "(cdr xs)"), ("cons", "(cons x xs)"), ("eq?", "(eq? a b)"), ("eqv?", "(eqv? a b)"),
   ("equal?", "(equal? a b)")]

def formSignatures : List (String × String) :=
  [("quote", "(quote expr)"), ("if", "(if pred conseq alt)")]

def signature? (name : String) : Option String :=
  (primitiveSignatures ++ formSignatures).lookup name

inductive ItemKind
  | function
  | keyword
  deriving DecidableEq

structure Item where
  label : String
  kind : ItemKind
  detail : String
  deriving DecidableEq

def completionItems : List Item :=
  primitiveSignatures.map (fun (name, call) => ⟨name, .function, call⟩) ++
    formSignatures.map fun (name, call) => ⟨name, .keyword, call⟩

inductive Severity
  | error
  | warning
  deriving DecidableEq

structure Diagnostic where
  line : Int
  start : Int
  stop : Int
  message : String
  severity : Severity
  deriving DecidableEq

def sourceName : String := "ballgame-ls"

/-- What a report marks. A line that does not read is marked at the column at fault, any other
failure all along its expression; a line with a value is not marked. -/
def diagnostic? (report : Report) : Option Diagnostic :=
  match report.finding with
  | .result _ => none
  | .error message (some column) =>
    some { line := report.line, start := column, stop := column + 1, message, severity := .error }
  | .error message none =>
    some
      { line := report.line, start := report.start, stop := report.stop, message
        severity := .warning }

/-- A document that is open, and the reports on it. -/
structure OpenDocument where
  text : List Char
  reports : List Report
  deriving DecidableEq

/-- What is open, by name, each name once. -/
structure Session where
  interpreter : Interpreter
  documents : List (String × OpenDocument) := []

inductive Event
  /-- A document is opened; a missing text is empty. -/
  | opened (uri : String) (text : Option (List Char))
  /-- A document is changed; the last of the texts is its new text. -/
  | changed (uri : String) (texts : List (List Char))
  | closed (uri : String)

def Event.uri : Event → String
  | opened uri _ => uri
  | changed uri _ => uri
  | closed uri => uri

/-- The list of diagnostics that an event publishes, and the name it is about. -/
structure Publication where
  uri : String
  diagnostics : List Diagnostic
  deriving DecidableEq

namespace Session

def document? (session : Session) (uri : String) : Option OpenDocument :=
  session.documents.lookup uri

/-- The session in which a name has a document, in the place of any it had. -/
def put (session : Session) (uri : String) (document : OpenDocument) : Session :=
  { session with
    documents := (uri, document) :: session.documents.filter fun entry => entry.1 ≠ uri }

/-- The session in which a name has no document. -/
def erase (session : Session) (uri : String) : Session :=
  { session with documents := session.documents.filter fun entry => entry.1 ≠ uri }

/-- Gives a document a text, and publishes what its lines come to. -/
def update (session : Session) (uri : String) (text : List Char) :
    Outcome (Session × Publication) := do
  let reports ← Document.analyze session.interpreter text
  return (session.put uri { text, reports },
    { uri, diagnostics := reports.filterMap diagnostic? })

/-- The session after an event, and what the event publishes. A change that brings no text keeps the
one there is. -/
def apply (session : Session) : Event → Outcome (Session × Publication)
  | .opened uri text => session.update uri (text.getD [])
  | .changed uri texts =>
    let current := (session.document? uri).elim [] OpenDocument.text
    session.update uri (texts.getLast?.getD current)
  | .closed uri => .ok (session.erase uri, { uri, diagnostics := [] })

/-- The session after events, and what each of them publishes. -/
def run (session : Session) : List Event → Outcome (Session × List Publication)
  | [] => .ok (session, [])
  | event :: events => do
    let (next, publication) ← session.apply event
    let (last, publications) ← next.run events
    return (last, publication :: publications)

/-- The names of the open documents in ascending order. -/
def openNames (session : Session) : List String :=
  (session.documents.map Prod.fst).mergeSort fun a b => orderTexts a.toList b.toList ≠ .gt

end Session

/-- What is shown at a place of a document: the call of the word there, or else what came of the
line. -/
def OpenDocument.hover? (document : OpenDocument) (line column : Nat) : Option String :=
  let word := Document.wordAt document.text line column
  match word.bind fun word => signature? (String.ofList word) with
  | some call => some call
  | none =>
    (Document.reportAt document.reports line).map fun report =>
      match report.finding with
      | .result text => "=> " ++ text
      | .error message _ => message

def Session.hover? (session : Session) (uri : String) (line column : Nat) : Option String :=
  (session.document? uri).bind (OpenDocument.hover? · line column)

end SmallLisp.Editor
