import SmallLisp.Interpreter
import SmallLisp.Text.Lines

namespace SmallLisp.Document

open Text

inductive Finding
  | result (text : String)
  /-- The failure, and the column that is at fault if the line does not read. -/
  | error (message : String) (column : Option Int)
  deriving DecidableEq

/-- A report on a line: its number from zero, and where its expression starts and ends. -/
structure Report where
  line : Int
  start : Nat
  stop : Nat
  finding : Finding
  deriving DecidableEq

def Report.ok (report : Report) : Bool :=
  match report.finding with
  | .result _ => true
  | .error _ _ => false

/-- The column at fault in a line whose expression starts at `start`, from the column that a failure
to read the expression tells. -/
def faultColumn (start : Nat) (column : Option Int) : Int :=
  let told := match column with
    | some column => if column = 0 then 1 else column
    | none => 1
  start + told - 1

def find (interpreter : Interpreter) (start : Nat) (code : List Char) : Outcome Finding :=
  match interpreter.answer (String.ofList code) with
  | .ok text => .ok (.result text)
  | .error (.failure failure) =>
    match failure with
    | .unreadable _ _ column => .ok (.error failure.message (some (faultColumn start column)))
    | _ => .ok (.error failure.message none)
  | .error fault => .error fault

/-- The report on a line; none if the line is blank. -/
def reportLine (interpreter : Interpreter) (number : Int) (line : List Char) :
    Outcome (Option Report) :=
  let code := trim line
  if code = [] then .ok none
  else do
    let start := line.length - (trimLeft line).length
    let finding ← find interpreter start code
    return some { line := number, start, stop := start + code.length, finding }

/-- The reports on lines, the first of which has the given number. -/
def reportLines (interpreter : Interpreter) (number : Nat) :
    List (List Char) → Outcome (List Report)
  | [] => .ok []
  | line :: lines => do
    let report ← reportLine interpreter number line
    let others ← reportLines interpreter (number + 1) lines
    return report.toList ++ others

def analyze (interpreter : Interpreter) (text : List Char) : Outcome (List Report) :=
  reportLines interpreter 0 (lines text)

def reportAt (reports : List Report) (line : Int) : Option Report :=
  reports.find? fun report => report.line = line

def wordBreaks : List Char :=
  [' ', '\t', '\r', '\n', '(', ')', '[', ']', '\x7b', '\x7d', '\'', '"']

def inWord (c : Char) : Bool :=
  !wordBreaks.contains c

/-- The word that touches a column of a line; none between breaks. Columns past the end of the line
count as its end. -/
def wordIn (line : List Char) (column : Nat) : Option (List Char) :=
  let left := ((line.take column).reverse.takeWhile inWord).reverse
  let right := (line.drop column).takeWhile inWord
  if left ++ right = [] then none else some (left ++ right)

/-- The word that touches a place of a document, its line and column counted from zero. -/
def wordAt (text : List Char) (line column : Nat) : Option (List Char) :=
  (lines text)[line]?.bind (wordIn · column)

end SmallLisp.Document
