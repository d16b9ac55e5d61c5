import SmallLisp.Interpreter

namespace SmallLisp.Dialogue

inductive Event
  | prompt (text : String)
  | line (text : String)
  deriving DecidableEq

def prompts (events : List Event) : List String :=
  events.filterMap fun
    | .prompt text => some text
    | .line _ => none

def output (events : List Event) : List String :=
  events.filterMap fun
    | .prompt _ => none
    | .line text => some text

/-- Everything that is shown, as one text. Only lines end in a newline. -/
def shown (events : List Event) : String :=
  String.join (events.map fun
    | .prompt text => text
    | .line text => text ++ "\n")

/-- The answer to a line; none to the line that quits. -/
def reply (interpreter : Interpreter) (quit line : String) : Outcome (Option String) :=
  if line = quit then .ok none else (interpreter.respond line).map some

/-- The dialogue over the lines that a user enters. The prompt that meets the end is shown too. -/
def run (interpreter : Interpreter) (prompt quit : String) : List String → Outcome (List Event)
  | [] => .ok [.prompt prompt]
  | line :: lines => do
    match ← reply interpreter quit line with
    | none => return [.prompt prompt]
    | some text => return .prompt prompt :: .line text :: (← run interpreter prompt quit lines)

end SmallLisp.Dialogue
