import SmallLisp.CommandLine

namespace SmallLisp

/-- The settings that the surroundings of the program make. -/
def readSettings : IO Settings := do
  return {
    prompt := ← IO.getEnv "BALLGAME_PROMPT"
    quit := ← IO.getEnv "BALLGAME_QUIT"
    strictBrackets := ← IO.getEnv "BALLGAME_STRICT_BRACKETS"
    host := ← IO.getEnv "BALLGAME_REPL_HOST"
    tcpPort := ← IO.getEnv "BALLGAME_REPL_PORT"
    logLevel := ← IO.getEnv "LOGLEVEL" }

/-- The dialogue with the user of the console. -/
partial def converse (interpreter : Interpreter) (settings : Settings) : IO Unit := do
  let output ← IO.getStdout
  output.putStr settings.promptText
  output.flush
  let line ← (← IO.getStdin).getLine
  if line.isEmpty then return
  match Dialogue.reply interpreter settings.quitCommand (line.dropEndWhile '\n').toString with
  | .ok (some text) =>
    output.putStrLn text
    converse interpreter settings
  | _ => return

end SmallLisp

open SmallLisp

/-- Runs the program and gives its exit code. -/
def main (arguments : List String) : IO UInt32 := do
  let settings ← readSettings
  match CommandLine.request arguments with
  | .run { expression := none, strict, logLevel } =>
    let invocation : CommandLine.Invocation := { expression := none, strict, logLevel }
    converse (invocation.interpreter settings) settings
    return 0
  | .refused => IO.eprint CommandLine.helpText
  | _ => pure ()
  match CommandLine.run settings arguments "" with
  | .ok report =>
    IO.print report.shown
    return UInt32.ofNat report.exitCode
  | .error _ => return 1
