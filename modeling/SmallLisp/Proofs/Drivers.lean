import SmallLisp.CommandLine
import SmallLisp.Document.Report
import SmallLisp.Proofs.DefectFreedom
import SmallLisp.Proofs.Encoding
import SmallLisp.Service.Request

namespace SmallLisp

open Text

namespace Interpreter

variable (interpreter : Interpreter) (source : String)

theorem answer_ok_iff {text : String} : interpreter.answer source = .ok text ↔
    ∃ expression value, interpreter.read source = .ok expression ∧
      interpreter.evaluate expression = .ok value ∧ interpreter.render value = .ok text := by
  simp only [answer, evaluateSource]
  constructor
  · intro h
    cases hread : interpreter.read source with
    | error fault => simp [hread, bind, Except.bind] at h
    | ok expression =>
        cases hvalue : interpreter.evaluate expression with
        | error fault => simp [hread, hvalue, bind, Except.bind] at h
        | ok value =>
            simp only [hread, hvalue, bind, Except.bind] at h
            exact ⟨expression, value, rfl, hvalue, h⟩
  · rintro ⟨expression, value, hread, hvalue, htext⟩
    rw [hread]
    simp only [bind, Except.bind, hvalue, htext]

/-- What a source comes to: the text of its value, or the message of a failure. -/
inductive Answers : Bool → String → Prop
  | text {text : String} : interpreter.answer source = .ok text → Answers true text
  | failure {failure : Failure} :
      interpreter.answer source = .error (.failure failure) → Answers false failure.message

theorem exists_answers : ∃ ok shown, interpreter.Answers source ok shown := by
  rcases Outcome.within_iff.mp (interpreter.answer_within source) with
    ⟨text, htext, -⟩ | ⟨failure, hfailure, -⟩
  · exact ⟨true, text, .text htext⟩
  · exact ⟨false, failure.message, .failure hfailure⟩

variable {interpreter source} {ok : Bool} {shown : String}

theorem Answers.respond_eq (h : interpreter.Answers source ok shown) :
    interpreter.respond source = .ok shown := by
  unfold respond
  cases h with
  | text htext => rw [htext]
  | failure hfailure => rw [hfailure]

theorem Answers.ok_iff (h : interpreter.Answers source ok shown) :
    ok = true ↔ ∃ expression value text, interpreter.read source = .ok expression ∧
      interpreter.evaluate expression = .ok value ∧ interpreter.render value = .ok text := by
  have htext : ok = true ↔ ∃ text, interpreter.answer source = .ok text := by
    cases h with
    | text htext => simp [htext]
    | failure hfailure => simp [hfailure]
  rw [htext]
  simp only [answer_ok_iff]
  constructor
  · rintro ⟨text, expression, value, hsteps⟩
    exact ⟨expression, value, text, hsteps⟩
  · rintro ⟨expression, value, text, hsteps⟩
    exact ⟨text, expression, value, hsteps⟩

end Interpreter

namespace Service

variable {interpreter : Interpreter} {source : String} {ok : Bool} {shown : String}

theorem toText?_ofText (text : List Char) :
    CodePoint.toText? (CodePoint.ofText text) = some text := by
  induction text with
  | nil => rfl
  | cons c text ih =>
      simp only [CodePoint.toText?, CodePoint.ofText, List.map_cons, List.mapM_cons] at ih ⊢
      rw [ih]
      rfl

theorem answerText_of_answers {code : List Char}
    (h : interpreter.Answers (String.ofList code) ok shown) :
    answerText interpreter code = .ok (ok, shown.toList) := by
  unfold answerText
  cases h with
  | text htext => rw [htext]
  | failure hfailure => rw [hfailure]

theorem answer_of_answers (h : interpreter.Answers source ok shown) :
    answer interpreter (CodePoint.ofText source.toList) =
      .ok { ok, text := CodePoint.ofText shown.toList } := by
  have hanswer : answerText interpreter source.toList = .ok (ok, shown.toList) :=
    answerText_of_answers (by rwa [String.ofList_toList])
  rw [answer, toText?_ofText]
  simp only [hanswer]
  rfl

/-- Whether bytes are a request to evaluate code: an object that says so, whatever else it says. -/
def Evaluates (interpreter : Interpreter) (request : List UInt8) (code : List Char) : Prop :=
  ∃ text members, String.fromUTF8? (ByteArray.mk request.toArray) = some text ∧
    Json.decode interpreter.levels text.toList = .ok (.object members) ∧
    Json.member? "cmd" members = some (.string (CodePoint.ofText "eval".toList)) ∧
    Json.member? "code" members = some (.string (CodePoint.ofText code))

theorem handle_of_evaluates {request : List UInt8}
    (hrequest : Evaluates interpreter request source.toList)
    (h : interpreter.Answers source ok shown) (explain : List UInt8 → String) :
    handle { interpreter, explain } request =
      .ok { ok, text := CodePoint.ofText shown.toList } := by
  obtain ⟨text, members, htext, hdecode, hcommand, hcode⟩ := hrequest
  simp only [handle, htext, hdecode, answerObject, hcommand, hcode, Option.getD_some, ↓reduceIte]
  exact answer_of_answers h

theorem fromUTF8?_toUTF8 (text : String) :
    String.fromUTF8? (ByteArray.mk text.toUTF8.data.toList.toArray) = some text := by
  rw [Array.toArray_toList]
  exact dif_pos text.isValidUTF8

theorem evaluates_encode (hlevels : 0 < interpreter.levels) (code : List Char) :
    Evaluates interpreter (String.ofList (evaluation code).encode).toUTF8.data.toList code := by
  have hdecode := decode_encode_evaluation hlevels code
  rw [← String.toList_ofList (l := (evaluation code).encode)] at hdecode
  exact ⟨String.ofList (evaluation code).encode, _, fromUTF8?_toUTF8 _, hdecode, rfl, rfl⟩

end Service

namespace Document

variable {interpreter : Interpreter} {source : String} {ok : Bool} {shown : String}

/-- What a report finds: the text of a value, or a failure and maybe its column. -/
inductive Finding.Tells : Finding → Bool → String → Prop
  | result (text : String) : Tells (.result text) true text
  | error (message : String) (column : Option Int) : Tells (.error message column) false message

theorem find_of_answers (h : interpreter.Answers source ok shown) (start : Nat) :
    ∃ finding, find interpreter start source.toList = .ok finding ∧ finding.Tells ok shown := by
  rw [find, String.ofList_toList]
  cases h with
  | text htext =>
      rw [htext]
      exact ⟨_, rfl, .result _⟩
  | @failure failure hfailure =>
      rw [hfailure]
      cases failure <;> exact ⟨_, rfl, .error _ _⟩

theorem reportLine_of_answers (h : interpreter.Answers source ok shown) (hsource : source ≠ "")
    {line : List Char} (hline : trim line = source.toList) (number : Int) :
    ∃ report, reportLine interpreter number line = .ok (some report) ∧
      report.finding.Tells ok shown := by
  obtain ⟨finding, hfinding, htells⟩ :=
    find_of_answers h (line.length - (trimLeft line).length)
  have hcode : source.toList ≠ [] := fun hempty => hsource (String.toList_eq_nil_iff.mp hempty)
  refine ⟨{
    line := number
    start := line.length - (trimLeft line).length
    stop := line.length - (trimLeft line).length + source.toList.length
    finding }, ?_, htells⟩
  simp only [reportLine, hline, if_neg hcode, hfinding]
  rfl

end Document

namespace Dialogue

variable (interpreter : Interpreter) (prompt quit : String)

/-- A dialogue with these answers, one to a line. -/
def transcript (answers : List String) : List Event :=
  answers.flatMap (fun answer => [.prompt prompt, .line answer]) ++ [.prompt prompt]

theorem output_transcript (answers : List String) :
    output (transcript prompt answers) = answers := by
  induction answers with
  | nil => rfl
  | cons answer answers ih => exact congrArg (answer :: ·) ih

theorem prompts_transcript (answers : List String) :
    prompts (transcript prompt answers) = List.replicate (answers.length + 1) prompt := by
  induction answers with
  | nil => rfl
  | cons answer answers ih => exact congrArg (prompt :: ·) ih

theorem run_transcript (lines : List String) :
    ∃ answers, run interpreter prompt quit lines = .ok (transcript prompt answers) ∧
      List.Forall₂ (fun line answer => interpreter.respond line = .ok answer)
        (lines.takeWhile (· ≠ quit)) answers := by
  induction lines with
  | nil => exact ⟨[], rfl, .nil⟩
  | cons line lines ih =>
      by_cases hquit : line = quit
      · refine ⟨[], ?_, ?_⟩
        · rw [run, reply, if_pos hquit]
          rfl
        · simp [hquit]
      · obtain ⟨answers, hrun, hanswers⟩ := ih
        obtain ⟨ok, shown, hshown⟩ := interpreter.exists_answers line
        refine ⟨shown :: answers, ?_, ?_⟩
        · rw [run, reply, if_neg hquit, hshown.respond_eq, hrun]
          rfl
        · rw [List.takeWhile_cons_of_pos (by simpa using hquit)]
          exact .cons hshown.respond_eq hanswers

end Dialogue

namespace CommandLine

theorem run_expression {interpreter : Interpreter} {source : String} {ok : Bool} {shown : String}
    (h : interpreter.Answers source ok shown) {settings : Settings} {arguments : List String}
    {invocation : Invocation} (hrequest : request arguments = .run invocation)
    (hexpression : invocation.expression = some source)
    (hinterpreter : invocation.interpreter settings = interpreter) (input : String) :
    run settings arguments input = .ok
      { exitCode := 0
        shown := shown ++ "\n"
        logLevel := settings.logLevelOr invocation.logLevel } := by
  simp only [run, hrequest, hexpression, hinterpreter, h.respond_eq]
  rfl

theorem request_expression (source : String) :
    request ["--", source] = .run { expression := some source } ∧
      (classify source.toList = .plain source →
        request [source] = .run { expression := some source } ∧
          request ["--strict-brackets", source] =
            .run { expression := some source, strict := true }) := by
  have hflag : classify "--strict-brackets".toList = .option .strictBrackets none := by decide
  refine ⟨?_, fun hplain => ⟨?_, ?_⟩⟩
  · simp [request, words, classify, take]
  · simp [request, words, hplain, take]
  · rw [request, words, hflag]
    simp [words, hplain, take]

end CommandLine

/-- What all drivers of an interpreter make of a source: the text that they show, and whether it is
the text of a value. -/
structure Interpreter.Shows (interpreter : Interpreter) (source : String) (ok : Bool)
    (shown : String) : Prop where
  respond_eq : interpreter.respond source = .ok shown
  ok_iff : ok = true ↔ ∃ expression value text, interpreter.read source = .ok expression ∧
    interpreter.evaluate expression = .ok value ∧ interpreter.render value = .ok text
  handle_evaluation : ∀ explain, Service.handle { interpreter, explain }
    (String.ofList (Service.evaluation source.toList).encode).toUTF8.data.toList =
      .ok { ok, text := CodePoint.ofText shown.toList }
  handle_request : ∀ explain request, Service.Evaluates interpreter request source.toList →
    Service.handle { interpreter, explain } request =
      .ok { ok, text := CodePoint.ofText shown.toList }
  command_line : ∀ settings arguments input invocation,
    CommandLine.request arguments = .run invocation → invocation.expression = some source →
      invocation.interpreter settings = interpreter →
        CommandLine.run settings arguments input = .ok
          { exitCode := 0
            shown := shown ++ "\n"
            logLevel := settings.logLevelOr invocation.logLevel }
  report : source ≠ "" → ∀ number line, trim line = source.toList →
    ∃ report, Document.reportLine interpreter number line = .ok (some report) ∧
      report.finding.Tells ok shown

theorem Interpreter.Answers.shows {interpreter : Interpreter} {source : String} {ok : Bool}
    {shown : String} (h : interpreter.Answers source ok shown) (hlevels : 0 < interpreter.levels) :
    interpreter.Shows source ok shown where
  respond_eq := h.respond_eq
  ok_iff := h.ok_iff
  handle_evaluation := Service.handle_of_evaluates (Service.evaluates_encode hlevels _) h
  handle_request := fun explain _ hrequest => Service.handle_of_evaluates hrequest h explain
  command_line := fun _ _ input _ hrequest hexpression hinterpreter =>
    CommandLine.run_expression h hrequest hexpression hinterpreter input
  report := fun hsource number _ hline => Document.reportLine_of_answers h hsource hline number

/-- The drivers of an interpreter agree on every source, the command line takes any source, and a
dialogue shows for each line what the line shows alone, up to the line that quits. -/
theorem drivers_agree (strict : Bool) :
    (∀ source, ∃ ok shown, Interpreter.Shows { strict } source ok shown) ∧
    (∀ source, CommandLine.request ["--", source] = .run { expression := some source } ∧
      (CommandLine.classify source.toList = .plain source →
        CommandLine.request [source] = .run { expression := some source } ∧
          CommandLine.request ["--strict-brackets", source] =
            .run { expression := some source, strict := true })) ∧
    ∀ prompt quit lines, ∃ events,
      Dialogue.run { strict } prompt quit lines = .ok events ∧
      List.Forall₂ (fun line shown => Interpreter.respond { strict } line = .ok shown)
        (lines.takeWhile (· ≠ quit)) (Dialogue.output events) ∧
      Dialogue.prompts events = List.replicate ((Dialogue.output events).length + 1) prompt := by
  refine ⟨?_, CommandLine.request_expression, ?_⟩
  · intro source
    obtain ⟨ok, shown, hshown⟩ := Interpreter.exists_answers { strict } source
    exact ⟨ok, shown, hshown.shows (Nat.succ_pos _)⟩
  · intro prompt quit lines
    obtain ⟨answers, hrun, hanswers⟩ := Dialogue.run_transcript { strict } prompt quit lines
    refine ⟨_, hrun, ?_, ?_⟩
    · rw [Dialogue.output_transcript]
      exact hanswers
    · rw [Dialogue.output_transcript, Dialogue.prompts_transcript]

end SmallLisp
