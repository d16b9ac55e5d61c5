import SmallLisp.Editor.Session
import SmallLisp.Proofs.ByLine
import SmallLisp.Proofs.Cursor
import SmallLisp.Proofs.Drivers
import SmallLisp.Proofs.Place

namespace SmallLisp

namespace Reader

/-- Whether a source is at fault for where it ends. -/
def Misreading.AtEnd (cause : Misreading) : Prop :=
  ∃ expected, cause = .unexpected .endOfInput expected

/-- That a source is at fault in its first line, at the token of an index or at its end. -/
structure FaultInLine (options : Options) (source : List Char) (cause : Misreading)
    (index : Nat) : Prop where
  first : FirstFault (Derives options.strict) (Token.lex source) index
  read_eq : read options source =
    .error (.failure (cause.failure source (startAt source index)))
  failure_eq : ∃ details, cause.failure source (startAt source index) =
    .unreadable details (some 1) (some ↑(startAt source index + 1))
  atEnd_iff : startAt source index = source.length ↔ cause.AtEnd

/-- Whether a step that ends a reading does not say that the source has ended. -/
def Step.BlamesToken : Step → Prop
  | .refused cause => ¬ cause.AtEnd
  | .failed (.misread cause _) => ¬ cause.AtEnd
  | _ => True

section
variable {options : Options} {endOffset offset : Nat} {pending : Pending} {tokens : List Token}
  {cause : Misreading} {source : List Char}

theorem not_atEnd_ofToken (token : Token) (expected : Expected) :
    ¬ (Misreading.unexpected (.ofToken token) expected).AtEnd := by
  rintro ⟨other, h⟩
  have hfound := (Misreading.unexpected.inj h).1
  unfold Found.ofToken at hfound
  repeat' split at hfound
  all_goals cases hfound

theorem blamesToken_complete (value : Value) (stack : List Frame) :
    (complete value stack).BlamesToken := by
  rcases complete_cases value stack with ⟨next, hnext, -⟩ | ⟨result, hresult⟩
  · rw [hnext]
    trivial
  · rw [hresult]
    trivial

theorem blamesToken_begin (options : Options) (stack : List Frame) (token : Token) :
    (begin options stack token).BlamesToken := by
  unfold begin
  repeat' split
  all_goals first
    | exact blamesToken_complete _ stack
    | exact not_atEnd_ofToken token .expression
    | exact fun ⟨_, h⟩ => nomatch h
    | trivial

theorem blamesToken_close (options : Options) (bracket closing : Bracket) (items : List Value)
    (stack : List Frame) (token : Token) :
    (close options bracket closing items stack token).BlamesToken := by
  unfold close
  split
  · exact not_atEnd_ofToken token (.closing bracket)
  · exact blamesToken_complete _ stack

theorem blamesToken_step (options : Options) (pending : Pending) (token : Token) :
    (step options pending token).BlamesToken := by
  have hsteps := step_steps options pending token
  generalize step options pending token = step at hsteps
  cases hsteps with
  | begins => exact blamesToken_begin options pending.frames token
  | closes _ _ => exact blamesToken_close options _ _ _ _ token
  | separates _ => trivial
  | refuses => exact not_atEnd_ofToken token .blankOrClosing

theorem resume_blames
    (h : (resume options endOffset pending tokens).outcome = .error (.misread cause offset)) :
    cause.AtEnd ∧ offset = endOffset ∨ ¬ cause.AtEnd ∧ ∃ token ∈ tokens, offset = token.offset := by
  induction tokens generalizing pending with
  | nil =>
      simp only [resume, Except.error.injEq, Stop.misread.injEq] at h
      obtain ⟨rfl, rfl⟩ := h
      exact .inl ⟨⟨_, rfl⟩, rfl⟩
  | cons token tokens ih =>
      have hblames := blamesToken_step options pending token
      have hplaces := places_step options pending token
      simp only [resume] at h
      generalize step options pending token = next at hblames hplaces h
      cases hplaces with
      | more next =>
          rcases ih h with hend | ⟨hcause, found, hfound, hoffset⟩
          · exact .inl hend
          · exact .inr ⟨hcause, found, List.mem_cons_of_mem _ hfound, hoffset⟩
      | done value => simp at h
      | refused _ =>
          simp only [Except.error.injEq, Stop.misread.injEq] at h
          obtain ⟨rfl, rfl⟩ := h
          exact .inr ⟨hblames, token, List.mem_cons_self, rfl⟩
      | misread _ =>
          simp only [Except.error.injEq, Stop.misread.injEq] at h
          obtain ⟨rfl, rfl⟩ := h
          exact .inr ⟨hblames, token, List.mem_cons_self, rfl⟩
      | tooDeep => simp at h
      | defect mistake => simp at h

theorem reading_atEnd_iff (h : (reading options source).outcome = .error (.misread cause offset)) :
    offset = source.length ↔ cause.AtEnd := by
  rcases resume_blames h with ⟨hcause, hoffset⟩ | ⟨hcause, token, htoken, hoffset⟩
  · exact iff_of_true hoffset hcause
  · have hpairwise := Token.offsets_pairwise 0 source
    rw [Nat.zero_add, List.pairwise_append] at hpairwise
    have hbefore := hpairwise.2.2 token.offset (List.mem_map_of_mem htoken) source.length (by simp)
    exact iff_of_false (by omega) hcause

theorem faultInLine_of_misread (hline : '\n' ∉ source)
    (h : (reading options source).outcome = .error (.misread cause offset)) :
    ∃ index, offset = startAt source index ∧ FaultInLine options source cause index := by
  obtain ⟨index, hindex, hfirst⟩ := firstFault_of_misread h
  change offset = startAt source index at hindex
  subst hindex
  refine ⟨index, rfl, hfirst, read_of_error h, ?_, reading_atEnd_iff h⟩
  have hwithin := startAt_le source index
  have htake : '\n' ∉ source.take (startAt source index) := fun hmem =>
    hline (List.mem_of_mem_take hmem)
  have hplace : Text.position source (startAt source index) =
      { line := 1, column := startAt source index + 1 } := by
    rw [Text.position_eq hwithin, List.count_eq_zero.mpr htake, Text.lastLine_eq_reverse htake,
      List.length_reverse, List.length_take_of_le hwithin]
  rw [Misreading.failure, hplace]
  exact ⟨_, rfl⟩

end

end Reader

namespace Interpreter

/-- Whether a source does not read. -/
def Misreads (interpreter : Interpreter) (source : String) : Prop :=
  ∃ details line column,
    interpreter.read source = .error (.failure (.unreadable details line column))

/-- Whether a source has no answer for another reason: it is nested too deeply to be read, or it
reads, and evaluation or the rendering of the value fails. -/
inductive Unanswered (interpreter : Interpreter) (source : String) : Prop
  | tooDeep : interpreter.read source = .error (.failure .tooDeep) →
      Unanswered interpreter source
  | evaluation {expression : Value} {failure : Failure} : interpreter.read source = .ok expression →
      interpreter.evaluate expression = .error (.failure failure) →
        Unanswered interpreter source
  | rendering {expression value : Value} {failure : Failure} :
      interpreter.read source = .ok expression → interpreter.evaluate expression = .ok value →
        interpreter.render value = .error (.failure failure) → Unanswered interpreter source

/-- What can come of a source: the text of its value, the failure to read it, or a failure of
another kind. -/
inductive Comes (interpreter : Interpreter) (source : String) : Outcome String → Prop
  | text {expression value : Value} {text : String} : interpreter.read source = .ok expression →
      interpreter.evaluate expression = .ok value → interpreter.render value = .ok text →
        Comes interpreter source (.ok text)
  | misread {details : String} {line column : Option Int} :
      interpreter.read source = .error (.failure (.unreadable details line column)) →
        Comes interpreter source (.error (.failure (.unreadable details line column)))
  | failure {failure : Failure} : interpreter.Unanswered source →
      (∀ details line column, failure ≠ .unreadable details line column) →
        Comes interpreter source (.error (.failure failure))

variable {interpreter : Interpreter} {source : String}

theorem Unanswered.not_misreads (h : interpreter.Unanswered source) :
    ¬ interpreter.Misreads source := by
  rintro ⟨details, line, column, hread⟩
  cases h with
  | tooDeep hdeep => cases hread.symm.trans hdeep
  | evaluation hok _ => cases hread.symm.trans hok
  | rendering hok _ _ => cases hread.symm.trans hok

theorem not_unanswered {expression value : Value} {text : String}
    (hread : interpreter.read source = .ok expression)
    (hvalue : interpreter.evaluate expression = .ok value)
    (htext : interpreter.render value = .ok text) : ¬ interpreter.Unanswered source := by
  intro h
  cases h with
  | tooDeep hdeep => cases hread.symm.trans hdeep
  | evaluation hok hfailure =>
      cases hread.symm.trans hok
      cases hvalue.symm.trans hfailure
  | rendering hok hother hfailure =>
      cases hread.symm.trans hok
      cases hvalue.symm.trans hother
      cases htext.symm.trans hfailure

theorem answer_of_read_error {fault : Fault} (h : interpreter.read source = .error fault) :
    interpreter.answer source = .error fault := by
  rw [answer, evaluateSource, h]
  rfl

theorem comes_answer (interpreter : Interpreter) (source : String) :
    interpreter.Comes source (interpreter.answer source) := by
  rcases interpreter.read_cases source with
    ⟨expression, hread, hwhole⟩ | ⟨details, line, column, hread⟩ | hread
  · have hanswer : interpreter.answer source =
        interpreter.evaluate expression >>= interpreter.render := by
      rw [answer, evaluateSource, hread]
      rfl
    have hevaluate : (interpreter.evaluate expression).Within _ _ :=
      evaluate_within interpreter.levels hwhole (.whole expression)
    rw [hanswer]
    rcases Outcome.within_iff.mp hevaluate with ⟨value, hvalue, hwhole⟩ | ⟨failure, hvalue, harises⟩
    · have hrender : (interpreter.render value).Within _ _ :=
        Value.render_within hwhole interpreter.levels
      rw [hvalue]
      change interpreter.Comes source (interpreter.render value)
      rcases Outcome.within_iff.mp hrender with ⟨text, htext, -⟩ | ⟨failure, htext, hof⟩
      · rw [htext]
        exact .text hread hvalue htext
      · rw [htext]
        refine .failure (.rendering hread hvalue htext) ?_
        rintro details line column rfl
        exact hof
    · rw [hvalue]
      refine .failure (.evaluation hread hvalue) ?_
      rintro details line column rfl
      exact harises
  · rw [answer_of_read_error hread]
    exact .misread hread
  · rw [answer_of_read_error hread]
    exact .failure (.tooDeep hread) (by simp)

end Interpreter

namespace Document

open Text Editor

/-- The column at fault that a report tells, if it tells one. -/
def Report.column? (report : Report) : Option Int :=
  match report.finding with
  | .result _ => none
  | .error _ column => column

/-- That a report says where the expression of its line stands, whether and where that is at fault,
and how bad an answer it has. -/
structure Report.Describes (report : Report) (interpreter : Interpreter) (line : List Char) :
    Prop where
  source_eq : (line.drop report.start).take (report.stop - report.start) = trim line
  column_iff : report.column?.isSome ↔ interpreter.Misreads (String.ofList (trim line))
  error_iff : (diagnostic? report).map Diagnostic.severity = some .error ↔
    interpreter.Misreads (String.ofList (trim line))
  warning_iff : (diagnostic? report).map Diagnostic.severity = some .warning ↔
    interpreter.Unanswered (String.ofList (trim line))
  column_eq : ∀ column, report.column? = some column → ∃ cause index,
    Reader.FaultInLine interpreter.options (trim line) cause index ∧
      column = report.start + Reader.startAt (trim line) index ∧
        report.start ≤ column ∧ column ≤ report.stop ∧ (column = report.stop ↔ cause.AtEnd)

/-- What a report finds in a source whose expression starts at some column. -/
inductive Finds (interpreter : Interpreter) (start : Nat) (source : String) : Finding → Prop
  | result (text : String) : ¬ interpreter.Misreads source → ¬ interpreter.Unanswered source →
      Finds interpreter start source (.result text)
  | misread {details : String} {line column : Option Int} (message : String) :
      interpreter.read source = .error (.failure (.unreadable details line column)) →
        Finds interpreter start source (.error message (some (faultColumn start column)))
  | unanswered (message : String) : interpreter.Unanswered source →
      Finds interpreter start source (.error message none)

section
variable {interpreter : Interpreter} {start : Nat} {code line : List Char} {finding : Finding}
  {report : Report}

theorem finds_of_find (h : find interpreter start code = .ok finding) :
    Finds interpreter start (String.ofList code) finding := by
  have hcomes := interpreter.comes_answer (String.ofList code)
  unfold find at h
  generalize interpreter.answer (String.ofList code) = outcome at hcomes h
  cases hcomes with
  | text hread hvalue htext =>
      cases h
      refine .result _ ?_ (Interpreter.not_unanswered hread hvalue htext)
      rintro ⟨_, _, _, hmisread⟩
      cases hmisread.symm.trans hread
  | misread hread =>
      cases h
      exact .misread _ hread
  | @failure reason hunanswered hother =>
      cases reason with
      | unreadable details line column => exact absurd rfl (hother details line column)
      | _ =>
          cases h
          exact .unanswered _ hunanswered

theorem find_of_reportLine {number : Int}
    (h : reportLine interpreter number line = .ok (some report)) :
    find interpreter report.start (trim line) = .ok report.finding ∧
      report.start = line.length - (trimLeft line).length ∧
        report.stop = report.start + (trim line).length := by
  have hline : trim line ≠ [] := fun hline =>
    nomatch h.symm.trans (reportLine_blank interpreter number hline)
  obtain ⟨finding, hfinding, hreport⟩ := exists_reportLine_filled interpreter hline
  cases h.symm.trans (hreport number)
  exact ⟨hfinding, rfl, rfl⟩

theorem exists_fault {source : List Char} {details : String} {place column : Option Int}
    (hline : '\n' ∉ source) (hread : interpreter.read (String.ofList source) =
      .error (.failure (.unreadable details place column))) :
    ∃ cause index, Reader.FaultInLine interpreter.options source cause index ∧
      column = some ↑(Reader.startAt source index + 1) := by
  rw [Interpreter.read, String.toList_ofList] at hread
  obtain ⟨cause, offset, houtcome⟩ := Reader.misread_of_unreadable hread
  obtain ⟨index, rfl, hfault⟩ := Reader.faultInLine_of_misread hline houtcome
  obtain ⟨_, hfailure⟩ := hfault.failure_eq
  have hsame := hread.symm.trans hfault.read_eq
  rw [hfailure] at hsame
  cases hsame
  exact ⟨cause, index, hfault, rfl⟩

theorem faultColumn_succ (start offset : Nat) :
    faultColumn start (some ↑(offset + 1)) = start + offset := by
  simp only [faultColumn, Int.natCast_add, Int.cast_ofNat_Int]
  split <;> omega

theorem describes_of_reportLine {number : Int} (hline : '\n' ∉ line)
    (h : reportLine interpreter number line = .ok (some report)) :
    report.Describes interpreter line := by
  obtain ⟨hfind, hstart, hstop⟩ := find_of_reportLine h
  obtain ⟨left, right, hsplit, hleft⟩ := exists_margins line
  have hsource : (line.drop report.start).take (report.stop - report.start) = trim line := by
    have hdrop := (congrArg (List.drop left.length) hsplit).trans List.drop_left
    rw [hstop, Nat.add_sub_cancel_left, hstart, hleft, hdrop, List.take_left]
  have hfinds := finds_of_find hfind
  obtain ⟨number, start, stop, finding⟩ := report
  dsimp only at hstop hfinds hsource
  cases hfinds with
  | result text hread hanswered =>
      refine ⟨hsource, ?_, ?_, ?_, ?_⟩
      · simpa [Report.column?] using hread
      · simpa [diagnostic?] using hread
      · simpa [diagnostic?] using hanswered
      · simp [Report.column?]
  | unanswered message hunanswered =>
      have hread := hunanswered.not_misreads
      refine ⟨hsource, ?_, ?_, ?_, ?_⟩
      · simpa [Report.column?] using hread
      · simpa [diagnostic?] using hread
      · simpa [diagnostic?] using hunanswered
      · simp [Report.column?]
  | misread message hread =>
      have hmisreads : interpreter.Misreads (String.ofList (trim line)) := ⟨_, _, _, hread⟩
      have hanswered : ¬ interpreter.Unanswered (String.ofList (trim line)) := fun hunanswered =>
        hunanswered.not_misreads hmisreads
      refine ⟨hsource, ?_, ?_, ?_, ?_⟩
      · simpa [Report.column?] using hmisreads
      · simpa [diagnostic?] using hmisreads
      · simpa [diagnostic?] using hanswered
      · rintro column ⟨⟩
        have hcode : '\n' ∉ trim line := by
          intro hmem
          apply hline
          rw [hsplit]
          exact List.mem_append_right _ (List.mem_append_left _ hmem)
        obtain ⟨cause, index, hfault, rfl⟩ := exists_fault hcode hread
        have hwithin := Reader.startAt_le (trim line) index
        refine ⟨cause, index, hfault, ?_⟩
        rw [faultColumn_succ, ← hfault.atEnd_iff]
        dsimp only
        omega

end

/-- Every report describes its line: it spans what is left of the line without the blanks around it,
tells a column just when that does not read, and marks it accordingly. The column is that of the
token at fault in the line, or the one behind the expression when the line ends too early. -/
theorem reports_describe_lines (interpreter : Interpreter) (text : List Char) :
    ∃ reports, analyze interpreter text = .ok reports ∧
      ∀ report ∈ reports, ∃ (number : Nat) (line : List Char), report.line = number ∧
        (lines text)[number]? = some line ∧ report.Describes interpreter line := by
  obtain ⟨reports, hreports, -⟩ := exists_analyze interpreter text
  refine ⟨reports, hreports, fun report hreport => ?_⟩
  obtain ⟨number, line, hline, hfound⟩ := mem_analyze hreports hreport
  refine ⟨number, line, line_of_reportLine hfound, hline, describes_of_reportLine ?_ hfound⟩
  intro hnewline
  exact absurd (isLineEnd_of_mem_lines (List.mem_of_getElem? hline) hnewline) (by decide)

theorem reports_describe_lines_unclosed :
    ∃ report, analyze { strict := false } ['\t', '(', '1'] = .ok [report] ∧
      report.Describes { strict := false } ['\t', '(', '1'] := by
  obtain ⟨reports, hreports, hall⟩ := reports_describe_lines { strict := false } ['\t', '(', '1']
  have hnumbers : reports.map Report.line = [0] :=
    (lines_of_reportLines hreports).trans (by decide)
  obtain ⟨report, rfl, hline⟩ := List.map_eq_singleton_iff.mp hnumbers
  refine ⟨report, hreports, ?_⟩
  obtain ⟨number, line, hnumber, hget, hdescribes⟩ := hall report List.mem_cons_self
  obtain rfl : number = 0 := Int.natCast_inj.mp (hnumber.symm.trans hline)
  obtain rfl : ['\t', '(', '1'] = line := Option.some.inj hget
  exact hdescribes

end Document

end SmallLisp
