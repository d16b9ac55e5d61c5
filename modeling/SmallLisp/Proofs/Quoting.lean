import SmallLisp.Interpreter
import SmallLisp.Proofs.Cursor
import SmallLisp.Proofs.Place
import SmallLisp.Proofs.Trailing

namespace SmallLisp

namespace Reader

/-- The failure that a cause is at a place. -/
def Misreading.report (cause : Misreading) (place : Text.Position) : Failure :=
  .unreadable
    ("\"lisp\" (line " ++ place.line.repr ++ ", column " ++ place.column.repr ++ "): " ++
      cause.text)
    (some place.line) (some place.column)

theorem Misreading.failure_eq (source : List Char) (cause : Misreading) (offset : Nat) :
    cause.failure source offset = cause.report (Text.position source offset) :=
  rfl

-- Inside a quotation that is still open the reader goes the way it goes without it.

def Pending.quoted : Pending → Pending
  | expression stack => expression (stack ++ [.quoted])
  | opened bracket stack => opened bracket (stack ++ [.quoted])
  | afterItem bracket items stack => afterItem bracket items (stack ++ [.quoted])

def Step.quoted : Step → Step
  | more next => more next.quoted
  | done value => done value.quotation
  | other => other

def Reading.quoted (reading : Reading) : Reading :=
  { reading with outcome := reading.outcome.map Value.quotation }

/-- Room for one more form around what is read. -/
def Options.deeper (options : Options) : Options :=
  { options with levels := options.levels + 1 }

theorem complete_quoted (value : Value) (stack : List Frame) :
    complete value (stack ++ [.quoted]) = (complete value stack).quoted := by
  induction stack generalizing value with
  | nil => rfl
  | cons frame stack ih =>
      cases frame with
      | quoted => exact ih value.quotation
      | list bracket items => rfl

section
variable (options : Options) (stack : List Frame) (token : Token)

theorem begin_quoted :
    begin options.deeper (stack ++ [.quoted]) token = (begin options stack token).quoted := by
  have hcomplete := complete_quoted
  have hlevels : (stack ++ [Frame.quoted]).length < options.deeper.levels ↔
      stack.length < options.levels := by
    simp [Options.deeper]
  unfold begin
  simp only [hcomplete, hlevels]
  split
  · rfl
  · split <;> rfl
  · split <;> rfl
  · split <;> rfl
  · rfl
  · split <;> rfl
  · split <;> rfl
  all_goals rfl

theorem close_quoted (bracket closing : Bracket) (items : List Value) :
    close options.deeper bracket closing items (stack ++ [.quoted]) token =
      (close options bracket closing items stack token).quoted := by
  have hstrict : options.deeper.strict = options.strict := rfl
  simp only [close, hstrict, complete_quoted]
  split <;> rfl

theorem step_quoted (pending : Pending) :
    step options.deeper pending.quoted token = (step options pending token).quoted := by
  cases pending with
  | expression stack => exact begin_quoted options stack token
  | opened bracket stack =>
      simp only [Pending.quoted, step]
      split
      · exact close_quoted options stack token bracket _ []
      · exact begin_quoted options (.list bracket [] :: stack) token
  | afterItem bracket items stack =>
      simp only [Pending.quoted, step]
      split
      · exact close_quoted options stack token bracket _ items
      · rfl
      · rfl

theorem resume_quoted (endOffset : Nat) (pending : Pending) (tokens : List Token) :
    resume options.deeper endOffset pending.quoted tokens =
      (resume options endOffset pending tokens).quoted := by
  induction tokens generalizing pending with
  | nil => cases pending <;> rfl
  | cons token tokens ih =>
      simp only [resume, step_quoted]
      cases step options pending token with
      | more next => exact ih next
      | done value => rfl
      | refused cause => rfl
      | failed stop => rfl

end

/-- A quote and a source after it read as the source does, as a quotation and one place further. -/
theorem reading_quote (options : Options) (source : List Char) :
    reading options.deeper ('\'' :: source) = ((reading options source).quoted).shift 1 := by
  have hlex : Token.lex ('\'' :: source) =
      { kind := .quote, text := ['\''], offset := 0 } ::
        (Token.lex source).map (Token.shift 1) := by
    rw [Token.lex, Token.lexFrom_quote, Token.lexFrom_eq_shift]
  rw [reading, hlex, List.length_cons, Nat.add_comm, reading, ← resume_quoted, ← resume_shift]
  rfl

theorem reading_quote_levels {strict : Bool} {needed : Nat} {source : List Char}
    {outcome : Except Stop Value}
    (h : (reading { strict, levels := needed } source).outcome = outcome)
    (hshallow : outcome ≠ .error .tooDeep) (levels : Nat) :
    (reading { strict, levels } ('\'' :: source)).outcome =
        (outcome.map Value.quotation).mapError (Stop.shift 1) ∨
      (reading { strict, levels } ('\'' :: source)).outcome = .error .tooDeep ∧
        levels ≤ needed := by
  have hquoted : (reading { strict, levels := needed + 1 } ('\'' :: source)).outcome =
      (outcome.map Value.quotation).mapError (Stop.shift 1) := by
    rw [← h]
    exact congrArg Reading.outcome (reading_quote { strict, levels := needed } source)
  have hdeep : (outcome.map Value.quotation).mapError (Stop.shift 1) ≠ .error .tooDeep := by
    cases outcome with
    | ok value => simp [Except.map, Except.mapError]
    | error stop =>
        cases stop with
        | tooDeep => exact absurd rfl hshallow
        | _ => simp [Except.map, Except.mapError, Stop.shift]
  exact (reading_levels hquoted hdeep levels).imp_right fun ⟨hread, hlevels⟩ =>
    ⟨hread, Nat.le_of_lt_succ hlevels⟩

section
variable {strict : Bool} {needed : Nat} {source : List Char} {value : Value}

theorem read_quote (h : read { strict, levels := needed } source = .ok value) (levels : Nat) :
    read { strict, levels } ('\'' :: source) = .ok value.quotation ∨
      read { strict, levels } ('\'' :: source) = .fail .tooDeep ∧ levels ≤ needed := by
  rcases reading_quote_levels (read_ok_iff.mp h) (by simp) levels with hread | ⟨hread, hlevels⟩
  · exact .inl (read_of_ok hread)
  · exact .inr ⟨read_of_error hread, hlevels⟩

theorem read_quote_unreadable {details : String} {line column : Option Int}
    (h : read { strict, levels := needed } source =
      .error (.failure (.unreadable details line column))) (levels : Nat) :
    ∃ cause place, Failure.unreadable details line column = Misreading.report cause place ∧
      (read { strict, levels } ('\'' :: source) = .fail (cause.report (place.after 1)) ∨
        read { strict, levels } ('\'' :: source) = .fail .tooDeep ∧ levels ≤ needed) := by
  obtain ⟨cause, offset, houtcome⟩ := misread_of_unreadable h
  have hreport := (read_of_error houtcome).symm.trans h
  simp only [Stop.fault, Except.error.injEq, Fault.failure.injEq, Misreading.failure_eq] at hreport
  refine ⟨cause, Text.position source offset, hreport.symm, ?_⟩
  rcases reading_quote_levels houtcome (by simp) levels with hread | ⟨hread, hlevels⟩
  · have hline : '\n' ∉ ['\''] := by decide
    have hplace := Text.position_append hline source offset
    rw [List.singleton_append, List.length_singleton] at hplace
    refine .inl ?_
    rw [← hplace]
    exact read_of_error hread
  · exact .inr ⟨read_of_error hread, hlevels⟩

theorem breaks_of_read {options : Options} (h : read options source = .ok value)
    (more : List Char) : Token.Breaks Text.isBlank (source ++ more) := by
  obtain ⟨taken, htaken, hderives⟩ := derives_of_read h
  cases source with
  | nil =>
      rw [Token.lex, Token.lexFrom, List.prefix_nil] at htaken
      subst htaken
      exact absurd hderives not_derives_nil
  | cons c cs =>
      rw [List.cons_append, Token.breaks_cons, Bool.eq_false_iff]
      intro hblank
      rw [Token.lex, Token.lexFrom_cons, Token.lexeme_blank hblank] at htaken
      cases taken with
      | nil => exact not_derives_nil hderives
      | cons first taken =>
          obtain ⟨rfl, -⟩ := List.cons_prefix_cons.mp htaken
          rcases hderives.startsExpression with ⟨leaf, hleaf⟩ | hmark | ⟨bracket, hopener⟩
          · exact hleaf.kind_ne.2.2.2 rfl
          · cases hmark
          · cases hopener

theorem derives_lexFrom {options : Options} (h : read options source = .ok value)
    (hrest : (Stream.ofSource options source).readExpression.2.tokens = []) (offset : Nat) :
    Derives options.strict (Token.lexFrom offset source) value := by
  rw [tokens_readExpression] at hrest
  have hreading : resume options (offset + source.length) (.expression [])
      (Token.lexFrom offset source) = (reading options source).shift offset := by
    rw [Token.lexFrom_eq_shift, resume_shift, reading]
  have hread : (resume options (offset + source.length) (.expression [])
      (Token.lexFrom offset source)).outcome = .ok value := by
    rw [hreading, Reading.shift, read_ok_iff.mp h]
    rfl
  obtain ⟨taken, hsplit, hcompleted⟩ :=
    resume_ok (fun _ => Token.genuine_of_mem_lexFrom) hread
  rw [hreading, Reading.shift, hrest, List.map_nil, List.append_nil] at hsplit
  rw [hsplit]
  exact completedBy_expression_iff.mp hcompleted

/-- The long form of a quotation of a source. -/
def longQuotation (source : List Char) : List Char :=
  "(quote ".toList ++ (source ++ [')'])

theorem derives_longQuotation {options : Options} (h : read options source = .ok value)
    (hrest : (Stream.ofSource options source).readExpression.2.tokens = []) :
    Derives options.strict (Token.lex (longQuotation source)) value.quotation := by
  have hderives := derives_lexFrom h hrest 7
  let opener : Token := { kind := .opening .round, text := ['('], offset := 0 }
  let name : Token := { kind := .atom, text := "quote".toList, offset := 1 }
  let blank : Token := { kind := .blank, text := [' '], offset := 6 }
  let closer : Token := { kind := .closing .round, text := [')'], offset := 7 + source.length }
  have hopener : Token.lex (longQuotation source) =
      opener :: Token.lexFrom 1 ("quote".toList ++ (' ' :: (source ++ [')']))) :=
    Token.lexFrom_opening .round
  have hname : Token.lexFrom 1 ("quote".toList ++ (' ' :: (source ++ [')']))) =
      name :: Token.lexFrom 6 (' ' :: (source ++ [')'])) := by
    apply Token.lexFrom_of_endsBefore
    · have hcontinues : "uote".toList.all Token.continuesAtom := by decide
      exact ⟨'q', "uote".toList, rfl, by decide, List.all_eq_true.mp hcontinues⟩
    · have hdelimited : Token.Delimited (' ' :: (source ++ [')'])) := by
        show Token.isDelimiter ' '
        decide
      exact Token.endsBefore_of_delimited (by decide) (by decide) hdelimited _
  have hblank : Token.lexFrom 6 (' ' :: (source ++ [')'])) =
      blank :: Token.lexFrom 7 (source ++ [')']) :=
    Token.lexFrom_blank Token.fits_space (breaks_of_read h [')'])
  have hcloser : Token.lexFrom 7 (source ++ [')']) = Token.lexFrom 7 source ++ [closer] := by
    have hdelimited : Token.Delimited [')'] := by
      show Token.isDelimiter ')'
      decide
    have hclosing : Token.lexFrom (7 + source.length) [')'] = [closer] :=
      (Token.lexFrom_closing .round).trans (by rw [Token.lexFrom]; rfl)
    rw [Token.lexFrom_append_delimited hderives.kind_ne_stray hderives.kind_last_ne_blank
      hdelimited, hclosing]
  have hlex : Token.lex (longQuotation source) =
      opener :: ([name] ++ blank :: (Token.lexFrom 7 source ++ []) ++ [closer]) := by
    rw [hopener, hname, hblank, hcloser]
    simp
  have hsymbol : Leaf name (.symbol (String.ofList "quote".toList)) :=
    .symbol rfl (by decide) (by decide)
  rw [hlex]
  exact .list rfl (.leaf hsymbol) (.next rfl hderives .none) rfl fun _ => rfl

theorem read_longQuotation (h : read { strict, levels := needed } source = .ok value)
    (hrest : (Stream.ofSource { strict, levels := needed } source).readExpression.2.tokens = [])
    (levels : Nat) :
    read { strict, levels } (longQuotation source) = .ok value.quotation ∨
      read { strict, levels } (longQuotation source) = .fail .tooDeep ∧ levels ≤ needed := by
  have hderives : Derives strict (Token.lex (longQuotation source)) value.quotation :=
    derives_longQuotation h hrest
  rcases read_of_derives { strict, levels } (List.prefix_refl _) hderives with
    ⟨hread, -⟩ | ⟨hread, hlevels⟩
  · exact .inl hread
  · rw [Value.depth_quotation] at hlevels
    have hdepth : value.depth ≤ needed := (depth_of_read h).2
    exact .inr ⟨hread, (Nat.le_of_lt_succ hlevels).trans hdepth⟩

end

end Reader

namespace Interpreter

variable {interpreter : Interpreter} {source : String}

theorem evaluateSource_of_read_quotation {value : Value}
    (h : interpreter.read source = .ok value.quotation) :
    interpreter.evaluateSource source = .ok value := by
  have hdepth : value.quotation.depth ≤ interpreter.levels := (Reader.depth_of_read h).2
  rw [Value.depth_quotation] at hdepth
  rw [evaluateSource, h]
  show SmallLisp.evaluate interpreter.levels value.quotation = .ok value
  cases hlevels : interpreter.levels with
  | zero => omega
  | succ levels => rfl

theorem evaluateSource_of_read_error {fault : Fault} (h : interpreter.read source = .error fault) :
    interpreter.evaluateSource source = .error fault := by
  rw [evaluateSource, h]
  rfl

/-- A quotation of a source evaluates to what the source reads as, in the short form and, if the
source is one expression, in the long one. A source that does not read does not read after a quote
either: the fault is the same, one column further on if it is in the first line. With too few levels
either form can be too deep. -/
theorem quote_identity (strict : Bool) (needed levels : Nat) (source : String) :
    let plain : Interpreter := { strict, levels := needed }
    let quoting : Interpreter := { strict, levels }
    (∀ value, plain.read source = .ok value →
      (quoting.evaluateSource ("'" ++ source) = .ok value ∨
        quoting.evaluateSource ("'" ++ source) = .fail .tooDeep ∧ levels ≤ needed) ∧
      ((Reader.Stream.ofSource plain.options source.toList).readExpression.2.tokens = [] →
        quoting.evaluateSource ("(quote " ++ source ++ ")") = .ok value ∨
          quoting.evaluateSource ("(quote " ++ source ++ ")") = .fail .tooDeep ∧
            levels ≤ needed)) ∧
    ∀ details line column,
      plain.read source = .fail (.unreadable details line column) →
        ∃ cause place, Failure.unreadable details line column =
            Reader.Misreading.report cause place ∧
          (quoting.evaluateSource ("'" ++ source) = .fail (cause.report (place.after 1)) ∨
            quoting.evaluateSource ("'" ++ source) = .fail .tooDeep ∧ levels ≤ needed) := by
  intro plain quoting
  have hshort : ("'" ++ source).toList = '\'' :: source.toList := String.toList_append
  have hlong : ("(quote " ++ source ++ ")").toList = Reader.longQuotation source.toList := by
    have hend : ")".toList = [')'] := by decide
    rw [String.toList_append, String.toList_append, hend, List.append_assoc]
    rfl
  refine ⟨fun value hread => ⟨?_, fun hrest => ?_⟩, fun details line column hread => ?_⟩
  · rcases Reader.read_quote hread levels with hquoted | ⟨hdeep, hlevels⟩
    · rw [← hshort] at hquoted
      exact .inl (evaluateSource_of_read_quotation hquoted)
    · rw [← hshort] at hdeep
      exact .inr ⟨evaluateSource_of_read_error hdeep, hlevels⟩
  · rcases Reader.read_longQuotation hread hrest levels with hquoted | ⟨hdeep, hlevels⟩
    · rw [← hlong] at hquoted
      exact .inl (evaluateSource_of_read_quotation hquoted)
    · rw [← hlong] at hdeep
      exact .inr ⟨evaluateSource_of_read_error hdeep, hlevels⟩
  · obtain ⟨cause, place, hreport, hquoted⟩ := Reader.read_quote_unreadable hread levels
    refine ⟨cause, place, hreport, ?_⟩
    rw [← hshort] at hquoted
    exact hquoted.imp evaluateSource_of_read_error fun ⟨hdeep, hlevels⟩ =>
      ⟨evaluateSource_of_read_error hdeep, hlevels⟩

theorem quote_identity_unclosed :
    let plain : Interpreter := { strict := true, levels := 1 }
    let quoting : Interpreter := { strict := true, levels := 2 }
    quoting.evaluateSource ("'" ++ "(1)") = .ok (.list [.integer 1]) ∧
      quoting.evaluateSource ("(quote " ++ "(1)" ++ ")") = .ok (.list [.integer 1]) ∧
      ∃ cause, plain.read "(1" = .fail (Reader.Misreading.report cause { line := 1, column := 3 }) ∧
        quoting.evaluateSource ("'" ++ "(1") =
          .fail (cause.report { line := 1, column := 4 }) := by
  intro plain quoting
  have hlist : Token.lex "(1)".toList =
      [{ kind := .opening .round, text := ['('], offset := 0 },
        { kind := .integer, text := ['1'], offset := 1 },
        { kind := .closing .round, text := [')'], offset := 2 }] := by
    decide +kernel
  have hopen : Token.lex "(1".toList =
      [{ kind := .opening .round, text := ['('], offset := 0 },
        { kind := .integer, text := ['1'], offset := 1 }] := by
    decide +kernel
  have hread : plain.read "(1)" = .ok (.list [.integer 1]) := by
    rw [read, Reader.read_eq, Reader.reading, hlist]
    rfl
  have hrest : (Reader.Stream.ofSource plain.options
      "(1)".toList).readExpression.2.tokens = [] := by
    rw [Reader.tokens_readExpression, Reader.reading, hlist]
    rfl
  have hfault : plain.read "(1" =
      .fail (Reader.Misreading.report (.unexpected .endOfInput .blankOrClosing)
        { line := 1, column := 3 }) := by
    rw [read, Reader.read_eq, Reader.reading, hopen]
    rfl
  have hlevels : ¬ 2 ≤ 1 := by decide
  obtain ⟨hshort, hlong⟩ := (quote_identity true 1 2 "(1)").1 _ hread
  obtain ⟨cause, place, hreport, hquoted⟩ := (quote_identity true 1 2 "(1").2 _ _ _ hfault
  refine ⟨hshort.resolve_right fun h => hlevels h.2,
    (hlong hrest).resolve_right fun h => hlevels h.2, cause, ?_⟩
  have hplace : place = { line := 1, column := 3 } := by
    simp only [Reader.Misreading.report, Failure.unreadable.injEq, Option.some.injEq,
      Int.natCast_inj] at hreport
    obtain ⟨-, hline, hcolumn⟩ := hreport
    obtain ⟨line, column⟩ := place
    rw [Text.Position.mk.injEq]
    exact ⟨hline.symm, hcolumn.symm⟩
  subst hplace
  refine ⟨hfault.trans ?_, hquoted.resolve_right fun h => hlevels h.2⟩
  exact congrArg Outcome.fail hreport

end Interpreter

end SmallLisp
