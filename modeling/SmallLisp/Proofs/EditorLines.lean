import SmallLisp.Editor.Session
import SmallLisp.Proofs.ByLine

/-!
Numbers of lines in an editor. An editor knows fewer ends of lines than a document has, and each of
the others puts the numbers of the lines after it one ahead of those that the editor shows.
-/

namespace SmallLisp

namespace Text

/-- The ends of lines that an editor knows. -/
def endsEditorLine (c : Char) : Bool :=
  c = '\n' || c = '\r'

/-- The ends of lines of a document that are none to an editor. -/
def endsDocumentLine (c : Char) : Bool :=
  isLineEnd c && !endsEditorLine c

section
variable {c : Char} {before line after : List Char}

theorem isLineEnd_eq (c : Char) : isLineEnd c = (endsEditorLine c || endsDocumentLine c) := by
  simp only [endsDocumentLine, endsEditorLine, isLineEnd]
  grind

theorem isLineEnd_of_endsEditorLine (hc : endsEditorLine c) : isLineEnd c := by
  rw [isLineEnd_eq, hc, Bool.true_or]

theorem lineEnds_eq_add (text : List Char) :
    lineEnds isLineEnd text = lineEnds endsEditorLine text + text.countP endsDocumentLine := by
  fun_induction lineEnds isLineEnd text with
  | case1 => rfl
  | case2 rest ih =>
      have hreturn : endsDocumentLine '\r' = false := by decide
      have hnewline : endsDocumentLine '\n' = false := by decide
      rw [ih, lineEnds, List.countP_cons, List.countP_cons, hreturn, hnewline]
      simp only [Bool.false_eq_true, if_false]
      omega
  | case3 c rest hreturn ih =>
      have hapart : c = '\r' → rest.head? ≠ some '\n' := by
        rintro rfl hnewline
        obtain ⟨tail, rfl⟩ := List.head?_eq_some_iff.mp hnewline
        exact hreturn tail rfl rfl
      rw [ih, lineEnds_of_not_returned hapart, List.countP_cons, endsDocumentLine]
      have hc := @isLineEnd_of_endsEditorLine c
      cases heditor : endsEditorLine c <;> cases hdocument : isLineEnd c <;> simp_all <;> omega

theorem LineBetween.document (h : LineBetween endsEditorLine before line after) :
    LineBetween isLineEnd before (line.takeWhile fun c => !endsDocumentLine c)
      (line.dropWhile (fun c => !endsDocumentLine c) ++ after) where
  ended := fun c hc => isLineEnd_of_endsEditorLine (h.ended c hc)
  apart := by
    rw [← List.append_assoc, List.takeWhile_append_dropWhile]
    exact h.apart
  free := by
    intro c hc
    have hdocument := List.mem_takeWhile_imp hc
    have heditor := h.free c (List.takeWhile_subset _ hc)
    rw [isLineEnd_eq, heditor, Bool.false_or]
    simpa using hdocument
  stops := by
    intro c hc
    cases hrest : line.dropWhile fun c => !endsDocumentLine c with
    | nil =>
        rw [hrest] at hc
        exact isLineEnd_of_endsEditorLine (h.stops c hc)
    | cons d rest =>
        rw [hrest] at hc
        obtain rfl : d = c := Option.some.inj hc
        have hdocument := List.head?_dropWhile_not (fun c => !endsDocumentLine c) line
        rw [hrest] at hdocument
        rw [isLineEnd_eq, Bool.or_eq_true]
        exact .inr (by simpa using hdocument)

end

end Text

namespace Document

open Text Editor

section
variable {interpreter : Interpreter} {report : Report} {reports : List Report}
  {before line after : List Char}

theorem line_of_diagnostic {diagnostic : Diagnostic} (h : diagnostic? report = some diagnostic) :
    diagnostic.line = report.line := by
  unfold diagnostic? at h
  split at h
  · cases h
  · cases h
    rfl
  · cases h
    rfl

theorem found_at_lineBetween (h : LineBetween isLineEnd before line after)
    (hreports : analyze interpreter (before ++ (line ++ after)) = .ok reports) :
    reportLine interpreter (lineEnds isLineEnd before) line =
        .ok (reportAt reports (lineEnds isLineEnd before)) ∧
      ∀ column, wordAt (before ++ (line ++ after)) (lineEnds isLineEnd before) column =
        wordIn line column := by
  by_cases hne : line ++ after = []
  · obtain ⟨rfl, rfl⟩ := List.append_eq_nil_iff.mp hne
    have hlength := length_lines h.toCutBetween
    simp only [List.append_nil] at hreports ⊢
    constructor
    · have hnone : reportAt reports (lineEnds isLineEnd before : Nat) = none :=
        reportAt_of_missing hreports fun index hindex => by omega
      rw [hnone]
      exact reportLine_ok_none_iff.mpr rfl
    · intro column
      rw [wordAt, List.getElem?_eq_none (by omega)]
      simp [wordIn]
  · have hline := h.getElem?_lines hne
    refine ⟨reportAt_analyze hreports hline, fun column => ?_⟩
    rw [wordAt, hline]
    rfl

end

/-- A report, and with it its diagnostic, is as many lines ahead of the line that an editor shows as
there are ends of lines before it that the editor does not know; what is asked for at a line of the
editor is found as many lines ahead. -/
theorem reports_ahead_of_editor (interpreter : Interpreter) (text : List Char) :
    ∃ reports, analyze interpreter text = .ok reports ∧
      (∀ report ∈ reports, ∃ before line after, text = before ++ (line ++ after) ∧
        LineBetween isLineEnd before line after ∧
        reportLine interpreter report.line line = .ok (some report) ∧
        report.line = lineEnds endsEditorLine before + before.countP endsDocumentLine ∧
        (report.line = lineEnds endsEditorLine before ↔
          ∀ c ∈ before, endsDocumentLine c = false) ∧
        ∀ diagnostic, diagnostic? report = some diagnostic → diagnostic.line = report.line) ∧
      ∀ before line after, text = before ++ (line ++ after) →
        LineBetween endsEditorLine before line after →
          let number := lineEnds endsEditorLine before + before.countP endsDocumentLine
          let start := line.takeWhile fun c => !endsDocumentLine c
          reportLine interpreter number start = .ok (reportAt reports number) ∧
            ∀ column, wordAt text number column = wordIn start column := by
  obtain ⟨reports, hreports, -⟩ := exists_analyze interpreter text
  refine ⟨reports, hreports, fun report hreport => ?_, ?_⟩
  · obtain ⟨number, line, hline, hfound⟩ := mem_analyze hreports hreport
    obtain ⟨before, after, hsplit, -, hbetween, hnumber⟩ := exists_lineBetween hline
    have hreported := line_of_reportLine hfound
    have hahead :
        report.line = lineEnds endsEditorLine before + before.countP endsDocumentLine := by
      rw [hreported, ← hnumber, lineEnds_eq_add, Int.natCast_add]
    refine ⟨before, line, after, hsplit, hbetween, ?_, hahead, ?_, fun _ => line_of_diagnostic⟩
    · rwa [hreported]
    · have hnone : before.countP endsDocumentLine = 0 ↔
          ∀ c ∈ before, endsDocumentLine c = false := by
        simp [List.countP_eq_zero]
      rw [← hnone, hahead]
      omega
  · rintro before line after rfl hbetween
    have hsplit : line = (line.takeWhile fun c => !endsDocumentLine c) ++
        line.dropWhile fun c => !endsDocumentLine c := List.takeWhile_append_dropWhile.symm
    have hdocument := hbetween.document
    generalize (line.takeWhile fun c => !endsDocumentLine c) = start at hsplit hdocument ⊢
    generalize (line.dropWhile fun c => !endsDocumentLine c) = rest at hsplit hdocument
    subst hsplit
    rw [List.append_assoc] at hreports ⊢
    have hfound := found_at_lineBetween hdocument hreports
    rw [lineEnds_eq_add] at hfound
    exact_mod_cast hfound

theorem reports_ahead_of_editor_fed :
    ∃ reports, analyze { strict := false } ['\r', '\n', '1', '\x0c', '2'] = .ok reports ∧
      reports.map Report.line = [1, 2] ∧
      reportLine { strict := false } 1 ['1'] = .ok (reportAt reports 1) ∧
        wordAt ['\r', '\n', '1', '\x0c', '2'] 1 0 = some ['1'] := by
  obtain ⟨reports, hreports, -, hasked⟩ :=
    reports_ahead_of_editor { strict := false } ['\r', '\n', '1', '\x0c', '2']
  have hbetween : LineBetween endsEditorLine ['\r', '\n'] ['1', '\x0c', '2'] [] := by
    constructor
    · constructor <;> simp [endsEditorLine]
    · simp [endsEditorLine]
    · simp
  obtain ⟨hreport, hword⟩ := hasked _ _ _ rfl hbetween
  exact ⟨reports, hreports, (lines_of_reportLines hreports).trans (by decide), hreport, hword 0⟩

/-- A form feed in front of an end of a line makes a blank line that the editor does not show. -/
theorem report_ahead_after_form_feed :
    (∃ reports, analyze { strict := false } ['\x0c', '\n', '1'] = .ok reports ∧
      reports.map Report.line = [2]) ∧
    LineBetween endsEditorLine ['\x0c', '\n'] ['1'] [] ∧
      lineEnds endsEditorLine ['\x0c', '\n'] = 1 := by
  obtain ⟨reports, hreports, -⟩ := exists_analyze { strict := false } ['\x0c', '\n', '1']
  refine ⟨⟨reports, hreports, (lines_of_reportLines hreports).trans (by decide)⟩, ?_, rfl⟩
  constructor
  · constructor <;> simp [endsEditorLine]
  · simp [endsEditorLine]
  · simp

end Document

end SmallLisp
