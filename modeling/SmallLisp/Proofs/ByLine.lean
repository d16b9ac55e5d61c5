import Mathlib.Data.List.Basic
import SmallLisp.Proofs.Analysis
import SmallLisp.Proofs.Lines

namespace SmallLisp.Document

open Text

/-- A report on a line that has further lines before it. -/
def Report.shift (distance : Nat) (report : Report) : Report :=
  { report with line := report.line + distance }

/-- The numbers of the lines that are not blank, where the first has the given number. -/
def filledNumbers (number : Nat) (lines : List (List Char)) : List Int :=
  ((lines.zipIdx number).filter fun entry => trim entry.1 ≠ []).map fun entry => (entry.2 : Int)

/-- The reports on the lines but one. -/
def reportsBut (number : Int) (reports : List Report) : List Report :=
  reports.filter fun report => report.line ≠ number

section
variable {interpreter : Interpreter} {number index : Nat} {line : List Char}
  {lines first second : List (List Char)} {report : Report} {reports own others : List Report}

theorem reportLines_cons_ok_iff :
    reportLines interpreter number (line :: lines) = .ok reports ↔
      ∃ report others, reportLine interpreter number line = .ok report ∧
        reportLines interpreter (number + 1) lines = .ok others ∧
          reports = report.toList ++ others := by
  obtain ⟨report, hreport, -⟩ := exists_reportLine interpreter number line
  obtain ⟨others, hothers, -⟩ := exists_reportLines interpreter (number + 1) lines
  simp only [reportLines, hreport, hothers, bind, Except.bind, pure, Except.pure, Except.ok.injEq]
  constructor
  · rintro rfl
    exact ⟨report, others, rfl, rfl, rfl⟩
  · rintro ⟨_, _, rfl, rfl, rfl⟩
    rfl

theorem line_of_reportLine (h : reportLine interpreter number line = .ok (some report)) :
    report.line = number := by
  obtain ⟨found, hfound, hline⟩ := exists_reportLine interpreter number line
  cases h.symm.trans hfound
  exact hline report rfl

theorem reportLine_blank (interpreter : Interpreter) (number : Int) (hline : trim line = []) :
    reportLine interpreter number line = .ok none :=
  if_pos hline

/-- A line that is not blank has a report, which is the same but for its number wherever the line
stands. -/
theorem exists_reportLine_filled (interpreter : Interpreter) (hline : trim line ≠ []) :
    ∃ finding, find interpreter (line.length - (trimLeft line).length) (trim line) = .ok finding ∧
      ∀ number, reportLine interpreter number line = .ok (some
        { line := number, start := line.length - (trimLeft line).length
          stop := line.length - (trimLeft line).length + (trim line).length, finding }) := by
  obtain ⟨finding, hfinding⟩ := exists_find interpreter (line.length - (trimLeft line).length)
    (trim line)
  refine ⟨finding, hfinding, fun number => (if_neg hline).trans ?_⟩
  rw [hfinding]
  rfl

theorem reportLine_ok_none_iff :
    reportLine interpreter number line = .ok none ↔ trim line = [] := by
  refine ⟨fun h => ?_, reportLine_blank interpreter number⟩
  by_contra hline
  obtain ⟨finding, -, hreport⟩ := exists_reportLine_filled interpreter hline
  cases h.symm.trans (hreport number)

theorem reportLines_append (hown : reportLines interpreter number first = .ok own)
    (hothers : reportLines interpreter (number + first.length) second = .ok others) :
    reportLines interpreter number (first ++ second) = .ok (own ++ others) := by
  induction first generalizing number own with
  | nil =>
      cases hown
      exact hothers
  | cons line first ih =>
      obtain ⟨report, more, hreport, hmore, rfl⟩ := reportLines_cons_ok_iff.mp hown
      rw [List.length_cons, Nat.add_comm first.length, ← Nat.add_assoc] at hothers
      refine reportLines_cons_ok_iff.mpr ⟨report, _, hreport, ih hmore hothers, ?_⟩
      rw [List.append_assoc]

theorem reportLine_shift (distance : Nat) :
    reportLine interpreter (number + distance : Nat) line =
      (reportLine interpreter number line).map (Option.map (Report.shift distance)) := by
  by_cases hline : trim line = []
  · rw [reportLine_blank _ _ hline, reportLine_blank _ _ hline]
    rfl
  · obtain ⟨finding, -, hreport⟩ := exists_reportLine_filled interpreter hline
    rw [hreport, hreport, Int.natCast_add]
    rfl

theorem reportLines_shift (distance : Nat)
    (h : reportLines interpreter number lines = .ok reports) :
    reportLines interpreter (number + distance) lines =
      .ok (reports.map (Report.shift distance)) := by
  induction lines generalizing number reports with
  | nil =>
      cases h
      rfl
  | cons line lines ih =>
      obtain ⟨report, others, hreport, hothers, rfl⟩ := reportLines_cons_ok_iff.mp h
      refine reportLines_cons_ok_iff.mpr ⟨report.map (Report.shift distance),
        others.map (Report.shift distance), ?_, ?_, ?_⟩
      · rw [reportLine_shift, hreport]
        rfl
      · rw [Nat.add_right_comm]
        exact ih hothers
      · cases report <;> rfl

theorem lines_of_reportLines (h : reportLines interpreter number lines = .ok reports) :
    reports.map Report.line = filledNumbers number lines := by
  induction lines generalizing number reports with
  | nil =>
      cases h
      rfl
  | cons line lines ih =>
      obtain ⟨report, others, hreport, hothers, rfl⟩ := reportLines_cons_ok_iff.mp h
      have hnumbers := ih hothers
      rw [filledNumbers] at hnumbers ⊢
      cases report with
      | none =>
          have hblank := reportLine_ok_none_iff.mp hreport
          simp [hnumbers, hblank]
      | some report =>
          have hfilled : trim line ≠ [] := by
            intro hblank
            cases hreport.symm.trans (reportLine_ok_none_iff.mpr hblank)
          simp [hnumbers, hfilled, line_of_reportLine hreport]

theorem mem_reportLines (h : reportLines interpreter number lines = .ok reports)
    (hreport : report ∈ reports) :
    ∃ index line, lines[index]? = some line ∧
      reportLine interpreter (number + index : Nat) line = .ok (some report) := by
  induction lines generalizing number reports with
  | nil =>
      cases h
      cases hreport
  | cons line lines ih =>
      obtain ⟨found, others, hfound, hothers, rfl⟩ := reportLines_cons_ok_iff.mp h
      rcases List.mem_append.mp hreport with hreport | hreport
      · rw [Option.mem_toList] at hreport
        exact ⟨0, line, rfl, hfound.trans (congrArg _ hreport)⟩
      · obtain ⟨index, other, hother, hfound⟩ := ih hothers hreport
        refine ⟨index + 1, other, hother, ?_⟩
        rwa [Nat.add_right_comm] at hfound

theorem reportAt_of_missing (h : reportLines interpreter number lines = .ok reports) {place : Int}
    (hplace : ∀ index < lines.length, place ≠ (number + index : Nat)) :
    reportAt reports place = none := by
  rw [reportAt, List.find?_eq_none]
  intro report hreport
  obtain ⟨index, line, hline, hfound⟩ := mem_reportLines h hreport
  have hindex := (List.getElem?_eq_some_iff.mp hline).1
  simpa [line_of_reportLine hfound, eq_comm] using hplace index hindex

theorem reportAt_of_getElem? (h : reportLines interpreter number lines = .ok reports)
    (hline : lines[index]? = some line) :
    reportLine interpreter (number + index : Nat) line =
      .ok (reportAt reports (number + index : Nat)) := by
  induction lines generalizing number index reports with
  | nil => simp at hline
  | cons first lines ih =>
      obtain ⟨report, others, hreport, hothers, rfl⟩ := reportLines_cons_ok_iff.mp h
      cases index with
      | zero =>
          obtain rfl := Option.some.inj hline
          cases report with
          | none =>
              have hlater : reportAt others number = none :=
                reportAt_of_missing hothers fun index _ => by omega
              exact hreport.trans (congrArg _ hlater.symm)
          | some report => simpa [reportAt, line_of_reportLine hreport] using hreport
      | succ index =>
          have hfound := ih hothers hline
          rw [Nat.add_right_comm, Nat.add_assoc] at hfound
          rw [hfound]
          cases report with
          | none => rfl
          | some report =>
              have hne : report.line ≠ (number + (index + 1) : Nat) := by
                rw [line_of_reportLine hreport]
                omega
              rw [reportAt, reportAt, Option.toList_some, List.singleton_append,
                List.find?_cons_of_neg (by simpa using hne)]

theorem reportsBut_append (place : Int) :
    reportsBut place (own ++ others) = reportsBut place own ++ reportsBut place others :=
  List.filter_append ..

theorem exists_reportLines_set (h : reportLines interpreter number lines = .ok reports)
    (index : Nat) (edited : List Char) :
    ∃ changed, reportLines interpreter number (lines.set index edited) = .ok changed ∧
      reportsBut (number + index : Nat) changed = reportsBut (number + index : Nat) reports := by
  induction lines generalizing number index reports with
  | nil => exact ⟨reports, h, rfl⟩
  | cons line lines ih =>
      obtain ⟨report, others, hreport, hothers, rfl⟩ := reportLines_cons_ok_iff.mp h
      cases index with
      | zero =>
          obtain ⟨new, hnew, -⟩ := exists_reportLine interpreter number edited
          refine ⟨_, reportLines_cons_ok_iff.mpr ⟨new, others, hnew, hothers, rfl⟩, ?_⟩
          have hgone {found : Option Report} {line : List Char}
              (hfound : reportLine interpreter number line = .ok found) :
              reportsBut (number + 0 : Nat) found.toList = [] := by
            cases found with
            | none => rfl
            | some report => simp [reportsBut, line_of_reportLine hfound]
          rw [reportsBut_append, reportsBut_append, hgone hreport, hgone hnew]
      | succ index =>
          obtain ⟨changed, hchanged, hsame⟩ := ih hothers index
          refine ⟨_, reportLines_cons_ok_iff.mpr ⟨report, changed, hreport, hchanged, rfl⟩, ?_⟩
          rw [Nat.add_right_comm, Nat.add_assoc] at hsame
          rw [reportsBut_append, reportsBut_append, hsame]

end

section
variable {interpreter : Interpreter} {text line : List Char} {number : Nat} {report : Report}
  {reports : List Report}

theorem mem_analyze (h : analyze interpreter text = .ok reports) (hreport : report ∈ reports) :
    ∃ (number : Nat) (line : List Char), (lines text)[number]? = some line ∧
      reportLine interpreter number line = .ok (some report) := by
  obtain ⟨number, line, hline, hfound⟩ := mem_reportLines h hreport
  rw [Nat.zero_add] at hfound
  exact ⟨number, line, hline, hfound⟩

theorem reportAt_analyze (h : analyze interpreter text = .ok reports)
    (hline : (lines text)[number]? = some line) :
    reportLine interpreter number line = .ok (reportAt reports number) := by
  have hreport := reportAt_of_getElem? h hline
  rwa [Nat.zero_add] at hreport

end

/-- Reports are made line by line. A text with more text after its last line has its own reports and
those of the further text, with their lines counted on. The lines reported on are those that are not
blank, in order, and each report is what its line alone comes to, so that to change one line changes
no report on another. -/
theorem analyze_by_line (interpreter : Interpreter) :
    (∀ first second, ∃ own others, analyze interpreter (first ++ ['\n']) = .ok own ∧
      analyze interpreter second = .ok others ∧
        analyze interpreter (first ++ '\n' :: second) =
          .ok (own ++ others.map (Report.shift (lines (first ++ ['\n'])).length))) ∧
    ∀ text, ∃ reports, analyze interpreter text = .ok reports ∧
      (reports.map Report.line).Pairwise (· < ·) ∧
      reports.map Report.line = filledNumbers 0 (lines text) ∧
      (∀ (number : Nat) line, (lines text)[number]? = some line →
        reportLine interpreter number line = .ok (reportAt reports number) ∧
          (reportAt reports number = none ↔ trim line = [])) ∧
      (∀ place : Int, (∀ number < (lines text).length, place ≠ number) →
        reportAt reports place = none) ∧
      ∀ other (number : Nat) edited, lines other = (lines text).set number edited →
        ∃ changed, analyze interpreter other = .ok changed ∧
          reportsBut number changed = reportsBut number reports := by
  refine ⟨fun first second => ?_, fun text => ?_⟩
  · obtain ⟨own, hown, -⟩ := exists_analyze interpreter (first ++ ['\n'])
    obtain ⟨others, hothers, -⟩ := exists_analyze interpreter second
    refine ⟨own, others, hown, hothers, ?_⟩
    have hcut : CutBetween isLineEnd (first ++ ['\n']) second := by
      constructor <;> simp [isLineEnd]
    have hsplit : first ++ '\n' :: second = (first ++ ['\n']) ++ second := by simp
    rw [analyze, hsplit, lines_append hcut]
    exact reportLines_append hown (reportLines_shift _ hothers)
  · obtain ⟨reports, hreports, hsorted⟩ := exists_analyze interpreter text
    refine ⟨reports, hreports, hsorted, lines_of_reportLines hreports, ?_, ?_, ?_⟩
    · intro number line hline
      have hreport := reportAt_analyze hreports hline
      have hnone : reportLine interpreter number line = .ok none ↔ trim line = [] :=
        reportLine_ok_none_iff
      rw [hreport, Except.ok.injEq] at hnone
      exact ⟨hreport, hnone⟩
    · intro place hplace
      exact reportAt_of_missing hreports (by simpa using hplace)
    · intro other number edited hother
      obtain ⟨changed, hchanged, hsame⟩ := exists_reportLines_set hreports number edited
      rw [Nat.zero_add] at hsame
      exact ⟨changed, by rwa [analyze, hother], hsame⟩

theorem analyze_by_line_joined :
    (∃ own others, analyze { strict := false } ['1', '\r', '\n'] = .ok own ∧
      analyze { strict := false } ['2'] = .ok others ∧
        analyze { strict := false } ['1', '\r', '\n', '2'] =
          .ok (own ++ others.map (Report.shift 1))) ∧
    ∃ reports changed, analyze { strict := false } ['1', '\r', '\n', '2'] = .ok reports ∧
      analyze { strict := false } ['(', '\n', '2'] = .ok changed ∧
        reportsBut 0 changed = reportsBut 0 reports := by
  obtain ⟨hjoined, hlines⟩ := analyze_by_line { strict := false }
  refine ⟨hjoined ['1', '\r'] ['2'], ?_⟩
  obtain ⟨reports, hreports, -, -, -, -, hedited⟩ := hlines ['1', '\r', '\n', '2']
  obtain ⟨changed, hchanged, hsame⟩ := hedited ['(', '\n', '2'] 0 ['('] (by decide)
  exact ⟨reports, changed, hreports, hchanged, hsame⟩

end SmallLisp.Document
