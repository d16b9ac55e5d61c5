import SmallLisp.Document.Report
import SmallLisp.Proofs.DefectFreedom

namespace SmallLisp.Document

variable (interpreter : Interpreter)

theorem exists_find (start : Nat) (code : List Char) :
    ∃ finding, find interpreter start code = .ok finding := by
  have hanswer := interpreter.answer_within (String.ofList code)
  unfold find
  generalize interpreter.answer (String.ofList code) = outcome at hanswer
  cases hanswer with
  | ok _ => exact ⟨_, rfl⟩
  | @failure reason _ => cases reason <;> exact ⟨_, rfl⟩

theorem exists_reportLine (number : Int) (line : List Char) :
    ∃ report, reportLine interpreter number line = .ok report ∧
      ∀ found, report = some found → found.line = number := by
  unfold reportLine
  dsimp only
  split
  · exact ⟨none, rfl, by simp⟩
  · obtain ⟨finding, hfinding⟩ := exists_find interpreter
      (line.length - (Text.trimLeft line).length) (Text.trim line)
    rw [hfinding]
    refine ⟨_, rfl, ?_⟩
    rintro found ⟨⟩
    rfl

theorem exists_reportLines (number : Nat) (lines : List (List Char)) :
    ∃ reports, reportLines interpreter number lines = .ok reports ∧
      (∀ report ∈ reports, (number : Int) ≤ report.line) ∧
        (reports.map Report.line).Pairwise (· < ·) := by
  induction lines generalizing number with
  | nil => exact ⟨[], rfl, by simp, .nil⟩
  | cons line lines ih =>
      obtain ⟨report, hreport, hline⟩ := exists_reportLine interpreter number line
      obtain ⟨others, hothers, hbound, hsorted⟩ := ih (number + 1)
      refine ⟨report.toList ++ others, ?_, ?_, ?_⟩
      · simp only [reportLines, hreport, hothers]
        rfl
      · intro found hfound
        rcases List.mem_append.mp hfound with hfound | hfound
        · exact Int.le_of_eq (hline found (Option.mem_toList.mp hfound)).symm
        · have hlater := hbound found hfound
          omega
      · cases report with
        | none => exact hsorted
        | some found =>
            refine List.pairwise_cons.mpr ⟨?_, hsorted⟩
            intro later hlater
            obtain ⟨other, hother, rfl⟩ := List.mem_map.mp hlater
            have hfirst := hline found rfl
            have hnext := hbound other hother
            omega

theorem exists_analyze (text : List Char) :
    ∃ reports, analyze interpreter text = .ok reports ∧
      (reports.map Report.line).Pairwise (· < ·) := by
  obtain ⟨reports, hreports, -, hsorted⟩ := exists_reportLines interpreter 0 (Text.lines text)
  exact ⟨reports, hreports, hsorted⟩

end SmallLisp.Document
