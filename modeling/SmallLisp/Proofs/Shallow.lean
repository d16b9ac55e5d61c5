import SmallLisp.Proofs.Image
import SmallLisp.Proofs.Nesting
import SmallLisp.Proofs.Stages

namespace SmallLisp

theorem ne_tooDeep_of_mem {cs : List Char} {c : Char} (hc : c ∈ cs)
    (hline : c ∉ Failure.tooDeep.message.toList) : cs ≠ Failure.tooDeep.message.toList := by
  rintro rfl
  exact hline hc

theorem Failure.Arises.message_ne {expression : Value} {failure : Failure}
    (h : failure.Arises expression) (hdeep : failure ≠ tooDeep) :
    failure.message ≠ tooDeep.message := by
  have hmember (before after : String) {middle : String} {c : Char} (hc : c ∈ middle.toList)
      (hline : c ∉ tooDeep.message.toList) : before ++ middle ++ after ≠ tooDeep.message :=
    fun hmessage => ne_tooDeep_of_mem (by simp [hc]) hline (congrArg String.toList hmessage)
  have hcolon : ':' ∉ tooDeep.message.toList := by decide
  cases failure with
  | arity expected _ shown =>
      have hargs : ':' ∈ " args: found values ".toList := by decide
      exact hmember ("Expected " ++ expected.repr) shown hargs hcolon
  | mismatch expected _ shown =>
      have hfound : ',' ∈ ", found ".toList := by decide
      exact hmember ("Invalid type: expected " ++ expected) shown hfound (by decide)
  | badForm problem _ shown => exact hmember problem shown (by decide : ':' ∈ ": ".toList) hcolon
  | notFunction problem name =>
      have hname : ':' ∈ (": \"" ++ name).toList := by simp
      have hmessage := hmember problem "\"" hname hcolon
      rwa [← String.append_assoc] at hmessage
  | tooDeep => exact absurd rfl hdeep
  | divisionByZero => decide
  | tooLargeToRender => decide
  | tooLargeToConvert => decide
  | _ => exact h.elim

namespace Binary64

theorem exists_mem_decimalText (decimal : Decimal) :
    ∃ c ∈ decimalText layout decimal, c ∉ Failure.tooDeep.message.toList := by
  unfold decimalText
  split
  · refine ⟨'.', ?_, by decide⟩
    unfold positional
    split
    · split <;> simp
    · simp
  · unfold scientific exponentText
    split
    · exact ⟨'-', by simp, by decide⟩
    · exact ⟨'+', by simp, by decide⟩

theorem text_ne_tooDeep (number : Binary64) : number.text ≠ Failure.tooDeep.message.toList := by
  cases number with
  | finite negative units =>
      cases negative with
      | true => exact ne_tooDeep_of_mem (c := '-') (by simp [text]) (by decide)
      | false =>
          by_cases hzero : units = 0
          · exact ne_tooDeep_of_mem (c := '.') (by simp [text, hzero]) (by decide)
          · obtain ⟨c, hc, hline⟩ := exists_mem_decimalText (shortest units)
            exact ne_tooDeep_of_mem (by simpa [text, hzero] using hc) hline
  | infinite negative => cases negative <;> decide
  | nan => decide

end Binary64

theorem integerText_ne_tooDeep (number : Int) :
    number.repr.toList ≠ Failure.tooDeep.message.toList := by
  cases number with
  | ofNat n =>
      obtain ⟨hne, hdigits⟩ := Text.fits_toDigits n
      obtain ⟨c, digits, htext⟩ := List.exists_cons_of_ne_nil hne
      have hc : Text.isDigit c := hdigits c (by simp [htext])
      have hline : Failure.tooDeep.message.toList.any Text.isDigit = false := by decide
      have hmem : c ∈ (Int.ofNat n).repr.toList := by simp [Int.repr, Nat.toList_repr, htext]
      exact ne_tooDeep_of_mem hmem fun hmem => List.any_eq_false.mp hline c hmem hc
  | negSucc n => exact ne_tooDeep_of_mem (c := '-') (by simp [Int.repr]) (by decide)

theorem Value.chars_ne_tooDeep {levels : Nat} {value : Value} {cs : List Char}
    (hvalue : value ≠ symbol Failure.tooDeep.message) (h : value.chars levels = .ok cs) :
    cs ≠ Failure.tooDeep.message.toList := by
  cases value with
  | boolean truth =>
      rw [chars_boolean] at h
      obtain rfl := Except.ok.inj h
      exact ne_tooDeep_of_mem (c := '#') (by simp) (by decide)
  | integer number =>
      rw [chars_integer, integerText] at h
      split at h
      · obtain rfl := Except.ok.inj h
        exact integerText_ne_tooDeep number
      · cases h
  | decimal number =>
      rw [chars_decimal] at h
      obtain rfl := Except.ok.inj h
      exact number.text_ne_tooDeep
  | text content =>
      rw [chars_text] at h
      obtain rfl := Except.ok.inj h
      exact ne_tooDeep_of_mem (c := '"') (by simp) (by decide)
  | symbol name =>
      rw [chars_symbol] at h
      obtain rfl := Except.ok.inj h
      exact fun hname => hvalue (congrArg symbol (String.toList_inj.mp hname))
  | character char =>
      rw [chars_character] at h
      obtain rfl := Except.ok.inj h
      exact ne_tooDeep_of_mem (c := '#') (by simp) (by decide)
  | list items =>
      obtain ⟨below, parts, -, -, rfl⟩ := chars_list_ok_iff.mp h
      exact ne_tooDeep_of_mem (c := '(') (by simp) (by decide)
  | absent =>
      rw [chars_absent] at h
      cases h

/-- A leaf of a source, or one that evaluation makes: no hole, and not the symbol that has the text
of the line about depth. -/
def Value.Ordinary (leaf : Value) : Prop :=
  leaf ≠ absent ∧ leaf ≠ symbol Failure.tooDeep.message

theorem Value.lasting_ordinary : Value.Lasting Ordinary where
  boolean _ := by simp [Ordinary]
  integer _ := by simp [Ordinary]
  ne_absent h := h.1

theorem Value.FromSource.ordinary {leaf : Value} (h : leaf.FromSource) : leaf.Ordinary := by
  refine ⟨h.ne_absent, ?_⟩
  rintro rfl
  obtain ⟨⟨c, tail, htext, -, hfurther⟩, -, -⟩ := h
  obtain ⟨rfl, rfl⟩ : 'E' = c ∧ "xpression nested too deeply".toList = tail :=
    List.cons.inj htext
  have hblank : Token.continuesAtom ' ' := hfurther ' ' (by decide)
  revert hblank
  decide

namespace Interpreter

open Outcome (Approximates)
open Reader (nesting)

section
variable {strict : Bool} {levels more : Nat} (h : levels ≤ more) (source : String)

include h

theorem read_approximates :
    Approximates (read { strict, levels } source) (read { strict, levels := more } source) := by
  simp only [read, options, Reader.read_eq]
  rcases Reader.resume_levels strict h source.toList.length (.expression [])
    (Token.lex source.toList) with hdeep | hsame
  · have hreading : (Reader.reading { strict, levels } source.toList).outcome = .error .tooDeep :=
      hdeep
    rw [hreading]
    exact .tooDeep _
  · have hreading : Reader.reading { strict, levels := more } source.toList =
        Reader.reading { strict, levels } source.toList := hsame
    rw [hreading]
    exact .refl _

theorem answer_approximates :
    Approximates (answer { strict, levels } source) (answer { strict, levels := more } source) :=
  ((read_approximates h source).bind fun expression =>
    evaluate_approximates h expression).bind fun value => value.render_approximates h

end

section
variable {interpreter : Interpreter} {source : String}

theorem read_of_nesting (h : nesting source.toList ≤ interpreter.levels) :
    (interpreter.read source).Within
      (fun expression => expression.Bounded Value.Ordinary (nesting source.toList))
      fun failure => failure.message ≠ Failure.tooDeep.message := by
  cases hread : interpreter.read source with
  | ok expression =>
      have hleaves := Reader.everyLeaf_fromSource_of_read hread
      exact .ok ⟨hleaves.imp fun _ => Value.FromSource.ordinary, Reader.depth_le_nesting hread⟩
  | error fault =>
      rcases Reader.read_error hread with rfl | ⟨cause, index, rfl, -⟩
      · exact absurd hread (Reader.read_ne_tooDeep h)
      · refine .failure fun hmessage => ?_
        have hletter : 'P' ∈ "Parse error at ".toList := by decide
        exact ne_tooDeep_of_mem (String.toList_append ▸ List.mem_append_left _ hletter) (by decide)
          (congrArg String.toList hmessage)

theorem evaluate_of_bounded {levels bound : Nat} {expression : Value}
    (h : expression.Bounded Value.Ordinary bound) (hlevels : bound ≤ levels) :
    (SmallLisp.evaluate levels expression).Within (Value.Bounded Value.Ordinary bound)
      fun failure => failure.message ≠ Failure.tooDeep.message := by
  have hbounded := evaluate_bounded Value.lasting_ordinary levels h
  have hwithin := evaluate_within levels (h.wellFormed Value.lasting_ordinary) (.whole expression)
  refine (hbounded.and hwithin).imp (fun _ _ hvalue => hvalue.1) fun failure hfailure => ?_
  exact hfailure.2.message_ne fun hdeep => Nat.not_lt.mpr hlevels (hfailure.1 hdeep)

theorem render_of_bounded {levels bound : Nat} {value : Value}
    (h : value.Bounded Value.Ordinary bound) (hlevels : bound ≤ levels) :
    (value.render levels).Within (· ≠ Failure.tooDeep.message)
      fun failure => failure.message ≠ Failure.tooDeep.message := by
  have hwhole := h.wellFormed Value.lasting_ordinary
  have hsymbol : value ≠ .symbol Failure.tooDeep.message := by
    rintro rfl
    have hleaf := h.leaves
    simp only [Value.EveryLeaf] at hleaf
    exact hleaf.2 rfl
  have hwithin := (Value.chars_exceeds levels hwhole).and (Value.chars_within hwhole levels)
  have hchars : (value.chars levels).Within (· ≠ Failure.tooDeep.message.toList)
      fun failure => failure.message ≠ Failure.tooDeep.message :=
    hwithin.imp (fun cs hcs _ => Value.chars_ne_tooDeep hsymbol hcs) fun failure hfailure =>
      (hfailure.2.arises value).message_ne fun hdeep =>
        Nat.not_lt.mpr (Nat.le_trans h.depth_le hlevels) (hfailure.1 hdeep)
  exact hchars.map fun cs hcs htext => hcs (by rw [← htext, String.toList_ofList])

/-- With as many levels as a source has of brackets and quotation marks inside one another, neither
its value nor its failure reads like the failure of depth. -/
theorem answer_of_nesting (h : nesting source.toList ≤ interpreter.levels) :
    (interpreter.answer source).Within (· ≠ Failure.tooDeep.message)
      fun failure => failure.message ≠ Failure.tooDeep.message :=
  ((read_of_nesting h).bind fun _ hexpression => evaluate_of_bounded hexpression h).bind
    fun _ hvalue => render_of_bounded hvalue h

theorem exists_line (strict : Bool) (source : String) :
    ∃ line, line ≠ Failure.tooDeep.message ∧ ∀ levels, nesting source.toList ≤ levels →
      respond { strict, levels } source = .ok line := by
  have hanswer : (answer { strict, levels := nesting source.toList } source).Within _ _ :=
    answer_of_nesting (Nat.le_refl _)
  have hsame (levels : Nat) (hlevels : nesting source.toList ≤ levels) :
      answer { strict, levels } source =
        answer { strict, levels := nesting source.toList } source := by
    refine (answer_approximates hlevels source).eq fun hdeep => ?_
    rw [hdeep] at hanswer
    cases hanswer with
    | failure hmessage => exact hmessage rfl
  generalize answer { strict, levels := nesting source.toList } source = outcome at hanswer hsame
  cases hanswer with
  | @ok text htext =>
      refine ⟨text, htext, fun levels hlevels => ?_⟩
      rw [respond, hsame levels hlevels]
  | @failure failure hmessage =>
      refine ⟨failure.message, hmessage, fun levels hlevels => ?_⟩
      rw [respond, hsame levels hlevels]
      rfl

end

/-- The line that a source has when nothing limits how far reading, evaluation and rendering go
down: the one that it has with all levels from some number on. -/
def RespondsUnlimited (strict : Bool) (source line : String) : Prop :=
  ∃ enough, ∀ levels, enough ≤ levels → respond { strict, levels } source = .ok line

theorem respondsUnlimited_iff {strict : Bool} {source line other : String} {needed : Nat}
    (h : ∀ levels, needed ≤ levels → respond { strict, levels } source = .ok line) :
    RespondsUnlimited strict source other ↔ other = line := by
  constructor
  · rintro ⟨enough, hother⟩
    have hmost := hother (max enough needed) (Nat.le_max_left _ _)
    exact Except.ok.inj (hmost.symm.trans (h _ (Nat.le_max_right _ _)))
  · rintro rfl
    exact ⟨needed, h⟩

/-- No value is deeper than its expression; what is looked into while a part of an expression is
evaluated is no deeper than the expression around it leaves room for; and evaluation is too deep
only for an expression that is, by way of a stage with no level left. So a source that has no more
brackets and quotation marks inside one another than there are levels is never answered with the
failure of depth, and always as without a limit. -/
theorem evaluation_shallow :
    (∀ (levels : Nat) (expression value : Value), expression.WellFormed →
      SmallLisp.evaluate levels expression = .ok value → value.depth ≤ expression.depth) ∧
    (∀ (level levels below : Nat) (whole part value : Value), whole.WellFormed →
      Value.PartAt level part whole →
        (Stage.evaluating levels part).ComesTo (.examining below value) →
          value.depth + level ≤ whole.depth) ∧
    (∀ (levels : Nat) (expression : Value), expression.WellFormed →
      SmallLisp.evaluate levels expression = .fail .tooDeep → levels < expression.depth ∧
        ∃ stage, (Stage.evaluating levels expression).ComesTo stage ∧ stage.Exhausted) ∧
    ∀ (strict : Bool) (source : String), ∃ line, line ≠ Failure.tooDeep.message ∧
      (∀ other, RespondsUnlimited strict source other ↔ other = line) ∧
        ∀ levels, nesting source.toList ≤ levels →
          respond { strict, levels } source = .ok line := by
  refine ⟨fun _ _ _ hwhole hvalue => (bounded_of_evaluate hwhole hvalue).depth_le, ?_, ?_, ?_⟩
  · intro level levels below whole part value hwhole hpart hcomes
    obtain ⟨-, hlevels, hdepth⟩ := hcomes.depth_le (hpart.wellFormed hwhole)
    have hleft : below ≤ levels := hlevels
    have hvalue : value.depth + levels ≤ part.depth + below := hdepth
    have hroom := hpart.depth_le
    omega
  · intro levels expression hwhole hdeep
    obtain ⟨stage, hcomes, hexhausted⟩ := Stage.runsOut_of_evaluate hwhole hdeep
    have hdepth : stage.subject.depth + levels ≤ expression.depth + stage.levels :=
      (hcomes.depth_le hwhole).2.2
    have hstage := hexhausted.depth_lt
    exact ⟨by omega, stage, hcomes, hexhausted⟩
  · intro strict source
    obtain ⟨line, hline, hlevels⟩ := exists_line strict source
    exact ⟨line, hline, fun _ => respondsUnlimited_iff hlevels, hlevels⟩

theorem evaluation_shallow_quotation :
    (Value.list [.integer 1, .integer 2]).depth ≤
      (Value.list [.symbol "cons", .integer 1, (Value.list [.integer 2]).quotation]).depth ∧
    (Value.list [.integer 2]).depth + 0 ≤
      (Value.list [.symbol "+", .integer 1, (Value.list [.integer 2]).quotation]).depth ∧
    ∃ line, line ≠ Failure.tooDeep.message ∧
      respond { strict := true, levels := 120 } "(+ 1 '((2) 3))" = .ok line := by
  obtain ⟨hvalue, hexamined, -, hline⟩ := evaluation_shallow
  refine ⟨hvalue 3 _ _ (by simp [Value.WellFormed, Value.quotation]) rfl, ?_, ?_⟩
  · have hleads : Stage.Leads
        (.evaluating 3 (.list [.symbol "+", .integer 1, (Value.list [.integer 2]).quotation]))
        (.examining 2 (.list [.integer 2])) :=
      .argument rfl (.tail _ (.head _)) (evaluate_quotation 1 _)
    exact hexamined 0 3 2 _ _ _ (by simp [Value.WellFormed, Value.quotation]) (.whole _)
      (.single hleads)
  · obtain ⟨line, hdeep, -, hlevels⟩ := hline true "(+ 1 '((2) 3))"
    have hnesting : nesting "(+ 1 '((2) 3))".toList = 4 := by decide +kernel
    exact ⟨line, hdeep, hlevels 120 (by rw [hnesting]; decide)⟩

end Interpreter

end SmallLisp
