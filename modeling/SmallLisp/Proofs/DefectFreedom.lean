import SmallLisp.Interpreter
import SmallLisp.Proofs.Acceptance
import SmallLisp.Proofs.Rendering

namespace SmallLisp

namespace Failure

variable (levels : Nat)

theorem wrongArity_within (expected : Int) {found : List Value}
    (hfound : ∀ value ∈ found, value.WellFormed) :
    (wrongArity levels expected found).Within OfValues OfValues := by
  have hparts := Outcome.within_mapM fun value hvalue =>
    Value.chars_within (hfound value hvalue) levels
  have hshown : (Value.renderAll levels found).Within (fun _ => True) OfValues :=
    hparts.bind fun _ _ => .ok trivial
  exact hshown.map fun _ _ => trivial

theorem wrongKind_within (expected : String) {found : Value} (hfound : found.WellFormed) :
    (wrongKind levels expected found).Within OfValues OfValues :=
  (Value.render_within hfound levels).map fun _ _ => trivial

theorem unrecognizedForm_within (problem : String) {form : Value} (hform : form.WellFormed) :
    (unrecognizedForm levels problem form).Within
      (fun failure => ∃ shown, failure = badForm problem form shown ∧
        form.render levels = .ok shown) OfValues := by
  refine Outcome.Within.map ((Value.render_within hform levels).imp ?_ fun _ hfailure => hfailure)
    fun shown hshown => ⟨shown, rfl, hshown⟩
  exact fun _ hrender _ => hrender

end Failure

namespace Coercion

theorem refuse_within {α : Type} {p : α → Prop} (levels : Nat) (wanted : String) {value : Value}
    (hvalue : value.WellFormed) :
    (refuse levels wanted value : Outcome α).Within p Failure.OfValues :=
  Outcome.within_raise (Failure.wrongKind_within levels wanted hvalue)

theorem number_within (levels : Nat) {value : Value} (hvalue : value.WellFormed) :
    (number levels value).Within (fun _ => True) Failure.OfValues := by
  fun_induction number levels value with
  | case1 => exact .ok trivial
  | case2 => exact .ok trivial
  | case3 => exact .failure trivial
  | case4 => exact refuse_within _ _ hvalue
  | case5 => exact .failure trivial
  | case6 levels item ih => exact ih (by simpa using hvalue)
  | case7 => exact refuse_within _ _ hvalue

theorem text_within (levels : Nat) {value : Value} (hvalue : value.WellFormed) :
    (text levels value).Within (fun _ => True) Failure.OfValues := by
  cases value with
  | integer n => exact integerText_within n
  | text _ => exact .ok trivial
  | boolean _ => exact .ok trivial
  | _ => exact refuse_within levels "string" hvalue

theorem boolean_within (levels : Nat) {value : Value} (hvalue : value.WellFormed) :
    (boolean levels value).Within (fun _ => True) Failure.OfValues := by
  cases value with
  | boolean _ => exact .ok trivial
  | _ => exact refuse_within levels "boolean" hvalue

end Coercion

namespace Comparison

variable (levels : Nat) {left right : Value}

theorem everywhere_within {compare : Value → Value → Outcome Bool} {lefts rights : List Value}
    (hlefts : ∀ left ∈ lefts, left.WellFormed) (hrights : ∀ right ∈ rights, right.WellFormed)
    (hcompare : ∀ left right : Value, left.WellFormed → right.WellFormed →
      (compare left right).Within (fun _ => True) Failure.OfValues) :
    (everywhere compare lefts rights).Within (fun _ => True) Failure.OfValues := by
  induction lefts generalizing rights with
  | nil => exact .ok trivial
  | cons left lefts ih =>
      cases rights with
      | nil => exact .ok trivial
      | cons right rights =>
          rw [List.forall_mem_cons] at hlefts hrights
          refine (hcompare left right hlefts.1 hrights.1).bind fun same _ => ?_
          cases same with
          | false => exact .ok trivial
          | true => exact ih hlefts.2 hrights.2

theorem strict_within (hleft : left.WellFormed) (hright : right.WellFormed) :
    (strict levels left right).Within (fun _ => True) Failure.OfValues := by
  induction levels using Nat.strongRecOn generalizing left right with
  | ind levels ih =>
      unfold strict
      split
      · exact .failure trivial
      · rename_i below lefts rights
        rw [Value.wellFormed_list] at hleft hright
        split
        · exact everywhere_within hleft hright fun _ _ => ih below (Nat.lt_succ_self below)
        · exact .ok trivial
      all_goals exact .ok trivial

theorem agree_within {α : Type} [DecidableEq α] {take : Value → Outcome α}
    (hleft : (take left).Within (fun _ => True) Failure.OfValues)
    (hright : (take right).Within (fun _ => True) Failure.OfValues) :
    (agree take left right).Within (fun _ => True) Failure.OfValues := by
  have hsame : Outcome.Within (fun _ => True) Failure.OfValues
      (do return decide ((← take left) = (← take right))) :=
    hleft.bind fun _ _ => hright.bind fun _ _ => .ok trivial
  unfold agree
  generalize (do return decide ((← take left) = (← take right)) : Outcome Bool) = outcome at hsame ⊢
  cases hsame with
  | ok _ => exact .ok trivial
  | @failure reason hreason => cases reason <;> first | exact .ok trivial | exact .failure hreason

theorem loosely_within (hleft : left.WellFormed) (hright : right.WellFormed) :
    (loosely levels left right).Within (fun _ => True) Failure.OfValues := by
  have hnumber := agree_within (Coercion.number_within levels hleft)
    (Coercion.number_within levels hright)
  have htext := agree_within (Coercion.text_within levels hleft)
    (Coercion.text_within levels hright)
  have hboolean := agree_within (Coercion.boolean_within levels hleft)
    (Coercion.boolean_within levels hright)
  refine hnumber.bind fun same _ => ?_
  cases same with
  | true => exact .ok trivial
  | false =>
      refine htext.bind fun same _ => ?_
      cases same with
      | true => exact .ok trivial
      | false =>
          refine hboolean.bind fun same _ => ?_
          cases same with
          | true => exact .ok trivial
          | false => exact strict_within levels hleft hright

theorem loose_within (hleft : left.WellFormed) (hright : right.WellFormed) :
    (loose levels left right).Within (fun _ => True) Failure.OfValues := by
  induction levels using Nat.strongRecOn generalizing left right with
  | ind levels ih =>
      unfold loose
      split
      · exact .failure trivial
      · rename_i below lefts rights
        rw [Value.wellFormed_list] at hleft hright
        split
        · exact everywhere_within hleft hright fun _ _ => ih below (Nat.lt_succ_self below)
        · exact .ok trivial
      · exact loosely_within _ hleft hright

end Comparison

namespace Primitive

variable (levels : Nat) {args : List Value}

theorem refuseCount_within {α : Type} {p : α → Prop} (expected : Int)
    (hargs : ∀ arg ∈ args, arg.WellFormed) :
    (refuseCount levels expected args : Outcome α).Within p Failure.OfValues :=
  Outcome.within_raise (Failure.wrongArity_within levels expected hargs)

theorem foldNumbers_within (operation : Arithmetic) (first : Int) (others : List Int) :
    (foldNumbers operation first others).Within Value.WellFormed Failure.OfValues := by
  unfold foldNumbers
  split
  · exact .ok (by simp [Value.WellFormed])
  · exact .failure trivial

theorem applyFold_within (operation : Arithmetic) (hargs : ∀ arg ∈ args, arg.WellFormed) :
    (applyFold operation levels args).Within Value.WellFormed Failure.OfValues := by
  unfold applyFold
  split
  · rename_i left right others
    rw [List.forall_mem_cons] at hargs
    refine (Coercion.number_within levels hargs.1).bind fun first _ => ?_
    have hothers := Outcome.within_mapM fun arg harg =>
      Coercion.number_within levels (hargs.2 arg harg)
    exact hothers.bind fun numbers _ => foldNumbers_within operation first numbers
  · exact refuseCount_within levels 2 hargs

theorem applyTest_within {α : Type} {take : Nat → Value → Outcome α} (test : α → α → Bool)
    (htake : ∀ value : Value, value.WellFormed →
      (take levels value).Within (fun _ => True) Failure.OfValues)
    (hargs : ∀ arg ∈ args, arg.WellFormed) :
    (applyTest take test levels args).Within Value.WellFormed Failure.OfValues := by
  unfold applyTest
  split
  · rename_i left right
    refine (htake left (hargs left (by simp))).bind fun a _ => ?_
    refine (htake right (hargs right (by simp))).bind fun b _ => ?_
    exact .ok (by simp [Value.WellFormed])
  · exact refuseCount_within levels 2 hargs

theorem applyHead_within (hargs : ∀ arg ∈ args, arg.WellFormed) :
    (applyHead levels args).Within Value.WellFormed Failure.OfValues := by
  unfold applyHead
  split
  · rename_i first rest
    have hlist := hargs (.list (first :: rest)) (by simp)
    rw [Value.wellFormed_list, List.forall_mem_cons] at hlist
    exact .ok hlist.1
  · rename_i other _
    exact Coercion.refuse_within levels "pair" (hargs other (by simp))
  · exact refuseCount_within levels 1 hargs

theorem applyTail_within (hargs : ∀ arg ∈ args, arg.WellFormed) :
    (applyTail levels args).Within Value.WellFormed Failure.OfValues := by
  unfold applyTail
  split
  · rename_i first rest
    have hlist := hargs (.list (first :: rest)) (by simp)
    rw [Value.wellFormed_list, List.forall_mem_cons] at hlist
    exact .ok (Value.wellFormed_list.mpr hlist.2)
  · rename_i other _
    exact Coercion.refuse_within levels "pair" (hargs other (by simp))
  · exact refuseCount_within levels 1 hargs

theorem applyPrepend_within (hargs : ∀ arg ∈ args, arg.WellFormed) :
    (applyPrepend levels args).Within Value.WellFormed Failure.OfValues := by
  unfold applyPrepend
  split
  · rename_i first rest
    have hfirst := hargs first (by simp)
    have hrest := hargs (.list rest) (by simp)
    rw [Value.wellFormed_list] at hrest
    exact .ok (Value.wellFormed_list.mpr (List.forall_mem_cons.mpr ⟨hfirst, hrest⟩))
  · exact .ok (Value.wellFormed_list.mpr hargs)
  · exact refuseCount_within levels 2 hargs

theorem applyComparison_within {compare : Nat → Value → Value → Outcome Bool}
    (hcompare : ∀ left right : Value, left.WellFormed → right.WellFormed →
      (compare levels left right).Within (fun _ => True) Failure.OfValues)
    (hargs : ∀ arg ∈ args, arg.WellFormed) :
    (applyComparison compare levels args).Within Value.WellFormed Failure.OfValues := by
  unfold applyComparison
  split
  · rename_i left right
    have hsame := hcompare left right (hargs left (by simp)) (hargs right (by simp))
    exact hsame.map fun _ _ => by simp [Value.WellFormed]
  · exact refuseCount_within levels 2 hargs

theorem apply_within (primitive : Primitive) (hargs : ∀ arg ∈ args, arg.WellFormed) :
    (primitive.apply levels args).Within Value.WellFormed Failure.OfValues := by
  cases primitive with
  | fold operation => exact applyFold_within levels operation hargs
  | compareNumbers relation =>
      exact applyTest_within levels _ (fun _ => Coercion.number_within levels) hargs
  | compareTexts relation =>
      exact applyTest_within levels _ (fun _ => Coercion.text_within levels) hargs
  | connect connective =>
      cases connective with
      | both => exact applyTest_within levels _ (fun _ => Coercion.boolean_within levels) hargs
      | either => exact applyTest_within levels _ (fun _ => Coercion.boolean_within levels) hargs
  | headOf => exact applyHead_within levels hargs
  | tailOf => exact applyTail_within levels hargs
  | prepend => exact applyPrepend_within levels hargs
  | strictlyEqual =>
      exact applyComparison_within levels (fun _ _ => Comparison.strict_within levels) hargs
  | looselyEqual =>
      exact applyComparison_within levels (fun _ _ => Comparison.loose_within levels) hargs

end Primitive

/-- Whether a property holds of every expression in a form. -/
def Form.Every (property : Value → Prop) : Form → Prop
  | quotation expression => property expression
  | choice condition consequent alternative =>
      property condition ∧ property consequent ∧ property alternative
  | application _ args => ∀ arg ∈ args, property arg

theorem Form.every_of {property : Value → Prop} (name : String) {args : List Value}
    (hargs : ∀ arg ∈ args, property arg) : (Form.of name args).Every property := by
  unfold Form.of
  split
  · split
    · exact hargs _ (by simp)
    · exact hargs
  · split
    · exact ⟨hargs _ (by simp), hargs _ (by simp), hargs _ (by simp)⟩
    · exact hargs
  · exact hargs

/-- A failure that evaluating a part of an expression can come to. A form that is at fault is itself
a part, and the failure keeps its text. -/
def Failure.Arises (expression : Value) : Failure → Prop
  | badForm _ form shown => form.Part expression ∧ ∃ levels, form.render levels = .ok shown
  | notFunction .. => True
  | failure => failure.OfValues

theorem Failure.OfValues.arises {failure : Failure} (h : failure.OfValues) (expression : Value) :
    failure.Arises expression := by
  cases failure <;> first | exact h | exact h.elim

theorem applyNamed_within (levels : Nat) (name : String) (whole : Value) {args : List Value}
    (hargs : ∀ arg ∈ args, arg.WellFormed) :
    (applyNamed levels name args).Within Value.WellFormed (Failure.Arises whole) := by
  unfold applyNamed
  split
  · rename_i primitive _
    exact (primitive.apply_within levels hargs).imp (fun _ _ hanswer => hanswer) fun _ hfailure =>
      hfailure.arises whole
  · exact .failure trivial

theorem evaluate_within (levels : Nat) {expression whole : Value}
    (hwhole : expression.WellFormed) (hpart : expression.Part whole) :
    (evaluate levels expression).Within Value.WellFormed (Failure.Arises whole) := by
  induction levels using Nat.strongRecOn generalizing expression with
  | ind levels ih =>
      unfold evaluate
      split
      · exact .failure trivial
      · rename_i below head tail
        have hbelow {expression : Value}
            (hexpression : expression.WellFormed ∧ expression.Part whole) :=
          ih below (Nat.lt_succ_self below) hexpression.1 hexpression.2
        have htail : ∀ arg ∈ tail, arg.WellFormed ∧ arg.Part whole := by
          rw [Value.wellFormed_list, List.forall_mem_cons] at hwhole
          intro arg harg
          exact ⟨hwhole.2 arg harg, (Value.Part.of_mem (List.mem_cons_of_mem _ harg)).trans hpart⟩
        have hform := Form.every_of head htail
        cases hof : Form.of head tail with
        | quotation expression =>
            rw [hof] at hform
            exact .ok hform.1
        | choice condition consequent alternative =>
            rw [hof] at hform
            obtain ⟨hcondition, hconsequent, halternative⟩ := hform
            refine (hbelow hcondition).bind fun answer _ => ?_
            split
            · exact hbelow halternative
            · exact hbelow hconsequent
        | application name args =>
            rw [hof] at hform
            refine Outcome.Within.bind (Outcome.within_mapM fun arg harg => hbelow (hform arg harg))
              fun answers hanswers => ?_
            exact applyNamed_within _ name whole hanswers
      · exact .ok hwhole
      · exact .ok hwhole
      · exact .ok hwhole
      · exact .ok hwhole
      · exact .ok hwhole
      · refine Outcome.within_raise ((Failure.unrecognizedForm_within _ _ hwhole).imp ?_ ?_)
        · rintro _ - ⟨shown, rfl, hshown⟩
          exact ⟨hpart, _, hshown⟩
        · exact fun _ hfailure => hfailure.arises whole

namespace Interpreter

variable (interpreter : Interpreter)

theorem read_cases (source : String) :
    (∃ value, interpreter.read source = .ok value ∧ value.WellFormed) ∨
      (∃ details line column, interpreter.read source =
        .error (.failure (.unreadable details (some line) (some column)))) ∨
      interpreter.read source = .error (.failure .tooDeep) := by
  cases hread : interpreter.read source with
  | ok value =>
      obtain ⟨tokens, -, hderives⟩ := Reader.derives_of_read hread
      exact .inl ⟨value, rfl, hderives.wellFormed⟩
  | error fault =>
      rcases Reader.read_error hread with rfl | ⟨cause, index, rfl, -⟩
      · exact .inr (.inr rfl)
      · exact .inr (.inl ⟨_, _, _, rfl⟩)

theorem answer_within (source : String) :
    (interpreter.answer source).Within (fun _ => True) fun _ => True := by
  have hread : (interpreter.read source).Within Value.WellFormed fun _ => True := by
    rcases interpreter.read_cases source with ⟨value, h, hwhole⟩ | ⟨_, _, _, h⟩ | h
    · rw [h]
      exact .ok hwhole
    · rw [h]
      exact .failure trivial
    · rw [h]
      exact .failure trivial
  have hvalue : (interpreter.evaluateSource source).Within Value.WellFormed fun _ => True :=
    hread.bind fun value hwhole =>
      (evaluate_within _ hwhole (.whole value)).imp (fun _ _ h => h) fun _ _ => trivial
  exact hvalue.bind fun _ hwhole =>
    (Value.render_within hwhole _).imp (fun _ _ h => h) fun _ _ => trivial

/-- Reading gives a value without holes or reports what is wrong with the source; on values without
holes, evaluation and rendering give a value without holes and a text, or a failure of the language.
So there is a line to show for every source. -/
theorem defect_free :
    (∀ source, (∃ value, interpreter.read source = .ok value ∧ value.WellFormed) ∨
      (∃ details line column, interpreter.read source =
        .error (.failure (.unreadable details (some line) (some column)))) ∨
      interpreter.read source = .error (.failure .tooDeep)) ∧
    (∀ expression : Value, expression.WellFormed →
      (∃ value, interpreter.evaluate expression = .ok value ∧ value.WellFormed) ∨
        ∃ failure, interpreter.evaluate expression = .error (.failure failure)) ∧
    (∀ value : Value, value.WellFormed →
      (∃ text, interpreter.render value = .ok text) ∨
        ∃ failure, interpreter.render value = .error (.failure failure)) ∧
    ∀ source, ∃ text, interpreter.respond source = .ok text := by
  refine ⟨interpreter.read_cases, ?_, ?_, ?_⟩
  · intro expression hwhole
    have hanswer := Outcome.within_iff.mp
      (evaluate_within interpreter.levels hwhole (.whole expression))
    exact hanswer.imp_right fun ⟨failure, hfailure, _⟩ => ⟨failure, hfailure⟩
  · intro value hwhole
    have hrender := Outcome.within_iff.mp (Value.render_within hwhole interpreter.levels)
    exact hrender.imp (fun ⟨text, htext, _⟩ => ⟨text, htext⟩) fun ⟨failure, hfailure, _⟩ =>
      ⟨failure, hfailure⟩
  · intro source
    have hanswer := interpreter.answer_within source
    unfold respond
    generalize interpreter.answer source = outcome at hanswer
    cases hanswer with
    | ok _ => exact ⟨_, rfl⟩
    | failure _ => exact ⟨_, rfl⟩

theorem evaluate_head_of_text :
    ∃ failure, evaluate { strict := true, levels := 2 } (.list [.symbol "car", .text "a"]) =
      .error (.failure failure) := by
  have hcases := (defect_free { strict := true, levels := 2 }).2.1
    (.list [.symbol "car", .text "a"]) (by simp [Value.WellFormed])
  refine hcases.resolve_left ?_
  rintro ⟨value, h, -⟩
  cases h

end Interpreter

end SmallLisp
