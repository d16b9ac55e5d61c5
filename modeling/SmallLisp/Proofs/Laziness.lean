import SmallLisp.Proofs.Outcome
import SmallLisp.Proofs.Transparency

namespace SmallLisp

/-- Whether a list with a name in front and so many arguments is no special form. -/
def IsApplication (head : String) (count : Nat) : Prop :=
  (head = "quote" → count ≠ 1) ∧ (head = "if" → count ≠ 3)

theorem Form.of_application {head : String} {args : List Value}
    (h : IsApplication head args.length) : Form.of head args = .application head args := by
  obtain ⟨hquote, hif⟩ := h
  unfold Form.of
  split
  · rw [if_neg fun heq => hquote heq rfl]
  · rw [if_neg fun heq => hif heq rfl]
  · rfl

section
variable {levels : Nat} {head : String} {args : List Value}

theorem evaluate_application (h : IsApplication head args.length) :
    evaluate (levels + 1) (.list (.symbol head :: args)) =
      args.mapM (evaluate levels) >>= applyNamed levels head := by
  rw [evaluate, Form.of_application h]

theorem evaluate_choice (condition consequent alternative : Value) :
    evaluate (levels + 1) (.list [.symbol "if", condition, consequent, alternative]) =
      evaluate levels condition >>= fun answer =>
        if answer = .boolean false then evaluate levels alternative
        else evaluate levels consequent := by
  have hform : Form.of "if" [condition, consequent, alternative] =
      .choice condition consequent alternative := rfl
  rw [evaluate, hform]
  dsimp only
  cases evaluate levels condition with
  | error fault => rfl
  | ok answer =>
      simp only [bind, Except.bind]
      split
      · rw [if_pos rfl]
      · rename_i hanswer
        rw [if_neg hanswer]

end

/-- Expressions that differ only in what evaluation does not look at when it has so many levels
below them: in a branch that is not selected, or after an argument that fails. -/
inductive DifferUnevaluated (levels : Nat) : Value → Value → Prop
  | alternative {condition : Value} (consequent alternative other : Value) :
      evaluate levels condition ≠ .ok (.boolean false) →
        DifferUnevaluated levels (.list [.symbol "if", condition, consequent, alternative])
          (.list [.symbol "if", condition, consequent, other])
  | consequent {condition : Value} (consequent other alternative : Value) :
      (∀ answer, evaluate levels condition = .ok answer → answer = .boolean false) →
        DifferUnevaluated levels (.list [.symbol "if", condition, consequent, alternative])
          (.list [.symbol "if", condition, other, alternative])
  | arguments {head : String} (before : List Value) {failing : Value} {fault : Fault}
      (after others : List Value) :
      IsApplication head (before ++ failing :: after).length → after.length = others.length →
        evaluate levels failing = .error fault →
          DifferUnevaluated levels (.list (.symbol head :: (before ++ failing :: after)))
            (.list (.symbol head :: (before ++ failing :: others)))

theorem evaluate_eq_of_differ {levels : Nat} {expression other : Value}
    (h : DifferUnevaluated levels expression other) :
    evaluate (levels + 1) expression = evaluate (levels + 1) other := by
  cases h with
  | @alternative condition consequent alternative other hselected =>
      rw [evaluate_choice, evaluate_choice]
      apply Outcome.bind_eq_bind
      intro answer hcondition
      have hanswer : answer ≠ .boolean false := fun heq => hselected (heq ▸ hcondition)
      rw [if_neg hanswer, if_neg hanswer]
  | @consequent condition consequent other alternative hselected =>
      rw [evaluate_choice, evaluate_choice]
      apply Outcome.bind_eq_bind
      intro answer hcondition
      have hanswer := hselected answer hcondition
      rw [if_pos hanswer, if_pos hanswer]
  | @arguments head before failing fault after others happlication hlength hfailing =>
      have hothers : IsApplication head (before ++ failing :: others).length := by
        simpa [hlength] using happlication
      rw [evaluate_application happlication, evaluate_application hothers,
        Outcome.mapM_append_error hfailing before after others]

theorem evaluate_form_congr {levels : Nat} {head : String} {args others : List Value}
    (hargs : List.Forall₂
      (fun arg other => evaluate levels arg = evaluate levels other) args others)
    (hhead : head = "quote" → args.length ≠ 1) :
    evaluate (levels + 1) (.list (.symbol head :: args)) =
      evaluate (levels + 1) (.list (.symbol head :: others)) := by
  have happroximates {arg other : Value} (h : evaluate levels arg = evaluate levels other) :
      Outcome.Approximates (evaluate levels arg) (evaluate levels other) := h ▸ .refl _
  have hforth : List.Forall₂ (fun arg other =>
      Outcome.Approximates (evaluate levels arg) (evaluate levels other)) args others :=
    hargs.imp fun arg other h => happroximates h
  have hback : List.Forall₂ (fun other arg =>
      Outcome.Approximates (evaluate levels other) (evaluate levels arg)) others args :=
    List.Forall₂.flip (hargs.imp fun arg other h => happroximates h.symm)
  have hlength := hargs.length_eq
  apply Outcome.Approximates.antisymm
  · exact evaluate_form_approximates (Nat.le_refl levels) hforth hhead
  · exact evaluate_form_approximates (Nat.le_refl levels) hback (hlength ▸ hhead)

namespace Context

def depth : Context → Nat
  | hole => 0
  | argument _ _ inner _ _ => inner.depth + 1

theorem evaluate_fill_congr {levels : Nat} {expression other : Value}
    (h : evaluate levels expression = evaluate levels other) (context : Context) :
    evaluate (levels + context.depth) (context.fill expression) =
      evaluate (levels + context.depth) (context.fill other) := by
  induction context with
  | hole => exact h
  | argument head before inner after evaluated ih =>
      have hsame (args : List Value) : List.Forall₂ (fun arg other =>
          evaluate (levels + inner.depth) arg = evaluate (levels + inner.depth) other) args args :=
        List.forall₂_same.mpr fun _ _ => rfl
      apply evaluate_form_congr
      · exact List.rel_append (hsame before) (.cons ih (hsame after))
      · intro hhead
        exact length_ne_one (evaluated hhead) (inner.fill expression)

end Context

namespace Primitive

/-- The count of arguments that a function asks for. -/
def count : Primitive → Nat
  | headOf => 1
  | tailOf => 1
  | _ => 2

/-- Whether a function takes so many arguments. One that folds them takes any more as well. -/
def Takes : Primitive → Nat → Prop
  | fold _, given => 2 ≤ given
  | other, given => given = other.count

section
variable {args : List Value}

theorem applyFold_of_few (h : args.length < 2) (operation : Arithmetic) (levels : Nat) :
    applyFold operation levels args = refuseCount levels 2 args := by
  unfold applyFold
  split
  · simp only [List.length_cons] at h
    omega
  · rfl

theorem applyTest_of_count {α : Type} (h : args.length ≠ 2) (take : Nat → Value → Outcome α)
    (test : α → α → Bool) (levels : Nat) :
    applyTest take test levels args = refuseCount levels 2 args := by
  unfold applyTest
  split
  · exact absurd rfl h
  · rfl

theorem applyComparison_of_count (h : args.length ≠ 2)
    (compare : Nat → Value → Value → Outcome Bool) (levels : Nat) :
    applyComparison compare levels args = refuseCount levels 2 args := by
  unfold applyComparison
  split
  · exact absurd rfl h
  · rfl

theorem applyHead_of_count (h : args.length ≠ 1) (levels : Nat) :
    applyHead levels args = refuseCount levels 1 args := by
  unfold applyHead
  split
  · exact absurd rfl h
  · exact absurd rfl h
  · rfl

theorem applyTail_of_count (h : args.length ≠ 1) (levels : Nat) :
    applyTail levels args = refuseCount levels 1 args := by
  unfold applyTail
  split
  · exact absurd rfl h
  · exact absurd rfl h
  · rfl

theorem applyPrepend_of_count (h : args.length ≠ 2) (levels : Nat) :
    applyPrepend levels args = refuseCount levels 2 args := by
  unfold applyPrepend
  split
  · exact absurd rfl h
  · exact absurd rfl h
  · rfl

theorem apply_of_not_takes {primitive : Primitive} (h : ¬ primitive.Takes args.length)
    (levels : Nat) : primitive.apply levels args = refuseCount levels primitive.count args := by
  -- A count that a function does not take is refused before the arguments are looked at.
  cases primitive with
  | fold operation => exact applyFold_of_few (Nat.lt_of_not_le h) operation levels
  | compareNumbers relation => exact applyTest_of_count h _ _ levels
  | compareTexts relation => exact applyTest_of_count h _ _ levels
  | connect connective =>
      cases connective with
      | both => exact applyTest_of_count h _ _ levels
      | either => exact applyTest_of_count h _ _ levels
  | headOf => exact applyHead_of_count h levels
  | tailOf => exact applyTail_of_count h levels
  | prepend => exact applyPrepend_of_count h levels
  | strictlyEqual => exact applyComparison_of_count h _ levels
  | looselyEqual => exact applyComparison_of_count h _ levels

end

end Primitive

/-- How an application ends: with the fault of its first argument that fails, and only when none
does with what its name says about their values. -/
inductive Applied (levels : Nat) (head : String) (args : List Value) : Outcome Value → Prop
  | argumentFails {before after : List Value} {failing : Value} {fault : Fault} :
      args = before ++ failing :: after →
        (∀ arg ∈ before, ∃ value, evaluate levels arg = .ok value) →
          evaluate levels failing = .error fault → Applied levels head args (.error fault)
  | unknownHead {values : List Value} :
      List.Forall₂ (fun arg value => evaluate levels arg = .ok value) args values →
        Primitive.ofName? head = none →
          Applied levels head args
            (.fail (.notFunction "Unrecognized primitive function args" head))
  | wrongCount {values : List Value} {primitive : Primitive} :
      List.Forall₂ (fun arg value => evaluate levels arg = .ok value) args values →
        Primitive.ofName? head = some primitive → ¬ primitive.Takes args.length →
          Applied levels head args (Primitive.refuseCount levels primitive.count values)
  | applies {values : List Value} {primitive : Primitive} :
      List.Forall₂ (fun arg value => evaluate levels arg = .ok value) args values →
        Primitive.ofName? head = some primitive → primitive.Takes args.length →
          Applied levels head args (primitive.apply levels values)

theorem evaluate_application_iff {levels : Nat} {head : String} {args : List Value}
    {outcome : Outcome Value} (h : IsApplication head args.length) :
    evaluate (levels + 1) (.list (.symbol head :: args)) = outcome ↔
      Applied levels head args outcome := by
  have hvalues {values : List Value}
      (hargs : List.Forall₂ (fun arg value => evaluate levels arg = .ok value) args values) :
      args.mapM (evaluate levels) >>= applyNamed levels head = applyNamed levels head values := by
    rw [Outcome.mapM_ok_iff.mpr hargs]
    rfl
  rw [evaluate_application h]
  constructor
  · rintro rfl
    cases hargs : args.mapM (evaluate levels) with
    | error fault =>
        obtain ⟨before, failing, after, hsplit, hbefore, hfailing⟩ :=
          Outcome.mapM_error_iff.mp hargs
        exact .argumentFails hsplit hbefore hfailing
    | ok values =>
        have hall := Outcome.mapM_ok_iff.mp hargs
        show Applied levels head args (applyNamed levels head values)
        unfold applyNamed
        cases hname : Primitive.ofName? head with
        | none => exact .unknownHead hall hname
        | some primitive =>
            by_cases htakes : primitive.Takes args.length
            · exact .applies hall hname htakes
            · have hrefused := htakes
              rw [hall.length_eq] at hrefused
              dsimp only
              rw [Primitive.apply_of_not_takes hrefused]
              exact .wrongCount hall hname htakes
  · intro happlied
    cases happlied with
    | argumentFails hsplit hbefore hfailing =>
        rw [Outcome.mapM_error_iff.mpr ⟨_, _, _, hsplit, hbefore, hfailing⟩]
        rfl
    | unknownHead hall hname =>
        rw [hvalues hall, applyNamed, hname]
    | wrongCount hall hname htakes =>
        rw [hall.length_eq] at htakes
        rw [hvalues hall, applyNamed, hname]
        exact Primitive.apply_of_not_takes htakes levels
    | applies hall hname _ =>
        rw [hvalues hall, applyNamed, hname]

/-- What is not evaluated cannot matter: wherever evaluation comes to a choice or an application,
the branch that is not selected and the arguments after one that fails can be exchanged for any
others. An application ends as its first failing argument does, and its name and the count of its
arguments are looked at only when every argument has a value. -/
theorem unevaluated_irrelevant (levels : Nat) :
    (∀ (context : Context) (expression other : Value),
      DifferUnevaluated levels expression other →
        evaluate (levels + 1 + context.depth) (context.fill expression) =
          evaluate (levels + 1 + context.depth) (context.fill other)) ∧
    ∀ (head : String) (args : List Value) (outcome : Outcome Value),
      IsApplication head args.length →
        (evaluate (levels + 1) (.list (.symbol head :: args)) = outcome ↔
          Applied levels head args outcome) := by
  constructor
  · intro context expression other h
    exact context.evaluate_fill_congr (evaluate_eq_of_differ h)
  · intro head args outcome h
    exact evaluate_application_iff h

theorem unevaluated_irrelevant_division :
    let division : Value := .list [.symbol "/", .integer 1, .integer 0]
    evaluate 3 (.list [.symbol "f",
        .list [.symbol "if", .boolean true, .text "a", division]]) =
      evaluate 3 (.list [.symbol "f", .list [.symbol "if", .boolean true, .text "a", .absent]]) ∧
    evaluate 3 (.list [.symbol "f", .text "a", division, .absent]) = .fail .divisionByZero := by
  intro division
  have hselected : evaluate 1 (.boolean true) ≠ .ok (.boolean false) := nofun
  have hdivision : evaluate 2 division = .fail .divisionByZero := rfl
  let context : Context := .argument "f" [] .hole [] (by decide)
  constructor
  · exact (unevaluated_irrelevant 1).1 context _ _
      (.alternative (.text "a") division .absent hselected)
  · have happlication : IsApplication "f" 3 := ⟨by decide, by decide⟩
    have hsplit : [.text "a", division, .absent] = [.text "a"] ++ division :: [.absent] := rfl
    refine ((unevaluated_irrelevant 2).2 "f" [.text "a", division, .absent] _ happlication).mpr ?_
    exact .argumentFails hsplit (List.forall_mem_singleton.mpr ⟨.text "a", rfl⟩) hdivision

end SmallLisp
