import SmallLisp.Proofs.Levels

namespace SmallLisp

/-- An expression with a hole at a place that evaluation may reach, which is any argument of a form
but the only one of a quotation. -/
inductive Context
  | hole
  | argument (head : String) (before : List Value) (inner : Context) (after : List Value)
      (evaluated : head = "quote" → before ++ after ≠ [])

namespace Context

def fill : Context → Value → Value
  | hole, expression => expression
  | argument head before inner after _, expression =>
      .list (.symbol head :: (before ++ inner.fill expression :: after))

open Outcome (Approximates)

theorem length_ne_one {before after : List Value} (h : before ++ after ≠ []) (expression : Value) :
    (before ++ expression :: after).length ≠ 1 := by
  have hlength := List.length_pos_iff.mpr h
  simp only [List.length_append, List.length_cons] at hlength ⊢
  omega

/-- What fills a hole can be exchanged for what evaluates alike with more levels. -/
theorem fill_approximates {expression other : Value} {extra : Nat}
    (h : ∀ levels, Approximates (evaluate levels expression) (evaluate (levels + extra) other))
    (context : Context) (levels : Nat) :
    Approximates (evaluate levels (context.fill expression))
      (evaluate (levels + extra) (context.fill other)) := by
  induction context generalizing levels with
  | hole => exact h levels
  | argument head before inner after evaluated ih =>
      cases levels with
      | zero => exact .tooDeep _
      | succ levels =>
          rw [Nat.succ_add]
          have hsame (args : List Value) :
              List.Forall₂ (fun arg other =>
                Approximates (evaluate levels arg) (evaluate (levels + extra) other)) args args :=
            List.forall₂_same.mpr fun arg _ => evaluate_approximates (Nat.le_add_right _ _) arg
          apply evaluate_form_approximates (Nat.le_add_right _ _)
          · exact List.rel_append (hsame before) (.cons (ih levels) (hsame after))
          · intro hhead
            exact length_ne_one (evaluated hhead) (inner.fill expression)

/-- An expression and its value in quotes fill every context alike. With the same levels the two
outcomes are the same unless one of them is too deep; and an outcome of either is that of the other
with some more levels: one for the quotation, and for the expression as many as it needs itself. -/
theorem evaluate_fill_quotation {needed : Nat} {expression value : Value}
    (h : evaluate needed expression = .ok value) (context : Context) (levels : Nat) :
    (evaluate levels (context.fill expression) ≠ .fail .tooDeep →
      evaluate levels (context.fill value.quotation) ≠ .fail .tooDeep →
        evaluate levels (context.fill expression) =
          evaluate levels (context.fill value.quotation)) ∧
    (evaluate levels (context.fill expression) ≠ .fail .tooDeep →
      evaluate (levels + 1) (context.fill value.quotation) =
        evaluate levels (context.fill expression)) ∧
    (evaluate levels (context.fill value.quotation) ≠ .fail .tooDeep →
      evaluate (levels + needed) (context.fill expression) =
        evaluate levels (context.fill value.quotation)) := by
  have hquoted : Approximates (evaluate levels (context.fill expression))
      (evaluate (levels + 1) (context.fill value.quotation)) :=
    context.fill_approximates (fun levels => evaluate_approximates_value h levels) levels
  have hvalue (levels : Nat) :
      Approximates (evaluate levels value.quotation) (evaluate (levels + needed) expression) := by
    have hneeded : evaluate (levels + needed) expression = .ok value :=
      Approximates.ok (h ▸ evaluate_approximates (Nat.le_add_left needed levels) expression)
    rw [hneeded]
    exact evaluate_approximates_value (evaluate_quotation 0 value) levels
  have hplain := context.fill_approximates hvalue levels
  refine ⟨fun hfirst hsecond => ?_, hquoted.eq, hplain.eq⟩
  have hmore := evaluate_approximates (Nat.le_succ levels) (context.fill value.quotation)
  exact (hquoted.eq hfirst).symm.trans (hmore.eq hsecond)

theorem evaluate_fill_quotation_first :
    evaluate 2 (.list [.symbol "car", (Value.list [.text "a"]).quotation]) = .ok (.text "a") ∧
    evaluate 3 (.list [.symbol "car", (Value.text "a").quotation]) =
      .fail (.mismatch "pair" (.text "a") "\"a\"") := by
  have hvalue :
      evaluate 2 (.list [.symbol "car", (Value.list [.text "a"]).quotation]) = .ok (.text "a") :=
    rfl
  have hfailure : evaluate 3 (.list [.symbol "car",
      .list [.symbol "car", (Value.list [.text "a"]).quotation]]) =
        .fail (.mismatch "pair" (.text "a") "\"a\"") :=
    rfl
  have hsame := (evaluate_fill_quotation hvalue (.argument "car" [] .hole [] (by decide)) 3).1
  refine ⟨hvalue, (hsame ?_ ?_).symm.trans hfailure⟩
  · rintro ⟨⟩
  · rintro ⟨⟩

end Context

end SmallLisp
