import SmallLisp.Proofs.Coercion

namespace SmallLisp

namespace Outcome

variable {α β : Type}

/-- Whether an outcome is another one as far as levels go: it is too deep, or the same. -/
inductive Approximates : Outcome α → Outcome α → Prop
  | tooDeep (outcome : Outcome α) : Approximates (fail .tooDeep) outcome
  | refl (outcome : Outcome α) : Approximates outcome outcome

theorem Approximates.eq {outcome other : Outcome α} (h : Approximates outcome other)
    (hdeep : outcome ≠ fail .tooDeep) : other = outcome := by
  cases h with
  | tooDeep _ => exact absurd rfl hdeep
  | refl _ => rfl

theorem Approximates.ok {answer : α} {outcome : Outcome α} (h : Approximates (.ok answer) outcome) :
    outcome = .ok answer :=
  h.eq nofun

theorem Approximates.antisymm {outcome other : Outcome α} (h : Approximates outcome other)
    (hback : Approximates other outcome) : outcome = other := by
  cases h with
  | tooDeep _ =>
      cases hback with
      | tooDeep _ => rfl
      | refl _ => rfl
  | refl _ => rfl

theorem Approximates.bind {outcome other : Outcome α} {next later : α → Outcome β}
    (h : Approximates outcome other) (hnext : ∀ answer, Approximates (next answer) (later answer)) :
    Approximates (outcome >>= next) (other >>= later) := by
  cases h with
  | tooDeep _ => exact .tooDeep _
  | refl _ =>
      cases outcome with
      | error fault => exact .refl _
      | ok answer => exact hnext answer

theorem Approximates.map {outcome other : Outcome α} (f : α → β)
    (h : Approximates outcome other) :
    Approximates (Except.map f outcome) (Except.map f other) := by
  cases h with
  | tooDeep _ => exact .tooDeep _
  | refl _ => exact .refl _

theorem Approximates.raise {failure other : Outcome Failure} (h : Approximates failure other) :
    Approximates (raise failure : Outcome α) (Outcome.raise other) :=
  h.bind fun _ => .refl _

theorem approximates_mapM {γ : Type} {f : α → Outcome β} {g : γ → Outcome β} {items : List α}
    {others : List γ}
    (h : List.Forall₂ (fun item other => Approximates (f item) (g other)) items others) :
    Approximates (items.mapM f) (others.mapM g) := by
  induction h with
  | nil => exact .refl _
  | cons hfirst _ ih =>
      rw [List.mapM_cons, List.mapM_cons]
      exact hfirst.bind fun answer => ih.bind fun answers => .refl _

theorem approximates_mapM_same {f g : α → Outcome β} {items : List α}
    (h : ∀ item ∈ items, Approximates (f item) (g item)) :
    Approximates (items.mapM f) (items.mapM g) :=
  approximates_mapM (List.forall₂_same.mpr h)

end Outcome

open Outcome (Approximates approximates_mapM approximates_mapM_same)

variable {levels more : Nat}

theorem Value.chars_approximates (h : levels ≤ more) (value : Value) :
    Approximates (value.chars levels) (value.chars more) := by
  induction value generalizing levels more with
  | list items ih =>
      cases levels with
      | zero => exact .tooDeep _
      | succ levels =>
          obtain ⟨more, rfl⟩ := Nat.exists_eq_add_one_of_ne_zero (Nat.ne_zero_of_lt h)
          refine Approximates.bind (approximates_mapM_same fun item hitem => ?_) fun _ => .refl _
          exact ih item hitem (Nat.le_of_succ_le_succ h)
  | _ => cases levels <;> cases more <;> exact .refl _

theorem Value.render_approximates (h : levels ≤ more) (value : Value) :
    Approximates (value.render levels) (value.render more) :=
  (value.chars_approximates h).map String.ofList

theorem Value.renderAll_approximates (h : levels ≤ more) (values : List Value) :
    Approximates (renderAll levels values) (renderAll more values) :=
  Approximates.bind (approximates_mapM_same fun value _ => value.chars_approximates h) fun _ =>
    .refl _

namespace Coercion

theorem refuse_approximates {α : Type} (h : levels ≤ more) (wanted : String) (value : Value) :
    Approximates (refuse levels wanted value : Outcome α) (refuse more wanted value) :=
  ((value.render_approximates h).map _).raise

theorem number_approximates (h : levels ≤ more) (value : Value) :
    Approximates (number levels value) (number more value) := by
  induction value generalizing levels more with
  | integer n => cases levels <;> cases more <;> exact .refl _
  | text content =>
      cases hfound : LeadingInteger.ofText content.toList with
      | found n => simpa only [number, hfound] using .refl _
      | overlong => simpa only [number, hfound] using .refl _
      | missing => simpa only [number, hfound] using refuse_approximates h "number" _
  | list items ih =>
      by_cases hsingle : ∃ item, items = [item]
      · obtain ⟨item, rfl⟩ := hsingle
        cases levels with
        | zero => exact .tooDeep _
        | succ levels =>
            obtain ⟨more, rfl⟩ := Nat.exists_eq_add_one_of_ne_zero (Nat.ne_zero_of_lt h)
            exact ih item (by simp) (Nat.le_of_succ_le_succ h)
      · have hlist : ∀ item, Value.list items ≠ .list [item] := by
          rintro item ⟨⟩
          exact hsingle ⟨item, rfl⟩
        rw [number_eq_refuse (by simp) (by simp) hlist, number_eq_refuse (by simp) (by simp) hlist]
        exact refuse_approximates h "number" _
  | _ =>
      rw [number_eq_refuse (by simp) (by simp) (by simp),
        number_eq_refuse (by simp) (by simp) (by simp)]
      exact refuse_approximates h "number" _

theorem text_approximates (h : levels ≤ more) (value : Value) :
    Approximates (text levels value) (text more value) := by
  cases value with
  | text _ => exact .refl _
  | boolean _ => exact .refl _
  | integer _ => exact .refl _
  | _ => exact refuse_approximates h "string" _

theorem boolean_approximates (h : levels ≤ more) (value : Value) :
    Approximates (boolean levels value) (boolean more value) := by
  cases value with
  | boolean _ => exact .refl _
  | _ => exact refuse_approximates h "boolean" _

end Coercion

namespace Comparison

theorem everywhere_approximates {compare other : Value → Value → Outcome Bool}
    {lefts rights : List Value}
    (h : ∀ left ∈ lefts, ∀ right, Approximates (compare left right) (other left right)) :
    Approximates (everywhere compare lefts rights) (everywhere other lefts rights) := by
  induction lefts generalizing rights with
  | nil => exact .refl _
  | cons left lefts ih =>
      cases rights with
      | nil => exact .refl _
      | cons right rights =>
          rw [List.forall_mem_cons] at h
          refine (h.1 right).bind fun same => ?_
          cases same with
          | false => exact .refl _
          | true => exact ih h.2

theorem strict_approximates (h : levels ≤ more) (left right : Value) :
    Approximates (strict levels left right) (strict more left right) := by
  induction left generalizing levels more right with
  | list lefts ih =>
      cases right with
      | list rights =>
          cases levels with
          | zero => exact .tooDeep _
          | succ levels =>
              obtain ⟨more, rfl⟩ := Nat.exists_eq_add_one_of_ne_zero (Nat.ne_zero_of_lt h)
              simp only [strict]
              split
              · exact everywhere_approximates fun left hleft right =>
                  ih left hleft (Nat.le_of_succ_le_succ h) right
              · exact .refl _
      | _ => cases levels <;> cases more <;> exact .refl _
  | _ => cases right <;> cases levels <;> cases more <;> exact .refl _

theorem agree_approximates {α : Type} [DecidableEq α] {take taking : Value → Outcome α}
    (h : ∀ value, Approximates (take value) (taking value)) (left right : Value) :
    Approximates (agree take left right) (agree taking left right) := by
  have hsame : Approximates (do return decide ((← take left) = (← take right)))
      (do return decide ((← taking left) = (← taking right))) :=
    (h left).bind fun _ => (h right).bind fun _ => .refl _
  unfold agree
  generalize (do return decide ((← take left) = (← take right)) : Outcome Bool) = outcome at hsame ⊢
  generalize (do return decide ((← taking left) = (← taking right)) : Outcome Bool) = other
    at hsame ⊢
  cases hsame with
  | tooDeep _ => exact .tooDeep _
  | refl _ => exact .refl _

theorem orElse_approximates {outcome other rest remaining : Outcome Bool}
    (h : Approximates outcome other) (hrest : Approximates rest remaining) :
    Approximates (do if ← outcome then return true else rest)
      (do if ← other then return true else remaining) := by
  refine h.bind fun same => ?_
  cases same with
  | true => exact .refl _
  | false => exact hrest

theorem loosely_approximates (h : levels ≤ more) (left right : Value) :
    Approximates (loosely levels left right) (loosely more left right) := by
  have hnumber := agree_approximates (Coercion.number_approximates h) left right
  have htext := agree_approximates (Coercion.text_approximates h) left right
  have hboolean := agree_approximates (Coercion.boolean_approximates h) left right
  have hstrict := strict_approximates h left right
  exact orElse_approximates hnumber
    (orElse_approximates htext (orElse_approximates hboolean hstrict))

theorem loose_approximates (h : levels ≤ more) (left right : Value) :
    Approximates (loose levels left right) (loose more left right) := by
  induction left generalizing levels more right with
  | list lefts ih =>
      cases right with
      | list rights =>
          cases levels with
          | zero => exact .tooDeep _
          | succ levels =>
              obtain ⟨more, rfl⟩ := Nat.exists_eq_add_one_of_ne_zero (Nat.ne_zero_of_lt h)
              simp only [loose]
              split
              · exact everywhere_approximates fun left hleft right =>
                  ih left hleft (Nat.le_of_succ_le_succ h) right
              · exact .refl _
      | _ => simpa only [loose] using loosely_approximates h _ _
  | _ => simpa only [loose] using loosely_approximates h _ _

end Comparison

namespace Primitive

variable (h : levels ≤ more) (args : List Value)

include h

theorem refuseCount_approximates {α : Type} (expected : Int) :
    Approximates (refuseCount levels expected args : Outcome α) (refuseCount more expected args) :=
  ((Value.renderAll_approximates h args).map _).raise

theorem applyFold_approximates (operation : Arithmetic) :
    Approximates (applyFold operation levels args) (applyFold operation more args) := by
  unfold applyFold
  split
  · refine (Coercion.number_approximates h _).bind fun first => ?_
    refine Approximates.bind ?_ fun others => .refl _
    exact approximates_mapM_same fun arg _ => Coercion.number_approximates h arg
  · exact refuseCount_approximates h args 2

theorem applyTest_approximates {α : Type} {take : Nat → Value → Outcome α}
    (htake : ∀ value, Approximates (take levels value) (take more value)) (test : α → α → Bool) :
    Approximates (applyTest take test levels args) (applyTest take test more args) := by
  unfold applyTest
  split
  · exact (htake _).bind fun a => (htake _).bind fun b => .refl _
  · exact refuseCount_approximates h args 2

theorem applyHead_approximates : Approximates (applyHead levels args) (applyHead more args) := by
  unfold applyHead
  split
  · exact .refl _
  · exact Coercion.refuse_approximates h "pair" _
  · exact refuseCount_approximates h args 1

theorem applyTail_approximates : Approximates (applyTail levels args) (applyTail more args) := by
  unfold applyTail
  split
  · exact .refl _
  · exact Coercion.refuse_approximates h "pair" _
  · exact refuseCount_approximates h args 1

theorem applyPrepend_approximates :
    Approximates (applyPrepend levels args) (applyPrepend more args) := by
  unfold applyPrepend
  split
  · exact .refl _
  · exact .refl _
  · exact refuseCount_approximates h args 2

theorem applyComparison_approximates {compare : Nat → Value → Value → Outcome Bool}
    (hcompare : ∀ left right, Approximates (compare levels left right) (compare more left right)) :
    Approximates (applyComparison compare levels args) (applyComparison compare more args) := by
  unfold applyComparison
  split
  · exact (hcompare _ _).map _
  · exact refuseCount_approximates h args 2

theorem apply_approximates (primitive : Primitive) :
    Approximates (primitive.apply levels args) (primitive.apply more args) := by
  have hnumber := Coercion.number_approximates h
  have htext := Coercion.text_approximates h
  have hboolean := Coercion.boolean_approximates h
  cases primitive with
  | fold operation => exact applyFold_approximates h args operation
  | compareNumbers relation => exact applyTest_approximates h args hnumber _
  | compareTexts relation => exact applyTest_approximates h args htext _
  | connect connective =>
      cases connective with
      | both => exact applyTest_approximates h args hboolean _
      | either => exact applyTest_approximates h args hboolean _
  | headOf => exact applyHead_approximates h args
  | tailOf => exact applyTail_approximates h args
  | prepend => exact applyPrepend_approximates h args
  | strictlyEqual => exact applyComparison_approximates h args (Comparison.strict_approximates h)
  | looselyEqual => exact applyComparison_approximates h args (Comparison.loose_approximates h)

end Primitive

theorem applyNamed_approximates (h : levels ≤ more) (name : String) (args : List Value) :
    Approximates (applyNamed levels name args) (applyNamed more name args) := by
  unfold applyNamed
  split
  · exact Primitive.apply_approximates h args _
  · exact .refl _

/-- Forms of one kind whose evaluated parts are related one by one. -/
inductive Form.Related (R : Value → Value → Prop) : Form → Form → Prop
  | choice {condition condition' consequent consequent' alternative alternative' : Value} :
      R condition condition' → R consequent consequent' → R alternative alternative' →
        Related R (.choice condition consequent alternative)
          (.choice condition' consequent' alternative')
  | application (name : String) {args others : List Value} :
      List.Forall₂ R args others → Related R (.application name args) (.application name others)

theorem Form.related_of {R : Value → Value → Prop} {name : String} {args others : List Value}
    (hargs : List.Forall₂ R args others) (hname : name = "quote" → args.length ≠ 1) :
    Related R (Form.of name args) (Form.of name others) := by
  unfold Form.of
  cases hargs with
  | nil => exact .application name .nil
  | cons hfirst hrest =>
      cases hrest with
      | nil =>
          have hother : name ≠ "quote" := fun heq => hname heq rfl
          simp only [hother, ↓reduceIte]
          exact .application name (.cons hfirst .nil)
      | cons hsecond hrest =>
          cases hrest with
          | nil => exact .application name (.cons hfirst (.cons hsecond .nil))
          | cons hthird hrest =>
              cases hrest with
              | nil =>
                  dsimp only
                  split
                  · exact .choice hfirst hsecond hthird
                  · exact .application name (.cons hfirst (.cons hsecond (.cons hthird .nil)))
              | cons hfourth hrest =>
                  exact .application name
                    (.cons hfirst (.cons hsecond (.cons hthird (.cons hfourth hrest))))

theorem evaluate_form_approximates (h : levels ≤ more) {head : String} {args others : List Value}
    (hargs : List.Forall₂
      (fun arg other => Approximates (evaluate levels arg) (evaluate more other)) args others)
    (hhead : head = "quote" → args.length ≠ 1) :
    Approximates (evaluate (levels + 1) (.list (.symbol head :: args)))
      (evaluate (more + 1) (.list (.symbol head :: others))) := by
  have hform := Form.related_of hargs hhead
  rw [evaluate, evaluate]
  generalize Form.of head args = form at hform
  generalize Form.of head others = other at hform
  cases hform with
  | choice hcondition hconsequent halternative =>
      refine hcondition.bind fun answer => ?_
      split
      · exact halternative
      · exact hconsequent
  | application name hargs =>
      exact (approximates_mapM hargs).bind fun answers => applyNamed_approximates h name answers

theorem evaluate_quotation (levels : Nat) (expression : Value) :
    evaluate (levels + 1) expression.quotation = .ok expression := rfl

theorem unrecognized_approximates (h : levels ≤ more) (problem : String) (form : Value) :
    Approximates (Outcome.raise (Failure.unrecognizedForm levels problem form) : Outcome Value)
      (Outcome.raise (Failure.unrecognizedForm more problem form)) :=
  ((form.render_approximates h).map _).raise

/-- Evaluation with more levels gives the same outcome, unless it was too deep before. -/
theorem evaluate_approximates (h : levels ≤ more) (expression : Value) :
    Approximates (evaluate levels expression) (evaluate more expression) := by
  induction expression generalizing levels more with
  | list items ih =>
      cases items with
      | nil => cases levels <;> cases more <;> exact unrecognized_approximates h _ _
      | cons first args =>
          cases first with
          | symbol head =>
              cases levels with
              | zero => exact .tooDeep _
              | succ levels =>
                  obtain ⟨more, rfl⟩ := Nat.exists_eq_add_one_of_ne_zero (Nat.ne_zero_of_lt h)
                  by_cases hquote : head = "quote" ∧ args.length = 1
                  · obtain ⟨rfl, hlength⟩ := hquote
                    obtain ⟨expression, rfl⟩ := List.length_eq_one_iff.mp hlength
                    exact .refl _
                  · have hle := Nat.le_of_succ_le_succ h
                    have hargs : ∀ arg ∈ args,
                        Approximates (evaluate levels arg) (evaluate more arg) :=
                      fun arg harg => ih arg (List.mem_cons_of_mem _ harg) hle
                    exact evaluate_form_approximates hle (List.forall₂_same.mpr hargs)
                      fun hhead hlength => hquote ⟨hhead, hlength⟩
          | _ => cases levels <;> cases more <;> exact unrecognized_approximates h _ _
  | symbol _ => cases levels <;> cases more <;> exact unrecognized_approximates h _ _
  | absent => cases levels <;> cases more <;> exact unrecognized_approximates h _ _
  | _ => cases levels <;> cases more <;> exact .refl _

theorem evaluate_approximates_value {needed : Nat} {expression value : Value}
    (h : evaluate needed expression = .ok value) (levels : Nat) :
    Approximates (evaluate levels expression) (.ok value) := by
  rcases Nat.le_total levels needed with hfewer | hmore
  · exact h ▸ evaluate_approximates hfewer expression
  · have hsame : Approximates (.ok value) (evaluate levels expression) :=
      h ▸ evaluate_approximates hmore expression
    rw [hsame.ok]
    exact .refl _

end SmallLisp
