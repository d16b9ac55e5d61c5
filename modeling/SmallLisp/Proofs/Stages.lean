import Mathlib.Logic.Relation
import SmallLisp.Proofs.Depth

/-!
The stages of an evaluation: the expressions that it comes to and the values that it looks into,
with the levels that are left for them. Depth and levels go down together, so a stage is never
deeper than the levels allow unless the whole expression is; and evaluation is too deep only by way
of a stage that has no level left.
-/

namespace SmallLisp

namespace Value

/-- That a value stands in another one with so many lists around it. -/
inductive PartAt : Nat → Value → Value → Prop
  | whole (value : Value) : PartAt 0 value value
  | inside {level : Nat} {part item : Value} {items : List Value} :
      item ∈ items → PartAt level part item → PartAt (level + 1) part (list items)

theorem PartAt.depth_le {level : Nat} {part whole : Value} (h : PartAt level part whole) :
    part.depth + level ≤ whole.depth := by
  induction h with
  | whole value => exact Nat.le_refl _
  | inside hitem _ ih =>
      have hdepth := depth_lt_of_mem hitem
      omega

theorem PartAt.wellFormed {level : Nat} {part whole : Value} (h : PartAt level part whole)
    (hwhole : whole.WellFormed) : part.WellFormed := by
  induction h with
  | whole value => exact hwhole
  | inside hitem _ ih => exact ih (wellFormed_list.mp hwhole _ hitem)

/-- An expression that is no form of the language. -/
inductive Formless : Value → Prop
  | symbol (name : String) : Formless (symbol name)
  | absent : Formless absent
  | empty : Formless (list [])
  | headless {first : Value} (rest : List Value) : (∀ name, first ≠ symbol name) →
      Formless (list (first :: rest))

end Value

/-- The expressions in a form that can be evaluated. -/
def Form.operands : Form → List Value
  | quotation _ => []
  | choice condition consequent alternative => [condition, consequent, alternative]
  | application _ args => args

theorem Form.operands_subset (name : String) (args : List Value) :
    (Form.of name args).operands ⊆ args := by
  unfold Form.of
  split
  · split
    · exact List.nil_subset _
    · exact List.Subset.refl _
  · split <;> exact List.Subset.refl _
  · exact List.Subset.refl _

theorem Form.args_subset {head name : String} {tail args : List Value}
    (h : Form.of head tail = .application name args) : args ⊆ tail := by
  have hoperands := operands_subset head tail
  rwa [h] at hoperands

/-- Where an evaluation stands: at an expression, or at a value that is shown, taken for something
or compared; and the levels that are left for it. -/
inductive Stage
  | evaluating (levels : Nat) (expression : Value)
  | examining (levels : Nat) (value : Value)

namespace Stage

def levels : Stage → Nat
  | evaluating levels _ => levels
  | examining levels _ => levels

def subject : Stage → Value
  | evaluating _ expression => expression
  | examining _ value => value

/-- What a stage leads to. A form goes on to its operands, and a function to what its arguments
evaluate to. An expression that is no form is shown. Whatever looks into a list goes on to its
elements. -/
inductive Leads : Stage → Stage → Prop
  | operand {below : Nat} {head : String} {tail : List Value} {operand : Value} :
      operand ∈ (Form.of head tail).operands →
        Leads (evaluating (below + 1) (.list (.symbol head :: tail))) (evaluating below operand)
  | argument {below : Nat} {head name : String} {tail args : List Value} {arg answer : Value} :
      Form.of head tail = .application name args → arg ∈ args → evaluate below arg = .ok answer →
        Leads (evaluating (below + 1) (.list (.symbol head :: tail))) (examining below answer)
  | formless {levels : Nat} {expression : Value} : expression.Formless →
      Leads (evaluating levels expression) (examining levels expression)
  | item {below : Nat} {item : Value} {items : List Value} : item ∈ items →
      Leads (examining (below + 1) (.list items)) (examining below item)

/-- A stage that would have to go down into a list and has no level left. -/
inductive Exhausted : Stage → Prop
  | form (head : String) (tail : List Value) :
      Exhausted (evaluating 0 (.list (.symbol head :: tail)))
  | list (items : List Value) : Exhausted (examining 0 (.list items))

variable {stage next : Stage} {levels : Nat}

theorem Exhausted.depth_lt (h : stage.Exhausted) : stage.levels < stage.subject.depth := by
  cases h <;> exact Nat.succ_pos _

/-- A stage and one that it leads to at last. -/
def ComesTo : Stage → Stage → Prop :=
  Relation.ReflTransGen Leads

theorem Leads.wellFormed (h : stage.Leads next) (hwhole : stage.subject.WellFormed) :
    next.subject.WellFormed := by
  cases h with
  | operand hoperand =>
      have htail := List.forall_mem_cons.mp (Value.wellFormed_list.mp hwhole)
      exact htail.2 _ (Form.operands_subset _ _ hoperand)
  | argument hform harg hanswer =>
      have htail := List.forall_mem_cons.mp (Value.wellFormed_list.mp hwhole)
      have harg := htail.2 _ (Form.args_subset hform harg)
      exact (bounded_of_evaluate harg hanswer).leaves
  | formless _ => exact hwhole
  | item hitem => exact Value.wellFormed_list.mp hwhole _ hitem

theorem Leads.depth_le (h : stage.Leads next) (hwhole : stage.subject.WellFormed) :
    next.subject.depth + stage.levels ≤ stage.subject.depth + next.levels := by
  cases h with
  | @operand below head tail operand hoperand =>
      have hmem := List.mem_cons_of_mem (.symbol head) (Form.operands_subset head tail hoperand)
      have hdepth := Value.depth_lt_of_mem hmem
      simp only [subject, levels]
      omega
  | @argument below head name tail args arg answer hform harg hanswer =>
      have hmem := List.mem_cons_of_mem (.symbol head) (Form.args_subset hform harg)
      have hdepth := Value.depth_lt_of_mem hmem
      have hwell := Value.wellFormed_list.mp hwhole arg hmem
      have hvalue := (bounded_of_evaluate hwell hanswer).depth_le
      simp only [subject, levels]
      omega
  | formless _ => exact Nat.le_refl _
  | @item below item items hitem =>
      have hdepth := Value.depth_lt_of_mem hitem
      simp only [subject, levels]
      omega

theorem Leads.levels_le (h : stage.Leads next) : next.levels ≤ stage.levels := by
  cases h with
  | formless _ => exact Nat.le_refl _
  | _ => exact Nat.le_succ _

theorem ComesTo.depth_le (h : stage.ComesTo next) (hwhole : stage.subject.WellFormed) :
    next.subject.WellFormed ∧ next.levels ≤ stage.levels ∧
      next.subject.depth + stage.levels ≤ stage.subject.depth + next.levels := by
  induction h with
  | refl => exact ⟨hwhole, Nat.le_refl _, Nat.le_refl _⟩
  | tail _ hleads ih =>
      obtain ⟨hnext, hlevels, hdepth⟩ := ih
      have hlevels' := hleads.levels_le
      have hdepth' := hleads.depth_le hnext
      exact ⟨hleads.wellFormed hnext, by omega, by omega⟩

/-- Whether a stage comes to one that has no level left. -/
def RunsOut (stage : Stage) : Prop :=
  ∃ next, stage.ComesTo next ∧ next.Exhausted

theorem Leads.runsOut (h : stage.Leads next) (hnext : next.RunsOut) : stage.RunsOut := by
  obtain ⟨last, hcomes, hexhausted⟩ := hnext
  exact ⟨last, .head h hcomes, hexhausted⟩

theorem Exhausted.runsOut (h : stage.Exhausted) : stage.RunsOut :=
  ⟨stage, .refl, h⟩

theorem runsOut_of_deep {levels : Nat} {value : Value} (h : levels < value.depth) :
    (examining levels value).RunsOut := by
  induction levels generalizing value with
  | zero =>
      cases value with
      | list items => exact (Exhausted.list items).runsOut
      | _ => simp at h
  | succ below ih =>
      cases value with
      | list items =>
          have hitem : ∃ item ∈ items, below < item.depth := by
            have hnot : ¬ ∀ item ∈ items, item.depth ≤ below := fun hitems =>
              Nat.not_lt.mpr (Value.depth_list_le_succ_iff.mpr hitems) h
            simpa using hnot
          obtain ⟨item, hmem, hdepth⟩ := hitem
          exact (Leads.item hmem).runsOut (ih hdepth)
      | _ => simp at h

theorem exists_deep_of_applyNamed {name : String} {args : List Value}
    (hargs : ∀ arg ∈ args, arg.WellFormed) (h : applyNamed levels name args = .fail .tooDeep) :
    ∃ arg ∈ args, levels < arg.depth := by
  have hbounded : ∀ arg ∈ args, arg.Bounded (· ≠ .absent) (Value.greatestDepth args) :=
    fun arg harg => ⟨hargs arg harg, Value.greatestDepth_le_iff.mp (Nat.le_refl _) arg harg⟩
  have hwithin := applyNamed_bounded Value.lasting_ne_absent levels name hbounded
  rw [h] at hwithin
  cases hwithin with
  | failure hexceeds =>
      have hnot : ¬ ∀ arg ∈ args, arg.depth ≤ levels := fun hdepth =>
        Nat.not_lt.mpr (Value.greatestDepth_le_iff.mpr hdepth) (hexceeds rfl)
      simpa using hnot

theorem runsOut_of_formless {expression : Value} (hwhole : expression.WellFormed)
    (hform : expression.Formless)
    (h : (Outcome.raise (Failure.unrecognizedForm levels "Unrecognized special form" expression) :
      Outcome Value) = .fail .tooDeep) : (evaluating levels expression).RunsOut := by
  have hdeep : levels < expression.depth := by
    have hshown := Value.render_exceeds levels hwhole
    rw [Failure.unrecognizedForm] at h
    generalize expression.render levels = outcome at h hshown
    cases hshown with
    | ok _ => cases h
    | failure hexceeds =>
        cases h
        exact hexceeds rfl
  exact (Leads.formless hform).runsOut (runsOut_of_deep hdeep)

section
variable {below : Nat} {head : String} {tail : List Value}

theorem runsOut_of_form (hwhole : (Value.list (.symbol head :: tail)).WellFormed)
    (hoperands : ∀ operand ∈ tail, evaluate below operand = .fail .tooDeep →
      (evaluating below operand).RunsOut)
    (h : evaluate (below + 1) (.list (.symbol head :: tail)) = .fail .tooDeep) :
    (evaluating (below + 1) (.list (.symbol head :: tail))).RunsOut := by
  have hoperand (operand : Value) (hmem : operand ∈ (Form.of head tail).operands)
      (hdeep : evaluate below operand = .fail .tooDeep) :
      (evaluating (below + 1) (.list (.symbol head :: tail))).RunsOut :=
    (Leads.operand hmem).runsOut
      (hoperands operand (Form.operands_subset head tail hmem) hdeep)
  rw [evaluate] at h
  cases hform : Form.of head tail with
  | quotation expression =>
      rw [hform] at h
      cases h
  | choice condition consequent alternative =>
      rw [hform] at h hoperand
      rcases Outcome.bind_error_iff.mp h with hcondition | ⟨answer, -, hbranch⟩
      · exact hoperand condition (by simp [Form.operands]) hcondition
      · split at hbranch
        · exact hoperand alternative (by simp [Form.operands]) hbranch
        · exact hoperand consequent (by simp [Form.operands]) hbranch
  | application name args =>
      rw [hform] at h hoperand
      rcases Outcome.bind_error_iff.mp h with hfails | ⟨answers, hanswers, happlied⟩
      · obtain ⟨before, failing, after, rfl, -, hfailing⟩ := Outcome.mapM_error_iff.mp hfails
        exact hoperand failing (by simp [Form.operands]) hfailing
      · have hanswer (answer : Value) (hmem : answer ∈ answers) : answer.WellFormed := by
          obtain ⟨arg, harg, hvalue⟩ := Outcome.exists_of_mem_mapM hanswers hmem
          have htail := List.forall_mem_cons.mp (Value.wellFormed_list.mp hwhole)
          exact (bounded_of_evaluate (htail.2 arg (Form.args_subset hform harg)) hvalue).leaves
        obtain ⟨answer, hmem, hdeep⟩ := exists_deep_of_applyNamed hanswer happlied
        obtain ⟨arg, harg, hvalue⟩ := Outcome.exists_of_mem_mapM hanswers hmem
        exact (Leads.argument hform harg hvalue).runsOut (runsOut_of_deep hdeep)

end

/-- Where evaluation is too deep, it has run out of levels. -/
theorem runsOut_of_evaluate {expression : Value} (hwhole : expression.WellFormed)
    (h : evaluate levels expression = .fail .tooDeep) :
    (evaluating levels expression).RunsOut := by
  induction expression generalizing levels with
  | list items ih =>
      cases items with
      | nil => exact runsOut_of_formless hwhole .empty (by cases levels <;> exact h)
      | cons first tail =>
          cases first with
          | symbol head =>
              cases levels with
              | zero => exact (Exhausted.form head tail).runsOut
              | succ below =>
                  refine runsOut_of_form hwhole (fun operand hoperand => ?_) h
                  have hmem := List.mem_cons_of_mem (.symbol head) hoperand
                  exact ih operand hmem (Value.wellFormed_list.mp hwhole operand hmem)
          | _ =>
              exact runsOut_of_formless hwhole (.headless tail (by simp))
                (by cases levels <;> exact h)
  | symbol name => exact runsOut_of_formless hwhole (.symbol name) (by cases levels <;> exact h)
  | absent => exact runsOut_of_formless hwhole .absent (by cases levels <;> exact h)
  | _ => cases levels <;> cases h

end Stage

end SmallLisp
