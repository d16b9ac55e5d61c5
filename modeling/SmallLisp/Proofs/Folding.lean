import Mathlib.Algebra.BigOperators.Group.List.Basic
import Mathlib.Algebra.Ring.Int.Defs
import Mathlib.Data.List.Perm.Basic
import SmallLisp.Proofs.Laziness

namespace SmallLisp

namespace Arithmetic

def name : Arithmetic → String
  | add => "+"
  | multiply => "*"
  | subtract => "-"
  | divide => "/"
  | modulo => "mod"
  | quotient => "quotient"
  | remainder => "remainder"

/-- Whether an operation divides by its second number. -/
def Divides : Arithmetic → Prop
  | add | multiply | subtract => False
  | divide | modulo | quotient | remainder => True

/-- The result of an operation that does not divide by zero. -/
def result : Arithmetic → Int → Int → Int
  | add, a, b => a + b
  | multiply, a, b => a * b
  | subtract, a, b => a - b
  | divide, a, b => a.fdiv b
  | modulo, a, b => a.fmod b
  | quotient, a, b => truncatedQuotient a b
  | remainder, a, b => truncatedRemainder a b

variable {operation : Arithmetic} {first : Int} {others : List Int}

theorem apply_zero (h : operation.Divides) (a : Int) : operation.apply? a 0 = none := by
  cases operation with
  | add | multiply | subtract => exact h.elim
  | divide | modulo | quotient | remainder => rfl

theorem apply_of_nonzero {b : Int} (h : ¬ (operation.Divides ∧ b = 0)) (a : Int) :
    operation.apply? a b = some (operation.result a b) := by
  cases operation with
  | add | multiply | subtract => rfl
  | divide | modulo | quotient | remainder =>
      have hb : b ≠ 0 := fun hb => h ⟨trivial, hb⟩
      simp [result, Arithmetic.apply?, floorDivision?, truncatedDivision?, hb]

theorem foldlM_of_zero (h : operation.Divides) (hzero : 0 ∈ others) (first : Int) :
    others.foldlM operation.apply? first = none := by
  induction others generalizing first with
  | nil => cases hzero
  | cons b others ih =>
      rw [List.foldlM_cons]
      by_cases hb : b = 0
      · rw [hb, apply_zero h]
        rfl
      · have hothers : 0 ∈ others := by simpa [Ne.symm hb] using hzero
        rw [apply_of_nonzero fun hdivides => hb hdivides.2]
        exact ih hothers _

theorem foldlM_of_nonzero (h : ¬ (operation.Divides ∧ 0 ∈ others)) (first : Int) :
    others.foldlM operation.apply? first = some (others.foldl operation.result first) := by
  induction others generalizing first with
  | nil => rfl
  | cons b others ih =>
      rw [List.foldlM_cons,
        apply_of_nonzero fun hb => h ⟨hb.1, hb.2 ▸ List.mem_cons_self⟩]
      exact ih (fun hzero => h ⟨hzero.1, List.mem_cons_of_mem b hzero.2⟩) _

theorem foldl_add (first : Int) (others : List Int) :
    others.foldl add.result first = (first :: others).sum := by
  induction others generalizing first with
  | nil => simp
  | cons b others ih =>
      rw [List.foldl_cons, ih, result, List.sum_cons, List.sum_cons, List.sum_cons, add_assoc]

theorem foldl_multiply (first : Int) (others : List Int) :
    others.foldl multiply.result first = (first :: others).prod := by
  induction others generalizing first with
  | nil => simp
  | cons b others ih =>
      rw [List.foldl_cons, ih, result, List.prod_cons, List.prod_cons, List.prod_cons, mul_assoc]

theorem foldl_subtract (first : Int) (others : List Int) :
    others.foldl subtract.result first = first - others.sum := by
  induction others generalizing first with
  | nil => simp
  | cons b others ih => rw [List.foldl_cons, ih, result, List.sum_cons, sub_sub]

end Arithmetic

/-- Whether values are taken for numbers. -/
def Numbers (levels : Nat) (values : List Value) (numbers : List Int) : Prop :=
  List.Forall₂ (fun value number => Coercion.number levels value = .ok number) values numbers

/-- What an arithmetic primitive comes to. The first of the arguments that is no number decides
even if there is a zero to divide by before it. -/
inductive Comes (operation : Arithmetic) (levels : Nat) (args : List Value) : Outcome Value → Prop
  | few {shown : String} : args.length < 2 → Value.renderAll levels args = .ok shown →
      Comes operation levels args (.fail (.arity 2 args shown))
  | unshown {fault : Fault} : args.length < 2 → Value.renderAll levels args = .error fault →
      Comes operation levels args (.error fault)
  | refused {before after : List Value} {arg : Value} {fault : Fault} :
      2 ≤ args.length → args = before ++ arg :: after →
        (∀ earlier ∈ before, ∃ number, Coercion.number levels earlier = .ok number) →
          Coercion.number levels arg = .error fault → Comes operation levels args (.error fault)
  | zeroDivisor {first : Int} {others : List Int} :
      2 ≤ args.length → Numbers levels args (first :: others) → operation.Divides → 0 ∈ others →
        Comes operation levels args (.fail .divisionByZero)
  | folded {first : Int} {others : List Int} :
      2 ≤ args.length → Numbers levels args (first :: others) →
        ¬ (operation.Divides ∧ 0 ∈ others) →
          Comes operation levels args (.ok (.integer (others.foldl operation.result first)))

section
variable {operation : Arithmetic} {levels : Nat} {args : List Value} {first : Int}
  {others : List Int}

theorem applyNamed_name (operation : Arithmetic) (levels : Nat) (args : List Value) :
    applyNamed levels operation.name args = Primitive.applyFold operation levels args := by
  cases operation <;> rfl

theorem refuseCount_eq (levels : Nat) (expected : Int) (args : List Value) :
    (Primitive.refuseCount levels expected args : Outcome Value) =
      match Value.renderAll levels args with
      | .ok shown => .fail (.arity expected args shown)
      | .error fault => .error fault := by
  rw [Primitive.refuseCount, Failure.wrongArity]
  cases Value.renderAll levels args <;> rfl

theorem applyFold_cons (left right : Value) (rest : List Value) :
    Primitive.applyFold operation levels (left :: right :: rest) = (do
      let first ← Coercion.number levels left
      let others ← (right :: rest).mapM (Coercion.number levels)
      Primitive.foldNumbers operation first others) :=
  rfl

theorem exists_two (hcount : 2 ≤ args.length) : ∃ left right rest, args = left :: right :: rest :=
  match args, hcount with
  | left :: right :: rest, _ => ⟨left, right, rest, rfl⟩

theorem applyFold_of_error {fault : Fault} (hcount : 2 ≤ args.length)
    (h : args.mapM (Coercion.number levels) = .error fault) :
    Primitive.applyFold operation levels args = .error fault := by
  obtain ⟨left, right, rest, rfl⟩ := exists_two hcount
  rw [List.mapM_cons] at h
  rw [applyFold_cons]
  cases hleft : Coercion.number levels left with
  | error other =>
      rw [hleft] at h
      obtain rfl : other = fault := Except.error.inj h
      rfl
  | ok first =>
      cases hothers : (right :: rest).mapM (Coercion.number levels) with
      | ok others =>
          rw [hleft, hothers] at h
          cases h
      | error other =>
          rw [hleft, hothers] at h
          obtain rfl : other = fault := Except.error.inj h
          rfl

theorem applyFold_of_numbers (hcount : 2 ≤ args.length)
    (h : Numbers levels args (first :: others)) :
    Primitive.applyFold operation levels args = Primitive.foldNumbers operation first others := by
  obtain ⟨left, right, rest, rfl⟩ := exists_two hcount
  obtain ⟨hleft, hothers⟩ := List.forall₂_cons.mp h
  rw [applyFold_cons, hleft, Outcome.mapM_ok_iff.mpr hothers]
  rfl

theorem foldNumbers_of_zero (h : operation.Divides) (hzero : 0 ∈ others) :
    Primitive.foldNumbers operation first others = .fail .divisionByZero := by
  rw [Primitive.foldNumbers, Arithmetic.foldlM_of_zero h hzero]

theorem foldNumbers_of_nonzero (h : ¬ (operation.Divides ∧ 0 ∈ others)) :
    Primitive.foldNumbers operation first others =
      .ok (.integer (others.foldl operation.result first)) := by
  rw [Primitive.foldNumbers, Arithmetic.foldlM_of_nonzero h]

theorem applyFold_iff {outcome : Outcome Value} :
    Primitive.applyFold operation levels args = outcome ↔ Comes operation levels args outcome := by
  constructor
  · rintro rfl
    by_cases hcount : 2 ≤ args.length
    · cases hargs : args.mapM (Coercion.number levels) with
      | error fault =>
          obtain ⟨before, arg, after, hsplit, hbefore, harg⟩ := Outcome.mapM_error_iff.mp hargs
          rw [applyFold_of_error hcount hargs]
          exact .refused hcount hsplit hbefore harg
      | ok numbers =>
          have hnumbers : Numbers levels args numbers := Outcome.mapM_ok_iff.mp hargs
          cases numbers with
          | nil => simp [hnumbers.length_eq] at hcount
          | cons first others =>
              rw [applyFold_of_numbers hcount hnumbers]
              by_cases hzero : operation.Divides ∧ 0 ∈ others
              · rw [foldNumbers_of_zero hzero.1 hzero.2]
                exact .zeroDivisor hcount hnumbers hzero.1 hzero.2
              · rw [foldNumbers_of_nonzero hzero]
                exact .folded hcount hnumbers hzero
    · have hfew : args.length < 2 := Nat.lt_of_not_le hcount
      rw [Primitive.applyFold_of_few hfew, refuseCount_eq]
      cases hshown : Value.renderAll levels args with
      | ok shown => exact .few hfew hshown
      | error fault => exact .unshown hfew hshown
  · intro hcomes
    cases hcomes with
    | few hfew hshown => rw [Primitive.applyFold_of_few hfew, refuseCount_eq, hshown]
    | unshown hfew hshown => rw [Primitive.applyFold_of_few hfew, refuseCount_eq, hshown]
    | refused hcount hsplit hbefore harg =>
        exact applyFold_of_error hcount
          (Outcome.mapM_error_iff.mpr ⟨_, _, _, hsplit, hbefore, harg⟩)
    | zeroDivisor hcount hnumbers hdivides hzero =>
        rw [applyFold_of_numbers hcount hnumbers, foldNumbers_of_zero hdivides hzero]
    | folded hcount hnumbers hzero =>
        rw [applyFold_of_numbers hcount hnumbers, foldNumbers_of_nonzero hzero]

theorem applyNamed_of_numbers (hcount : 2 ≤ args.length)
    (h : Numbers levels args (first :: others)) (hdivides : ¬ operation.Divides) :
    applyNamed levels operation.name args =
      .ok (.integer (others.foldl operation.result first)) := by
  rw [applyNamed_name, applyFold_of_numbers hcount h,
    foldNumbers_of_nonzero fun hzero => hdivides hzero.1]

variable {numbers : List Int}

theorem Numbers.exists_cons (h : Numbers levels args numbers) (hcount : 2 ≤ args.length) :
    ∃ first others, numbers = first :: others := by
  apply List.exists_cons_of_ne_nil
  rintro rfl
  simp [h.length_eq] at hcount

theorem applyNamed_add (hcount : 2 ≤ args.length) (h : Numbers levels args numbers) :
    applyNamed levels "+" args = .ok (.integer numbers.sum) := by
  obtain ⟨first, others, rfl⟩ := h.exists_cons hcount
  rw [← Arithmetic.foldl_add]
  exact applyNamed_of_numbers hcount h (show ¬ Arithmetic.add.Divides from not_false)

theorem applyNamed_multiply (hcount : 2 ≤ args.length) (h : Numbers levels args numbers) :
    applyNamed levels "*" args = .ok (.integer numbers.prod) := by
  obtain ⟨first, others, rfl⟩ := h.exists_cons hcount
  rw [← Arithmetic.foldl_multiply]
  exact applyNamed_of_numbers hcount h (show ¬ Arithmetic.multiply.Divides from not_false)

theorem applyNamed_subtract (hcount : 2 ≤ args.length)
    (h : Numbers levels args (first :: others)) :
    applyNamed levels "-" args = .ok (.integer (first - others.sum)) := by
  rw [← Arithmetic.foldl_subtract]
  exact applyNamed_of_numbers hcount h (show ¬ Arithmetic.subtract.Divides from not_false)

theorem Numbers.perm {values : List Value} (h : Numbers levels args numbers)
    (hperm : args.Perm values) :
    ∃ rearranged, Numbers levels values rearranged ∧ rearranged.Perm numbers :=
  List.perm_comp_forall₂ hperm.symm h

theorem applyNamed_perm {values : List Value} (hperm : args.Perm values)
    (h : Numbers levels args numbers) :
    applyNamed levels "+" args = applyNamed levels "+" values ∧
      applyNamed levels "*" args = applyNamed levels "*" values := by
  by_cases hcount : 2 ≤ args.length
  · obtain ⟨rearranged, hvalues, hnumbers⟩ := h.perm hperm
    have hcount' : 2 ≤ values.length := hperm.length_eq ▸ hcount
    rw [applyNamed_add hcount h, applyNamed_add hcount' hvalues, applyNamed_multiply hcount h,
      applyNamed_multiply hcount' hvalues, hnumbers.sum_eq, hnumbers.prod_eq]
    exact ⟨rfl, rfl⟩
  · obtain rfl : args = values := by
      match args, hcount with
      | [], _ => exact (List.nil_perm.mp hperm).symm
      | [arg], _ => exact List.singleton_perm.mp hperm
      | _ :: _ :: _, hcount => simp at hcount
    exact ⟨rfl, rfl⟩

/-- What each arithmetic primitive comes to over any arguments. Arguments that are all taken for
numbers can be added and multiplied in any order, and a difference is that of the first number and
the sum of the others. -/
theorem arithmetic_outcome (levels : Nat) :
    (∀ (operation : Arithmetic) (args : List Value) (outcome : Outcome Value),
      applyNamed levels operation.name args = outcome ↔ Comes operation levels args outcome) ∧
    (∀ (args values : List Value) (numbers : List Int), args.Perm values →
      Numbers levels args numbers →
        applyNamed levels "+" args = applyNamed levels "+" values ∧
          applyNamed levels "*" args = applyNamed levels "*" values) ∧
    ∀ (args : List Value) (first : Int) (others : List Int), 2 ≤ args.length →
      Numbers levels args (first :: others) →
        applyNamed levels "-" args = .ok (.integer (first - others.sum)) := by
  refine ⟨?_, ?_, ?_⟩
  · intro operation args outcome
    rw [applyNamed_name, applyFold_iff]
  · intro args values numbers hperm hnumbers
    exact applyNamed_perm hperm hnumbers
  · intro args first others hcount hnumbers
    exact applyNamed_subtract hcount hnumbers

theorem arithmetic_outcome_mixed :
    Numbers 1 [.text "17 apples", .list [.integer 2], .integer 3] [17, 2, 3] ∧
      applyNamed 1 "+" [.text "17 apples", .list [.integer 2], .integer 3] =
        applyNamed 1 "+" [.integer 3, .list [.integer 2], .text "17 apples"] ∧
      applyNamed 1 "-" [.text "17 apples", .list [.integer 2], .integer 3] =
        .ok (.integer 12) := by
  have hnumbers : Numbers 1 [.text "17 apples", .list [.integer 2], .integer 3] [17, 2, 3] :=
    .cons (by decide) (.cons rfl (.cons rfl .nil))
  obtain ⟨-, hperm, hsubtract⟩ := arithmetic_outcome 1
  exact ⟨hnumbers, (hperm _ _ _ (List.reverse_perm _).symm hnumbers).1,
    hsubtract _ _ _ (by simp) hnumbers⟩

end

end SmallLisp
