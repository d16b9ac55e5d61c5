import SmallLisp.Proofs.Equality

namespace SmallLisp

/-- A value whose leaves have a property and where no more lists stand inside one another than a
bound allows. -/
structure Value.Bounded (property : Value → Prop) (bound : Nat) (value : Value) : Prop where
  leaves : value.EveryLeaf property
  depth_le : value.depth ≤ bound

/-- A failure that is one of depth only where a depth exceeds the levels. -/
def Failure.Exceeds (levels depth : Nat) (failure : Failure) : Prop :=
  failure = tooDeep → levels < depth

section
variable {property : Value → Prop} {bound : Nat}

theorem Value.bounded_list_succ {items : List Value} :
    (list items).Bounded property (bound + 1) ↔ ∀ item ∈ items, item.Bounded property bound := by
  constructor
  · rintro ⟨hleaves, hdepth⟩ item hitem
    simp only [EveryLeaf] at hleaves
    exact ⟨hleaves item hitem, depth_list_le_succ_iff.mp hdepth item hitem⟩
  · intro h
    refine ⟨?_, depth_list_le_succ_iff.mpr fun item hitem => (h item hitem).depth_le⟩
    simp only [EveryLeaf]
    exact fun item hitem => (h item hitem).leaves

theorem Value.Bounded.items {items : List Value} (h : (list items).Bounded property bound) :
    ∃ below, bound = below + 1 ∧ ∀ item ∈ items, item.Bounded property below := by
  cases bound with
  | zero => exact absurd h.depth_le (by simp)
  | succ below => exact ⟨below, rfl, bounded_list_succ.mp h⟩

theorem Value.Bounded.mono {value : Value} {more : Nat} (h : value.Bounded property bound)
    (hmore : bound ≤ more) : value.Bounded property more :=
  ⟨h.leaves, Nat.le_trans h.depth_le hmore⟩

end

theorem Failure.exceeds_of_ne {levels depth : Nat} {failure : Failure} (h : failure ≠ tooDeep) :
    failure.Exceeds levels depth :=
  fun hdeep => absurd hdeep h

theorem Failure.Exceeds.mono {levels depth more : Nat} {failure : Failure}
    (h : failure.Exceeds levels depth) (hmore : depth ≤ more) : failure.Exceeds levels more :=
  fun hdeep => Nat.lt_of_lt_of_le (h hdeep) hmore

theorem Failure.Exceeds.succ {levels depth : Nat} {failure : Failure}
    (h : failure.Exceeds levels depth) : failure.Exceeds (levels + 1) (depth + 1) :=
  fun hdeep => Nat.succ_lt_succ (h hdeep)

namespace Outcome

variable {α : Type} {outcome : Outcome α} {p : α → Prop} {levels depth : Nat}

theorem Within.exceeds {allowed : Failure → Prop} (h : outcome.Within p allowed)
    (hdeep : depth ≤ levels → outcome ≠ fail .tooDeep) :
    outcome.Within p (Failure.Exceeds levels depth) := by
  cases h with
  | ok hanswer => exact .ok hanswer
  | failure _ =>
      refine .failure fun hreason => Nat.lt_of_not_le fun hlevels => hdeep hlevels ?_
      rw [hreason]

theorem Within.exceeds_mono {more : Nat} (h : outcome.Within p (Failure.Exceeds levels depth))
    (hmore : depth ≤ more) : outcome.Within p (Failure.Exceeds levels more) :=
  h.imp (fun _ _ hanswer => hanswer) fun _ hfailure => hfailure.mono hmore

theorem Stops.ne_tooDeep (h : outcome.Stops) : outcome ≠ fail .tooDeep := by
  cases h <;> exact nofun

theorem Settles.ne_tooDeep {outcome : Outcome Bool} {question oversize : Prop}
    (h : outcome.Settles question oversize) : outcome ≠ fail .tooDeep := by
  cases h with
  | stops _ hstops => exact hstops.ne_tooDeep
  | decides _ hdecides =>
      obtain ⟨answer, rfl, -⟩ := hdecides
      exact nofun

end Outcome

theorem Coercion.Tries.ne_tooDeep {α : Type} {outcome : Outcome α} {taken : Option α}
    {oversize : Prop} (h : Tries outcome taken oversize) : outcome ≠ .fail .tooDeep := by
  cases h with
  | stops _ hstops => exact hstops.ne_tooDeep
  | takes _ htakes => cases htakes <;> exact nofun

section
variable {value : Value} (levels : Nat) (hwhole : value.WellFormed)

include hwhole

theorem Value.chars_exceeds :
    (value.chars levels).Within (fun _ => True) (Failure.Exceeds levels value.depth) := by
  refine (chars_within hwhole levels).exceeds fun hlevels => ?_
  by_cases hshort : value.EveryLeaf Short
  · obtain ⟨cs, hcs⟩ := exists_chars hwhole hshort hlevels
    rw [hcs]
    exact nofun
  · rw [chars_of_not_short hwhole hshort hlevels]
    exact nofun

theorem Value.render_exceeds :
    (value.render levels).Within (fun _ => True) (Failure.Exceeds levels value.depth) :=
  (chars_exceeds levels hwhole).map fun _ _ => trivial

namespace Coercion

theorem refuse_exceeds {α : Type} {p : α → Prop} (wanted : String) :
    (refuse levels wanted value : Outcome α).Within p (Failure.Exceeds levels value.depth) :=
  (refuse_within levels wanted hwhole).exceeds fun hlevels =>
    (refuse_tries wanted hwhole hlevels).ne_tooDeep

theorem number_exceeds :
    (number levels value).Within (fun _ => True) (Failure.Exceeds levels value.depth) :=
  (number_within levels hwhole).exceeds fun hlevels => (number_tries hwhole hlevels).ne_tooDeep

theorem text_exceeds :
    (text levels value).Within (fun _ => True) (Failure.Exceeds levels value.depth) :=
  (text_within levels hwhole).exceeds fun hlevels => (text_tries hwhole hlevels).ne_tooDeep

theorem boolean_exceeds :
    (boolean levels value).Within (fun _ => True) (Failure.Exceeds levels value.depth) :=
  (boolean_within levels hwhole).exceeds fun hlevels => (boolean_tries hwhole hlevels).ne_tooDeep

end Coercion

end

namespace Comparison

variable {left right : Value} (levels : Nat) (hleft : left.WellFormed) (hright : right.WellFormed)

include hleft hright

theorem strict_exceeds :
    (strict levels left right).Within (fun _ => True)
      (Failure.Exceeds levels (max left.depth right.depth)) := by
  refine (strict_within levels hleft hright).exceeds fun hlevels => ?_
  have hdepth : left.depth ≤ levels := Nat.le_trans (Nat.le_max_left _ _) hlevels
  exact (strict_decides hleft hdepth).settles.ne_tooDeep

theorem loose_exceeds :
    (loose levels left right).Within (fun _ => True)
      (Failure.Exceeds levels (max left.depth right.depth)) := by
  refine (loose_within levels hleft hright).exceeds fun hlevels => ?_
  obtain ⟨hleftDepth, hrightDepth⟩ := Nat.max_le.mp hlevels
  exact (loose_settles hleft hright hleftDepth hrightDepth).ne_tooDeep

end Comparison

/-- A property of leaves that truth values and whole numbers have and holes do not. -/
structure Value.Lasting (property : Value → Prop) : Prop where
  boolean (truth : Bool) : property (.boolean truth)
  integer (number : Int) : property (.integer number)
  ne_absent {leaf : Value} : property leaf → leaf ≠ .absent

theorem Value.Bounded.wellFormed {property : Value → Prop} {bound : Nat} {value : Value}
    (h : value.Bounded property bound) (hlasting : Lasting property) : value.WellFormed :=
  h.leaves.imp fun _ => hlasting.ne_absent

namespace Primitive

variable {property : Value → Prop} {bound : Nat} {args : List Value} (levels : Nat)
  (hlasting : Value.Lasting property) (hargs : ∀ arg ∈ args, arg.Bounded property bound)

theorem bounded_boolean (hlasting : Value.Lasting property) (truth : Bool) :
    (Value.boolean truth).Bounded property bound :=
  ⟨by simpa using hlasting.boolean truth, by simp⟩

theorem bounded_integer (hlasting : Value.Lasting property) (number : Int) :
    (Value.integer number).Bounded property bound :=
  ⟨by simpa using hlasting.integer number, by simp⟩

include hlasting hargs

theorem refuseCount_bounded {α : Type} {p : α → Prop} (expected : Int) :
    (refuseCount levels expected args : Outcome α).Within p (Failure.Exceeds levels bound) := by
  have hparts := Outcome.within_mapM fun arg harg =>
    (Value.chars_exceeds levels ((hargs arg harg).wellFormed hlasting)).exceeds_mono
      (hargs arg harg).depth_le
  have hshown : (Value.renderAll levels args).Within (fun _ => True)
      (Failure.Exceeds levels bound) :=
    hparts.bind fun _ _ => .ok trivial
  exact Outcome.within_raise (hshown.map fun _ _ => Failure.exceeds_of_ne (by simp))

theorem applyFold_bounded (operation : Arithmetic) :
    (applyFold operation levels args).Within (Value.Bounded property (bound + 1))
      (Failure.Exceeds levels bound) := by
  have hnumber (arg : Value) (harg : arg ∈ args) :
      (Coercion.number levels arg).Within (fun _ => True) (Failure.Exceeds levels bound) :=
    (Coercion.number_exceeds levels ((hargs arg harg).wellFormed hlasting)).exceeds_mono
      (hargs arg harg).depth_le
  unfold applyFold
  split
  · rename_i left right others
    rw [List.forall_mem_cons] at hnumber
    refine hnumber.1.bind fun first _ => ?_
    refine (Outcome.within_mapM hnumber.2).bind fun numbers _ => ?_
    unfold foldNumbers
    split
    · exact .ok (bounded_integer hlasting _)
    · exact .failure (Failure.exceeds_of_ne (by simp))
  · exact refuseCount_bounded levels hlasting hargs 2

theorem applyTest_bounded {α : Type} {take : Nat → Value → Outcome α} (test : α → α → Bool)
    (htake : ∀ value : Value, value.WellFormed →
      (take levels value).Within (fun _ => True) (Failure.Exceeds levels value.depth)) :
    (applyTest take test levels args).Within (Value.Bounded property (bound + 1))
      (Failure.Exceeds levels bound) := by
  have htaken (arg : Value) (harg : arg ∈ args) :
      (take levels arg).Within (fun _ => True) (Failure.Exceeds levels bound) :=
    (htake arg ((hargs arg harg).wellFormed hlasting)).exceeds_mono (hargs arg harg).depth_le
  unfold applyTest
  split
  · rename_i left right
    refine (htaken left (by simp)).bind fun a _ => ?_
    refine (htaken right (by simp)).bind fun b _ => ?_
    exact .ok (bounded_boolean hlasting _)
  · exact refuseCount_bounded levels hlasting hargs 2

theorem refuse_bounded {α : Type} {p : α → Prop} (wanted : String) {arg : Value}
    (hmem : arg ∈ args) :
    (Coercion.refuse levels wanted arg : Outcome α).Within p (Failure.Exceeds levels bound) :=
  (Coercion.refuse_exceeds levels ((hargs arg hmem).wellFormed hlasting) wanted).exceeds_mono
    (hargs arg hmem).depth_le

theorem applyHead_bounded :
    (applyHead levels args).Within (Value.Bounded property (bound + 1))
      (Failure.Exceeds levels bound) := by
  unfold applyHead
  split
  · rename_i first rest
    obtain ⟨below, rfl, hitems⟩ := (hargs (.list (first :: rest)) (by simp)).items
    exact .ok ((hitems first (by simp)).mono (by omega))
  · exact refuse_bounded levels hlasting hargs "pair" (by simp)
  · exact refuseCount_bounded levels hlasting hargs 1

theorem applyTail_bounded :
    (applyTail levels args).Within (Value.Bounded property (bound + 1))
      (Failure.Exceeds levels bound) := by
  unfold applyTail
  split
  · rename_i first rest
    obtain ⟨below, rfl, hitems⟩ := (hargs (.list (first :: rest)) (by simp)).items
    have hrest : (Value.list rest).Bounded property (below + 1) :=
      Value.bounded_list_succ.mpr fun item hitem => hitems item (List.mem_cons_of_mem _ hitem)
    exact .ok (hrest.mono (by omega))
  · exact refuse_bounded levels hlasting hargs "pair" (by simp)
  · exact refuseCount_bounded levels hlasting hargs 1

theorem applyPrepend_bounded :
    (applyPrepend levels args).Within (Value.Bounded property (bound + 1))
      (Failure.Exceeds levels bound) := by
  unfold applyPrepend
  split
  · rename_i first rest
    obtain ⟨below, hbelow, hitems⟩ := (hargs (.list rest) (by simp)).items
    refine .ok (Value.bounded_list_succ.mpr (List.forall_mem_cons.mpr ⟨hargs first (by simp), ?_⟩))
    exact fun item hitem => (hitems item hitem).mono (by omega)
  · exact .ok (Value.bounded_list_succ.mpr hargs)
  · exact refuseCount_bounded levels hlasting hargs 2

theorem applyComparison_bounded {compare : Nat → Value → Value → Outcome Bool}
    (hcompare : ∀ left right : Value, left.WellFormed → right.WellFormed →
      (compare levels left right).Within (fun _ => True)
        (Failure.Exceeds levels (max left.depth right.depth))) :
    (applyComparison compare levels args).Within (Value.Bounded property (bound + 1))
      (Failure.Exceeds levels bound) := by
  unfold applyComparison
  split
  · rename_i left right
    have hleft := hargs left (by simp)
    have hright := hargs right (by simp)
    have hsame := (hcompare left right (hleft.wellFormed hlasting)
      (hright.wellFormed hlasting)).exceeds_mono (Nat.max_le.mpr ⟨hleft.depth_le, hright.depth_le⟩)
    exact hsame.map fun truth _ => bounded_boolean hlasting truth
  · exact refuseCount_bounded levels hlasting hargs 2

theorem apply_bounded (primitive : Primitive) :
    (primitive.apply levels args).Within (Value.Bounded property (bound + 1))
      (Failure.Exceeds levels bound) := by
  have hnumber (value : Value) (hwhole : value.WellFormed) := Coercion.number_exceeds levels hwhole
  have htext (value : Value) (hwhole : value.WellFormed) := Coercion.text_exceeds levels hwhole
  have hboolean (value : Value) (hwhole : value.WellFormed) :=
    Coercion.boolean_exceeds levels hwhole
  cases primitive with
  | fold operation => exact applyFold_bounded levels hlasting hargs operation
  | compareNumbers relation => exact applyTest_bounded levels hlasting hargs _ hnumber
  | compareTexts relation => exact applyTest_bounded levels hlasting hargs _ htext
  | connect connective =>
      cases connective with
      | both => exact applyTest_bounded levels hlasting hargs _ hboolean
      | either => exact applyTest_bounded levels hlasting hargs _ hboolean
  | headOf => exact applyHead_bounded levels hlasting hargs
  | tailOf => exact applyTail_bounded levels hlasting hargs
  | prepend => exact applyPrepend_bounded levels hlasting hargs
  | strictlyEqual =>
      exact applyComparison_bounded levels hlasting hargs fun _ _ =>
        Comparison.strict_exceeds levels
  | looselyEqual =>
      exact applyComparison_bounded levels hlasting hargs fun _ _ =>
        Comparison.loose_exceeds levels

end Primitive

section
variable {property : Value → Prop} {bound : Nat}

theorem applyNamed_bounded (hlasting : Value.Lasting property) (levels : Nat) (name : String)
    {args : List Value} (hargs : ∀ arg ∈ args, arg.Bounded property bound) :
    (applyNamed levels name args).Within (Value.Bounded property (bound + 1))
      (Failure.Exceeds levels bound) := by
  unfold applyNamed
  split
  · exact Primitive.apply_bounded levels hlasting hargs _
  · exact .failure (Failure.exceeds_of_ne (by simp))

theorem evaluate_bounded (hlasting : Value.Lasting property) (levels : Nat) {expression : Value}
    (h : expression.Bounded property bound) :
    (evaluate levels expression).Within (Value.Bounded property bound)
      (Failure.Exceeds levels bound) := by
  induction levels using Nat.strongRecOn generalizing expression bound with
  | ind levels ih =>
      unfold evaluate
      split
      · obtain ⟨inner, rfl, -⟩ := h.items
        exact .failure fun _ => Nat.succ_pos inner
      · rename_i below head tail
        obtain ⟨inner, rfl, hitems⟩ := h.items
        rw [List.forall_mem_cons] at hitems
        have hbelow {operand : Value} (hoperand : operand.Bounded property inner) :
            (evaluate below operand).Within (Value.Bounded property (inner + 1))
              (Failure.Exceeds (below + 1) (inner + 1)) :=
          (ih below (Nat.lt_succ_self below) hoperand).imp
            (fun _ _ hanswer => hanswer.mono (Nat.le_succ _)) fun _ hfailure => hfailure.succ
        have hform := Form.every_of head hitems.2
        cases hof : Form.of head tail with
        | quotation expression =>
            rw [hof] at hform
            exact .ok (hform.mono (Nat.le_succ _))
        | choice condition consequent alternative =>
            rw [hof] at hform
            obtain ⟨hcondition, hconsequent, halternative⟩ := hform
            refine (hbelow hcondition).bind fun answer _ => ?_
            split
            · exact hbelow halternative
            · exact hbelow hconsequent
        | application name args =>
            rw [hof] at hform
            have hanswers := Outcome.within_mapM fun arg harg =>
              ih below (Nat.lt_succ_self below) (hform arg harg)
            have happlied : (args.mapM (evaluate below) >>= applyNamed below name).Within _ _ :=
              hanswers.bind fun answers hbounded => applyNamed_bounded hlasting below name hbounded
            exact happlied.imp (fun _ _ hanswer => hanswer) fun _ hfailure => hfailure.succ
      · exact .ok h
      · exact .ok h
      · exact .ok h
      · exact .ok h
      · exact .ok h
      · have hshown := (Value.render_exceeds levels (h.wellFormed hlasting)).exceeds_mono h.depth_le
        exact Outcome.within_raise (hshown.map fun _ _ => Failure.exceeds_of_ne (by simp))

end

theorem Value.lasting_ne_absent : Value.Lasting (· ≠ absent) where
  boolean _ := by simp
  integer _ := by simp
  ne_absent h := h

theorem bounded_of_evaluate {levels : Nat} {expression value : Value}
    (hwhole : expression.WellFormed) (h : evaluate levels expression = .ok value) :
    value.Bounded (· ≠ .absent) expression.depth := by
  have hbounded : expression.Bounded (· ≠ .absent) expression.depth := ⟨hwhole, Nat.le_refl _⟩
  have hwithin := evaluate_bounded Value.lasting_ne_absent levels hbounded
  rw [h] at hwithin
  cases hwithin with
  | ok hvalue => exact hvalue

end SmallLisp
