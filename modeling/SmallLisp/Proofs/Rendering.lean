import SmallLisp.Proofs.Outcome
import SmallLisp.Proofs.Tree

namespace SmallLisp

/-- Whether a whole number has no more digits than are read or written. -/
def WithinDigits (number : Int) : Prop :=
  number.natAbs < Nat.pow 10 Text.digitLimit

theorem integerText_of_within {number : Int} (h : WithinDigits number) :
    integerText number = .ok number.repr.toList :=
  if_pos h

theorem integerText_of_not_within {number : Int} (h : ¬ WithinDigits number) :
    integerText number = .fail .tooLargeToRender :=
  if_neg h

theorem integerText_within (number : Int) :
    (integerText number).Within (fun _ => True) Failure.OfValues := by
  by_cases hnumber : WithinDigits number
  · rw [integerText_of_within hnumber]
    exact .ok trivial
  · rw [integerText_of_not_within hnumber]
    exact .failure trivial

namespace Value

/-- A leaf that is no number with too many digits. -/
def Short (leaf : Value) : Prop :=
  ∀ number, leaf = integer number → WithinDigits number

section
variable (levels : Nat)

-- The equations of `chars` are stated here, since making them automatically evaluates the power of
-- ten in the digit limit.

@[simp] theorem chars_boolean (truth : Bool) :
    (boolean truth).chars levels = .ok ['#', if truth then 't' else 'f'] := by
  cases levels <;> rfl

@[simp] theorem chars_integer (number : Int) :
    (integer number).chars levels = integerText number := by
  cases levels <;> rfl

@[simp] theorem chars_decimal (number : Binary64) :
    (decimal number).chars levels = .ok number.text := by
  cases levels <;> rfl

@[simp] theorem chars_text (content : String) :
    (text content).chars levels = .ok ('"' :: content.toList ++ ['"']) := by
  cases levels <;> rfl

@[simp] theorem chars_symbol (name : String) :
    (symbol name).chars levels = .ok name.toList := by
  cases levels <;> rfl

@[simp] theorem chars_character (char : Char) :
    (character char).chars levels = .ok ('#' :: '\\' :: CharacterName.spelling char) := by
  cases levels <;> rfl

@[simp] theorem chars_absent : absent.chars levels = .error (.defect .absentValue) := by
  cases levels <;> rfl

theorem chars_list_zero (items : List Value) : (list items).chars 0 = Outcome.fail .tooDeep :=
  rfl

theorem chars_list_succ (items : List Value) : (list items).chars (levels + 1) = do
    let parts ← items.mapM (chars levels)
    return '(' :: [' '].intercalate parts ++ [')'] :=
  rfl

end

theorem chars_list_ok_iff {items : List Value} {levels : Nat} {cs : List Char} :
    (list items).chars levels = .ok cs ↔
      ∃ below parts, levels = below + 1 ∧
        List.Forall₂ (fun item part => item.chars below = .ok part) items parts ∧
          cs = '(' :: ([' '].intercalate parts ++ [')']) := by
  cases levels with
  | zero => simp [chars_list_zero, Outcome.fail]
  | succ below =>
      rw [chars_list_succ]
      constructor
      · intro h
        cases hparts : items.mapM (chars below) with
        | error fault => simp [hparts, bind, Except.bind] at h
        | ok parts =>
            simp only [hparts, bind, Except.bind, pure, Except.pure, Except.ok.injEq] at h
            exact ⟨below, parts, rfl, Outcome.mapM_ok_iff.mp hparts, by simp [← h]⟩
      · rintro ⟨below, parts, hlevels, hparts, rfl⟩
        obtain rfl := Nat.succ.inj hlevels
        rw [Outcome.mapM_ok_iff.mpr hparts]
        rfl

theorem chars_within {value : Value} (hwhole : value.WellFormed) (levels : Nat) :
    (value.chars levels).Within (fun _ => True) Failure.OfValues := by
  induction value generalizing levels with
  | integer number =>
      rw [chars_integer]
      exact integerText_within number
  | list items ih =>
      cases levels with
      | zero => exact .failure trivial
      | succ below =>
          rw [wellFormed_list] at hwhole
          rw [chars_list_succ]
          have hparts := Outcome.within_mapM fun item hitem =>
            ih item hitem (hwhole item hitem) below
          exact hparts.bind fun parts _ => .ok trivial
  | absent => simp [WellFormed] at hwhole
  | _ =>
      simp only [chars_boolean, chars_decimal, chars_text, chars_symbol, chars_character]
      exact .ok trivial

theorem render_within {value : Value} (hwhole : value.WellFormed) (levels : Nat) :
    (value.render levels).Within (fun _ => True) Failure.OfValues :=
  (chars_within hwhole levels).map fun _ _ => trivial

theorem exists_chars {value : Value} {levels : Nat} (hwhole : value.WellFormed)
    (hshort : value.EveryLeaf Short) (hdepth : value.depth ≤ levels) :
    ∃ cs, value.chars levels = .ok cs := by
  induction value generalizing levels with
  | integer number =>
      have hnumber : WithinDigits number := by
        simp only [EveryLeaf] at hshort
        exact hshort number rfl
      exact ⟨number.repr.toList, by rw [chars_integer, integerText_of_within hnumber]⟩
  | list items ih =>
      cases levels with
      | zero => simp at hdepth
      | succ below =>
          rw [depth_list_le_succ_iff] at hdepth
          rw [wellFormed_list] at hwhole
          simp only [EveryLeaf] at hshort
          have hparts : ∃ parts,
              List.Forall₂ (fun item part => item.chars below = .ok part) items parts := by
            induction items with
            | nil => exact ⟨[], .nil⟩
            | cons item items ihitems =>
                rw [List.forall_mem_cons] at ih hwhole hshort hdepth
                obtain ⟨part, hpart⟩ := ih.1 hwhole.1 hshort.1 hdepth.1
                obtain ⟨parts, hparts⟩ := ihitems ih.2 hwhole.2 hdepth.2 hshort.2
                exact ⟨part :: parts, .cons hpart hparts⟩
          obtain ⟨parts, hparts⟩ := hparts
          exact ⟨_, chars_list_ok_iff.mpr ⟨below, parts, rfl, hparts, rfl⟩⟩
  | absent => simp [WellFormed] at hwhole
  | _ => simp

theorem chars_of_not_short {value : Value} {levels : Nat} (hwhole : value.WellFormed)
    (hlong : ¬ value.EveryLeaf Short) (hdepth : value.depth ≤ levels) :
    value.chars levels = .fail .tooLargeToRender := by
  induction value generalizing levels with
  | integer number =>
      have hnumber : ¬ WithinDigits number := by simpa [Short] using hlong
      rw [chars_integer, integerText_of_not_within hnumber]
  | list items ih =>
      cases levels with
      | zero => simp at hdepth
      | succ below =>
          rw [depth_list_le_succ_iff] at hdepth
          rw [wellFormed_list] at hwhole
          have hparts : items.mapM (chars below) = .fail .tooLargeToRender := by
            apply Outcome.mapM_eq_error
            · intro item hitem
              by_cases hshort : item.EveryLeaf Short
              · exact .inr (exists_chars (hwhole item hitem) hshort (hdepth item hitem))
              · exact .inl (ih item hitem (hwhole item hitem) hshort (hdepth item hitem))
            · simp only [EveryLeaf, not_forall] at hlong
              obtain ⟨item, hitem, hitemLong⟩ := hlong
              exact ⟨item, hitem, ih item hitem (hwhole item hitem) hitemLong (hdepth item hitem)⟩
          rw [chars_list_succ, hparts]
          rfl
  | _ => simp [Short] at hlong

end Value

end SmallLisp
