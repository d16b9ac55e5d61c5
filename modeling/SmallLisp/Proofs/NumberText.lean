import SmallLisp.Proofs.Agreement
import SmallLisp.Proofs.RoundTrip

namespace SmallLisp

open Text Comparison

section
variable {levels : Nat} {number : Int} {left right : Value}

theorem withinDigits_iff : WithinDigits number ↔ number.natAbs < 10 ^ digitLimit := by
  rw [WithinDigits, Nat.pow_eq]

theorem integerText_stops_iff :
    integerText number = .fail .tooLargeToRender ↔ 10 ^ digitLimit ≤ number.natAbs := by
  rw [← Nat.not_lt, ← withinDigits_iff]
  constructor
  · intro htext hwithin
    rw [integerText_of_within hwithin] at htext
    cases htext
  · exact integerText_of_not_within

theorem Value.nested_succ (depth : Nat) (value : Value) :
    value.nested (depth + 1) = .list [value.nested depth] := by
  induction depth generalizing value with
  | zero => rfl
  | succ depth ih => exact ih (.list [value])

theorem Coercion.number_nested {value : Value} {depth : Nat}
    (h : ∀ levels, Coercion.number levels value = .ok number) (hdepth : depth ≤ levels) :
    Coercion.number levels (value.nested depth) = .ok number := by
  induction depth generalizing levels with
  | zero => exact h levels
  | succ depth ih =>
      cases levels with
      | zero => simp at hdepth
      | succ levels =>
          rw [Value.nested_succ, Coercion.number]
          exact ih (Nat.le_of_succ_le_succ hdepth)

theorem Coercion.number_padded (h : WithinDigits number) {blanks after : List Char}
    (hblanks : ∀ c ∈ blanks, isBlank c) (hafter : LeadingInteger.Unjoined after) (levels : Nat) :
    Coercion.number levels
      (.text (String.ofList (blanks ++ (number.repr.toList ++ after)))) = .ok number := by
  rw [Coercion.number, String.toList_ofList, LeadingInteger.ofText_padded hblanks hafter h]

theorem loose_of_number (hlist : ∀ lefts rights, left = .list lefts → right ≠ .list rights)
    (hleft : Coercion.number levels left = .ok number)
    (hright : Coercion.number levels right = .ok number) : loose levels left right = .ok true := by
  have hagree : agree (Coercion.number levels) left right = .ok true := by
    simp [agree, hleft, hright, bind, Except.bind, pure, Except.pure]
  rw [loose_of_not_list hlist, loosely, hagree]
  rfl

theorem holds_of_number (hlist : ∀ lefts rights, left = .list lefts → right ≠ .list rights)
    (hleft : Coercion.number levels left = .ok number)
    (hright : Coercion.number levels right = .ok number) :
    ∀ name ∈ ["=", "equal?"], Holds levels name left right := by
  intro name hname
  rw [List.mem_pair] at hname
  rcases hname with rfl | rfl
  · have htest : Primitive.applyTest Coercion.number
        (fun a b => Relation.equal.holds (orderNumbers a b)) levels [left, right] =
          .ok (.boolean true) :=
      applyTest_iff.mpr ⟨number, number, hleft, hright, by simp [Relation.holds, orderNumbers]⟩
    exact htest
  · have hloose : Primitive.applyComparison loose levels [left, right] = .ok (.boolean true) :=
      applyComparison_iff.mpr (loose_of_number hlist hleft hright)
    exact hloose

theorem read_repr (hnonneg : 0 ≤ number) (hwithin : WithinDigits number)
    (options : Reader.Options) :
    Reader.read options number.repr.toList = .ok (.integer number) := by
  obtain ⟨source, hrender, hread⟩ := read_render_iff (.integer number) options.levels
    (by simp [Value.WellFormed]) (by simp [Value.Exact]) (by simpa [Value.Short] using hwithin)
    (by simp)
  rw [Value.render, Value.chars_integer, integerText_of_within hwithin] at hrender
  obtain rfl := Except.ok.inj hrender
  have hnumber := (hread options.strict).mpr (Value.readable_integer.mpr ⟨hnonneg, hwithin⟩)
  rwa [String.toList_ofList] at hnumber

/-- A number has a text unless it has too many digits. Its text is taken for the number and is
loosely equal to it, after blanks, before whatever does not go on with it and inside lists as well;
without a sign it also reads as the number. -/
theorem integer_text_inverse (levels : Nat) (number : Int) :
    (Coercion.text levels (.integer number) = .fail .tooLargeToRender ↔
      10 ^ digitLimit ≤ number.natAbs) ∧
    (number.natAbs < 10 ^ digitLimit →
      ∃ digits, Coercion.text levels (.integer number) = .ok digits ∧
        (∀ (blanks after : List Char) (depth : Nat), (∀ c ∈ blanks, isBlank c) →
          LeadingInteger.Unjoined after → depth ≤ levels →
            Coercion.number levels (Value.nested depth
              (.text (String.ofList (blanks ++ (digits ++ after))))) = .ok number) ∧
        (∀ name ∈ ["=", "equal?"],
          Holds levels name (.integer number) (.text (String.ofList digits)) ∧
          Holds levels name (.text (String.ofList digits)) (.integer number)) ∧
        (0 ≤ number →
          ∀ options, Reader.read options digits = .ok (.integer number))) := by
  refine ⟨integerText_stops_iff, fun hnumber => ?_⟩
  have hwithin : WithinDigits number := withinDigits_iff.mpr hnumber
  refine ⟨number.repr.toList, integerText_of_within hwithin, ?_, ?_, ?_⟩
  · intro blanks after depth hblanks hafter hdepth
    exact Coercion.number_nested (Coercion.number_padded hwithin hblanks hafter) hdepth
  · intro name hname
    have hnumber : Coercion.number levels (.integer number) = .ok number := by
      cases levels <;> rfl
    have htext : Coercion.number levels (.text (String.ofList number.repr.toList)) =
        .ok number := by
      rw [Coercion.number, String.toList_ofList, LeadingInteger.ofText_repr hwithin]
    exact ⟨holds_of_number (by simp) hnumber htext name hname,
      holds_of_number (by simp) htext hnumber name hname⟩
  · intro hnonneg
    exact read_repr hnonneg hwithin

theorem integer_text_inverse_minus :
    ∃ digits, Coercion.text 2 (.integer (-7)) = .ok digits ∧
      Coercion.number 2 (.list [.list [.text (String.ofList ([' '] ++ (digits ++ [','])))]]) =
        .ok (-7) ∧
      Holds 2 "equal?" (.integer (-7)) (.text (String.ofList digits)) := by
  have hseven : (-7 : Int).natAbs < 10 ^ digitLimit :=
    calc
      (-7 : Int).natAbs < 10 ^ 1 := by decide
      _ ≤ 10 ^ digitLimit := Nat.pow_le_pow_right (by decide) (by decide)
  obtain ⟨digits, htext, hnumber, hequal, -⟩ := (integer_text_inverse 2 (-7)).2 hseven
  have hspace : ∀ c ∈ [' '], isBlank c := List.forall_mem_singleton.mpr (by decide)
  have hcomma : LeadingInteger.Unjoined [','] := Token.breaks_cons.mpr (by decide)
  exact ⟨digits, htext, hnumber [' '] [','] 2 hspace hcomma (Nat.le_refl 2),
    (hequal "equal?" (by simp)).1⟩

end

end SmallLisp
