import Mathlib.Data.List.Induction
import Mathlib.Data.Nat.Digits.Defs
import SmallLisp.Text.Numeral

namespace SmallLisp.Text

/-- The marks of digits, each at the place that is its value. -/
def digitMarks : List Char :=
  ['0', '1', '2', '3', '4', '5', '6', '7', '8', '9', 'a', 'b', 'c', 'd', 'e', 'f']

/-- The value of a digit, a capital letter counting as the small one. No other character has a value
below sixteen. -/
def digitValue (c : Char) : Nat :=
  digitMarks.idxOf c.toLower

def isDigitIn (base : Nat) (c : Char) : Bool :=
  digitValue c < base

/-- The number that digits stand for, each of them counting as many times as its place says. -/
def positional (base : Nat) (digits : List Char) : Nat :=
  Nat.ofDigits base (digits.reverse.map digitValue)

variable {c : Char} {digits : List Char}

theorem forall_ascii {p : Char → Prop} (h : ∀ code < 128, p (Char.ofNat code))
    (hc : c.toNat < 128) : p c := by
  have hcode := h c.toNat hc
  rwa [Char.ofNat_toNat] at hcode

theorem digitValue_of_large (h : 128 ≤ c.toNat) : digitValue c = 16 := by
  have hlower : c.toLower = c := by
    have hcapital : ¬ (65 ≤ c.val ∧ c.val ≤ 90) := by
      rintro ⟨-, hlast⟩
      exact absurd (Nat.le_trans h (UInt32.le_iff_toNat_le.mp hlast)) (by decide)
    exact dif_neg hcapital
  have hmark : c ∉ digitMarks := by
    intro hmem
    have hcodes : ∀ mark ∈ digitMarks, mark.toNat < 128 := by simp [digitMarks]
    have hcode := hcodes c hmem
    omega
  rw [digitValue, hlower]
  exact List.idxOf_eq_length hmark

/-- The ten digits stand in a row, and no other character is worth less than ten. -/
theorem digitValue_cases (c : Char) :
    48 ≤ c.toNat ∧ c.toNat ≤ 57 ∧ digitValue c = c.toNat - 48 ∨
      ¬ (48 ≤ c.toNat ∧ c.toNat ≤ 57) ∧ 10 ≤ digitValue c := by
  by_cases hsmall : c.toNat < 128
  · revert hsmall
    apply forall_ascii
    decide +kernel
  · rw [digitValue_of_large (by omega)]
    omega

theorem between_iff {first last : Char} :
    (first ≤ c && c ≤ last) = true ↔ first.toNat ≤ c.toNat ∧ c.toNat ≤ last.toNat := by
  rw [Bool.and_eq_true, decide_eq_true_eq, decide_eq_true_eq]
  exact and_congr UInt32.le_iff_toNat_le UInt32.le_iff_toNat_le

theorem isDigit_eq : isDigit = isDigitIn 10 := by
  funext c
  have hcases := digitValue_cases c
  rw [Bool.eq_iff_iff, isDigit, between_iff, isDigitIn, decide_eq_true_eq]
  change 48 ≤ c.toNat ∧ c.toNat ≤ 57 ↔ _
  omega

theorem isOctalDigit_eq : isOctalDigit = isDigitIn 8 := by
  funext c
  have hcases := digitValue_cases c
  rw [Bool.eq_iff_iff, isOctalDigit, between_iff, isDigitIn, decide_eq_true_eq]
  change 48 ≤ c.toNat ∧ c.toNat ≤ 55 ↔ _
  omega

theorem hexDigit?_eq (c : Char) :
    hexDigit? c = if digitValue c < 16 then some (digitValue c) else none := by
  by_cases hsmall : c.toNat < 128
  · revert hsmall
    apply forall_ascii
    decide +kernel
  · have hbeyond {last : Char} (hlast : last.toNat < 128) : ¬ c ≤ last := by
      intro hle
      have hcode : c.toNat ≤ last.toNat := UInt32.le_iff_toNat_le.mp hle
      omega
    have hvalue := digitValue_of_large (c := c) (by omega)
    have hsmallLetter := hbeyond (show 'f'.toNat < 128 by decide)
    have hcapital := hbeyond (show 'F'.toNat < 128 by decide)
    simp [hexDigit?, isDigit_eq, isDigitIn, hvalue, hsmallLetter, hcapital]

theorem isHexDigit_eq : isHexDigit = isDigitIn 16 := by
  funext c
  rw [isHexDigit, isDigitIn, hexDigit?_eq]
  split <;> simp [*]

theorem toNat_sub_of_isDigitIn {base : Nat} (hbase : base ≤ 10) (h : isDigitIn base c) :
    c.toNat - 48 = digitValue c := by
  have hvalue : digitValue c < base := of_decide_eq_true h
  have hcases := digitValue_cases c
  omega

theorem foldl_eq_positional (base : Nat) (value : Char → Nat)
    (h : ∀ c ∈ digits, value c = digitValue c) :
    digits.foldl (fun number c => base * number + value c) 0 = positional base digits := by
  induction digits using List.reverseRecOn with
  | nil => rfl
  | append_singleton digits c ih =>
      obtain ⟨hdigits, hc⟩ := List.forall_mem_append.mp h
      rw [List.foldl_append, ih hdigits]
      simp [positional, Nat.ofDigits_cons, hc c, Nat.add_comm]

theorem hexValue_eq (h : ∀ c ∈ digits, isDigitIn 16 c) :
    hexValue digits = positional 16 digits := by
  apply foldl_eq_positional
  intro c hc
  rw [hexDigit?_eq, if_pos (of_decide_eq_true (h c hc)), Option.getD_some]

theorem ofDigitChars_eq {base : Nat} (hbase : base ≤ 10) (h : ∀ c ∈ digits, isDigitIn base c) :
    Nat.ofDigitChars base digits 0 = positional base digits := by
  rw [Nat.ofDigitChars_eq_foldl]
  apply foldl_eq_positional
  intro c hc
  exact toNat_sub_of_isDigitIn hbase (h c hc)

theorem octalValue_eq (h : ∀ c ∈ digits, isDigitIn 8 c) :
    octalValue digits = positional 8 digits :=
  ofDigitChars_eq (by decide) h

theorem decimalValue_eq (h : ∀ c ∈ digits, isDigitIn 10 c) :
    decimalValue digits = positional 10 digits :=
  ofDigitChars_eq (by decide) h

example : positional 16 ['1', 'F'] = 31 := by
  decide

end SmallLisp.Text
