import Mathlib.Algebra.Group.Nat.Defs
import SmallLisp.Proofs.Lexeme
import SmallLisp.Proofs.Rendering
import SmallLisp.Proofs.Separation

namespace SmallLisp.Text

theorem decimalValue_cons (c : Char) (digits : List Char) :
    decimalValue (c :: digits) =
      10 ^ digits.length * (c.toNat - '0'.toNat) + decimalValue digits := by
  rw [decimalValue, Nat.ofDigitChars_cons, Nat.ofDigitChars_eq_ofDigitChars_zero]
  simp [decimalValue]

theorem decimalValue_lt {digits : List Char} (h : ∀ c ∈ digits, isDigit c) :
    decimalValue digits < 10 ^ digits.length := by
  induction digits with
  | nil => simp [decimalValue]
  | cons c digits ih =>
      have hdigit : c.toNat - '0'.toNat + 1 ≤ 10 := by
        have hbounds := Token.isDigit_iff.mp (h c (by simp))
        have hzero : '0'.toNat = 48 := rfl
        omega
      have htail := ih fun d hd => h d (by simp [hd])
      calc
        decimalValue (c :: digits)
            = 10 ^ digits.length * (c.toNat - '0'.toNat) + decimalValue digits :=
          decimalValue_cons c digits
        _ < 10 ^ digits.length * (c.toNat - '0'.toNat + 1) := by
          rw [Nat.mul_succ]
          exact Nat.add_lt_add_left htail _
        _ ≤ 10 ^ (c :: digits).length := by
          rw [List.length_cons, Nat.pow_succ]
          exact Nat.mul_le_mul_left _ hdigit

theorem decimalValue_lt_of_length_le {digits : List Char} {limit : Nat}
    (h : ∀ c ∈ digits, isDigit c) (hlength : digits.length ≤ limit) :
    decimalValue digits < Nat.pow 10 limit :=
  Nat.lt_of_lt_of_le (decimalValue_lt h) (Nat.pow_le_pow_right (by decide) hlength)

theorem length_toDigits_le {n limit : Nat} (hlimit : 0 < limit) (h : n < Nat.pow 10 limit) :
    (Nat.toDigits 10 n).length ≤ limit :=
  (Nat.length_toDigits_le_iff (by decide) hlimit).mpr h

theorem decimalValue_toDigits (n : Nat) : decimalValue (Nat.toDigits 10 n) = n :=
  Nat.ofDigitChars_ten_toDigits

theorem fits_toDigits (n : Nat) : TokenKind.integer.Fits (Nat.toDigits 10 n) :=
  ⟨Nat.toDigits_ne_nil, fun _ hc => Nat.isDigit_of_mem_toDigits (by decide) (by decide) hc⟩

end SmallLisp.Text

namespace SmallLisp

theorem withinDigits_decimalValue {digits : List Char} (h : ∀ c ∈ digits, Text.isDigit c)
    (hlength : digits.length ≤ Text.digitLimit) : WithinDigits (Text.decimalValue digits) :=
  Text.decimalValue_lt_of_length_le h hlength

theorem length_toDigits_of_within {n : Nat} (h : WithinDigits n) :
    (Nat.toDigits 10 n).length ≤ Text.digitLimit :=
  Text.length_toDigits_le (by decide) h

namespace CharacterName

/-- Whether a character has a name. -/
def IsNamed (c : Char) : Prop :=
  ∃ entry ∈ table, entry.2 = c

theorem spelling_of_named {c : Char} (h : IsNamed c) :
    (∀ d ∈ spelling c, Text.isLetter d) ∧ spelling c ≠ [] ∧ char? (spelling c) = some c := by
  have hnames : ∀ entry ∈ table, (spelling entry.2).all Text.isLetter ∧ spelling entry.2 ≠ [] ∧
      char? (spelling entry.2) = some entry.2 := by
    decide
  obtain ⟨entry, hentry, rfl⟩ := h
  rw [← List.all_eq_true]
  exact hnames entry hentry

theorem named_of_char? {name : List Char} {c : Char} (h : char? name = some c) : IsNamed c := by
  obtain ⟨entries, others, htable, -⟩ := List.lookup_eq_some_iff.mp h
  refine ⟨(String.ofList (name.map Text.lowerAscii), c), ?_, rfl⟩
  rw [htable]
  simp

theorem spelling_of_letter {c : Char} (h : Text.isLetter c) : spelling c = [c] := by
  have hnone : table.find? (fun entry => entry.2 = c) = none := by
    apply List.find?_eq_none.mpr
    intro entry hentry heq
    have hclass : ∀ entry ∈ table, Text.isLetter entry.2 = false := by
      decide
    rw [← of_decide_eq_true heq, hclass entry hentry] at h
    simp at h
  simp [spelling, ofChar?, hnone]

end CharacterName

namespace Escape

theorem encodes_self {body : List Char} (hquote : '"' ∉ body) (hescape : '\\' ∉ body) :
    Encodes body body := by
  induction body with
  | nil => exact .nil
  | cons c body ih =>
      simp only [List.mem_cons, not_or] at hquote hescape
      exact .plain (Ne.symm hquote.1) (Ne.symm hescape.1) (ih hquote.2 hescape.2)

theorem eq_backslash_of_lookup {mark : Char} (h : table.lookup mark = some '\\') :
    mark = '\\' := by
  obtain ⟨entries, others, htable, -⟩ := List.lookup_eq_some_iff.mp h
  have hentry : (mark, '\\') ∈ table := by
    rw [htable]
    simp
  simpa [table] using hentry

section
variable {body content after rest : List Char}

/-- Backslashes in front of an encoding never cancel out: the content falls behind by one of them
at every escape and reaches the quote too late. -/
theorem Encodes.ne_of_backslashes (h : Encodes body content) (n : Nat) :
    List.replicate (n + 1) '\\' ++ (body ++ '"' :: after) ≠ content ++ '"' :: rest := by
  induction h generalizing n with
  | nil => simp [List.replicate_succ]
  | plain _ hc _ _ =>
      intro heq
      simp only [List.replicate_succ, List.cons_append, List.cons.injEq] at heq
      exact hc heq.1.symm
  | @escape mark c body content hmark _ ih =>
      intro heq
      simp only [List.replicate_succ, List.cons_append, List.cons.injEq] at heq
      obtain ⟨rfl, heq⟩ := heq
      obtain rfl := eq_backslash_of_lookup hmark
      apply ih (n + 1)
      rw [← heq, List.replicate_succ', List.replicate_succ']
      simp

theorem Encodes.plain_of_eq (h : Encodes body content)
    (heq : body ++ '"' :: after = content ++ '"' :: rest) : '"' ∉ content ∧ '\\' ∉ content := by
  -- When the inside of a literal starts as its own content does, it holds nothing that has to
  -- be escaped.
  induction h with
  | nil => simp
  | plain hquote hescape _ ih =>
      simp only [List.cons_append, List.cons.injEq, true_and] at heq
      obtain ⟨hnoquote, hnoescape⟩ := ih heq
      simp [hnoquote, hnoescape, Ne.symm hquote, Ne.symm hescape]
  | escape hmark hbody _ =>
      simp only [List.cons_append, List.cons.injEq] at heq
      obtain ⟨rfl, heq⟩ := heq
      obtain rfl := eq_backslash_of_lookup hmark
      exact absurd heq (hbody.ne_of_backslashes 0)

end

end Escape

end SmallLisp
