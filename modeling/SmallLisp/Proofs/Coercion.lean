import SmallLisp.Proofs.DefectFreedom
import SmallLisp.Proofs.Numeral
import SmallLisp.Proofs.Spelling

namespace SmallLisp

namespace LeadingInteger

open Text
open Token (Breaks breaks_cons breaks_nil)

def number? : LeadingInteger → Option Int
  | found number => some number
  | _ => none

/-- Whether no digits in a row are more than a number can have. -/
def ShortRuns (text : List Char) : Prop :=
  ∀ run, run <:+: text → (∀ c ∈ run, isDigit c) → run.length ≤ digitLimit

theorem ofText_ne_overlong {text : List Char} (h : ShortRuns text) : ofText text ≠ overlong := by
  obtain ⟨blanks, sign, rest, hblanks, hsign⟩ := exists_signed text
  obtain ⟨result, hmagnitude⟩ := exists_magnitude rest
  rw [ofText_eq hblanks hsign, unsignedMagnitude_eq hmagnitude]
  cases hmagnitude with
  | @overlong digits after _ hrun _ _ hlength =>
      have hinfix : digits <:+: text := by
        rw [hblanks.split, hrun.split]
        exact ⟨blanks ++ sign, after, by simp⟩
      rw [← isDigit_eq] at hrun
      have hshort : digits.length ≤ 4300 := h digits hinfix hrun.accepted
      omega
  | _ => split <;> simp [negate]

section
variable {blanks digits after : List Char} {number : Int}

theorem ofText_padded_digits (hblanks : ∀ c ∈ blanks, isBlank c) (hne : digits ≠ [])
    (hdigits : ∀ c ∈ digits, isDigit c) (hafter : Unjoined after) :
    ofText (blanks ++ (digits ++ after)) =
      if digits.length ≤ digitLimit then found (decimalValue digits) else overlong := by
  have hfirst : Breaks isBlank (digits ++ after) ∧ Breaks (· = '-') (digits ++ after) := by
    obtain ⟨c, rest, rfl⟩ := List.exists_cons_of_ne_nil hne
    have hc : isDigit c := hdigits c (by simp)
    have hdelimiter := Token.isDelimiter_of_continuesAtom (Token.continuesAtom_of_isDigit hc)
    have hminus : c ≠ '-' := by
      rintro rfl
      simp [isDigit] at hc
    simpa using ⟨(Token.not_delimiter_parts hdelimiter).1, hminus⟩
  have hrun : LongestRun isBlank (blanks ++ (digits ++ after)) blanks ([] ++ (digits ++ after)) :=
    ⟨rfl, hblanks, hfirst.1⟩
  rw [ofText_eq hrun (.bare hfirst.2), if_pos rfl,
    unsignedMagnitude_eq (magnitude_digits hne hdigits hafter)]

theorem ofText_digits (hne : digits ≠ []) (h : ∀ c ∈ digits, isDigit c) :
    ofText digits =
      if digits.length ≤ digitLimit then found (decimalValue digits) else overlong := by
  have hpadded : ofText ([] ++ (digits ++ [])) = _ :=
    ofText_padded_digits (by simp) hne h (breaks_nil _)
  simpa using hpadded

theorem ofText_padded (hblanks : ∀ c ∈ blanks, isBlank c) (hafter : Unjoined after)
    (h : WithinDigits number) :
    ofText (blanks ++ (number.repr.toList ++ after)) = found number := by
  cases number with
  | ofNat n =>
      have htext : (Int.ofNat n).repr.toList = Nat.toDigits 10 n := Nat.toList_repr
      obtain ⟨hne, hdigits⟩ := fits_toDigits n
      rw [htext, ofText_padded_digits hblanks hne hdigits hafter,
        if_pos (length_toDigits_of_within h), decimalValue_toDigits]
      rfl
  | negSucc n =>
      have htext : (Int.negSucc n).repr.toList = ['-'] ++ Nat.toDigits 10 (n + 1) := by
        simp [Int.repr, Nat.toList_repr]
      have hn : WithinDigits (n + 1 : Nat) := h
      obtain ⟨hne, hdigits⟩ := fits_toDigits (n + 1)
      have hrun : LongestRun isBlank (blanks ++ (['-'] ++ (Nat.toDigits 10 (n + 1) ++ after)))
          blanks (['-'] ++ (Nat.toDigits 10 (n + 1) ++ after)) := by
        refine ⟨rfl, hblanks, ?_⟩
        rw [List.singleton_append, breaks_cons]
        decide
      rw [htext, List.append_assoc, ofText_eq hrun (.minus _), if_neg (by simp),
        unsignedMagnitude_eq (magnitude_digits hne hdigits hafter),
        if_pos (length_toDigits_of_within hn), decimalValue_toDigits]
      simp [negate, Int.negSucc_eq]

theorem ofText_repr (h : WithinDigits number) : ofText number.repr.toList = found number := by
  have hpadded : ofText ([] ++ (number.repr.toList ++ [])) = found number :=
    ofText_padded (by simp) (breaks_nil _) h
  simpa using hpadded

end

end LeadingInteger

namespace Value

def number? : Value → Option Int
  | integer number => some number
  | text content => (LeadingInteger.ofText content.toList).number?
  | list [item] => item.number?
  | _ => none

def text? : Value → Option (List Char)
  | text content => some content.toList
  | boolean truth => some (if truth then "True" else "False").toList
  | integer number => (integerText number).toOption
  | _ => none

def boolean? : Value → Option Bool
  | boolean truth => some truth
  | _ => none

theorem number?_of_text? {value : Value} {content : List Char} (h : value.text? = some content) :
    value.number? = (LeadingInteger.ofText content).number? := by
  cases value with
  | boolean truth =>
      obtain rfl := Option.some.inj h
      cases truth <;> rfl
  | integer number =>
      simp only [text?] at h
      by_cases hnumber : WithinDigits number
      · rw [integerText_of_within hnumber] at h
        obtain rfl := Option.some.inj h
        rw [LeadingInteger.ofText_repr hnumber]
        rfl
      · rw [integerText_of_not_within hnumber] at h
        simp [Outcome.fail, Except.toOption] at h
  | text other =>
      obtain rfl := Option.some.inj h
      rfl
  | _ => simp [text?] at h

/-- A leaf without digits in a row that are more than a number can have. -/
def Convertible (leaf : Value) : Prop :=
  ∀ content, leaf = text content → LeadingInteger.ShortRuns content.toList

/-- A value that can be rendered, and taken for a number, within some levels. -/
structure Manageable (levels : Nat) (value : Value) : Prop where
  wellFormed : value.WellFormed
  short : value.EveryLeaf Short
  convertible : value.EveryLeaf Convertible
  depth_le : value.depth ≤ levels

theorem Manageable.item {levels : Nat} {items : List Value}
    (h : Manageable (levels + 1) (list items)) {item : Value} (hitem : item ∈ items) :
    Manageable levels item where
  wellFormed := wellFormed_list.mp h.wellFormed item hitem
  short := by
    have hshort := h.short
    simp only [EveryLeaf] at hshort
    exact hshort item hitem
  convertible := by
    have hconvertible := h.convertible
    simp only [EveryLeaf] at hconvertible
    exact hconvertible item hitem
  depth_le := depth_list_le_succ_iff.mp h.depth_le item hitem

/-- Whether a value is taken for a number only by way of too many digits: those of its own text, or
those of a number inside a list that is refused and has to be shown. -/
inductive Uncountable : Value → Prop
  | text {content : String} :
      LeadingInteger.ofText content.toList = .overlong → Uncountable (text content)
  | inside {item : Value} : Uncountable item → Uncountable (list [item])
  | shown {items : List Value} :
      items.length ≠ 1 → ¬ (list items).EveryLeaf Short → Uncountable (list items)

theorem not_uncountable_of_leaf {leaf : Value} (htext : ∀ content, leaf ≠ text content)
    (hlist : ∀ items, leaf ≠ list items) : ¬ Uncountable leaf := by
  intro h
  cases h with
  | text _ => exact htext _ rfl
  | inside _ => exact hlist _ rfl
  | shown _ _ => exact hlist _ rfl

theorem uncountable_text_iff {content : String} :
    Uncountable (text content) ↔ LeadingInteger.ofText content.toList = .overlong := by
  constructor
  · intro h
    cases h with
    | text hoverlong => exact hoverlong
  · exact .text

theorem uncountable_inside_iff {item : Value} : Uncountable (list [item]) ↔ Uncountable item := by
  constructor
  · intro h
    cases h with
    | inside hitem => exact hitem
    | shown hlength _ => exact absurd rfl hlength
  · exact .inside

theorem uncountable_shown_iff {items : List Value} (hlength : items.length ≠ 1) :
    Uncountable (list items) ↔ ¬ (list items).EveryLeaf Short := by
  constructor
  · intro h
    cases h with
    | inside _ => exact absurd rfl hlength
    | shown _ hlong => exact hlong
  · exact .shown hlength

theorem Manageable.not_uncountable {levels : Nat} {value : Value} (h : Manageable levels value) :
    ¬ Uncountable value := by
  intro huncountable
  induction huncountable generalizing levels with
  | @text content hoverlong =>
      have hconvertible := h.convertible
      simp only [EveryLeaf] at hconvertible
      exact LeadingInteger.ofText_ne_overlong (hconvertible content rfl) hoverlong
  | inside _ ih =>
      cases levels with
      | zero => exact absurd h.depth_le (by simp)
      | succ levels => exact ih (h.item (by simp))
  | shown _ hlong => exact hlong h.short

end Value

namespace Outcome

variable {α β : Type} {outcome : Outcome α}

/-- No answer, since a number has too many digits to be written or to be read. -/
inductive Stops : Outcome α → Prop
  | render : Stops (fail .tooLargeToRender)
  | convert : Stops (fail .tooLargeToConvert)

theorem Stops.bind (h : outcome.Stops) (next : α → Outcome β) : (outcome >>= next).Stops := by
  cases h with
  | render => exact .render
  | convert => exact .convert

theorem Stops.map (h : outcome.Stops) (f : α → β) : Stops (Except.map f outcome) := by
  cases h with
  | render => exact .render
  | convert => exact .convert

end Outcome

namespace Coercion

/-- Whether an outcome is what a value is taken for, or refuses the value when it is taken for
nothing. -/
inductive Takes {α : Type} : Outcome α → Option α → Prop
  | taken (answer : α) : Takes (.ok answer) (some answer)
  | refused (expected : String) (found : Value) (shown : String) :
      Takes (.error (.failure (.mismatch expected found shown))) none

/-- Whether an outcome is what a value is taken for, unless a number with too many digits is in the
way. -/
inductive Tries {α : Type} (outcome : Outcome α) (taken : Option α) (oversize : Prop) : Prop
  | takes : ¬ oversize → Takes outcome taken → Tries outcome taken oversize
  | stops : oversize → outcome.Stops → Tries outcome taken oversize

theorem Tries.congr {α : Type} {outcome : Outcome α} {taken : Option α} {p q : Prop}
    (h : Tries outcome taken p) (hpq : p ↔ q) : Tries outcome taken q := by
  obtain rfl : p = q := propext hpq
  exact h

variable {levels : Nat} {value : Value}

theorem refuse_tries {α : Type} (wanted : String) (hwhole : value.WellFormed)
    (hdepth : value.depth ≤ levels) :
    Tries (refuse levels wanted value : Outcome α) none (¬ value.EveryLeaf Value.Short) := by
  by_cases hshort : value.EveryLeaf Value.Short
  · obtain ⟨cs, hcs⟩ := Value.exists_chars hwhole hshort hdepth
    have hrefuse : (refuse levels wanted value : Outcome α) =
        .error (.failure (.mismatch wanted value (String.ofList cs))) := by
      simp only [refuse, Failure.wrongKind, Value.render, hcs]
      rfl
    exact .takes (not_not_intro hshort) (hrefuse ▸ .refused _ _ _)
  · have hrefuse : (refuse levels wanted value : Outcome α) = .fail .tooLargeToRender := by
      simp only [refuse, Failure.wrongKind, Value.render,
        Value.chars_of_not_short hwhole hshort hdepth]
      rfl
    exact .stops hshort (hrefuse ▸ .render)

theorem number_eq_refuse (hinteger : ∀ n, value ≠ .integer n)
    (htext : ∀ content, value ≠ .text content) (hlist : ∀ item, value ≠ .list [item])
    (levels : Nat) : number levels value = refuse levels "number" value := by
  unfold number
  split
  · exact absurd rfl (hinteger _)
  · exact absurd rfl (htext _)
  · exact absurd rfl (hlist _)
  · exact absurd rfl (hlist _)
  · rfl

theorem number_tries (hwhole : value.WellFormed) (hdepth : value.depth ≤ levels) :
    Tries (number levels value) value.number? value.Uncountable := by
  induction value generalizing levels with
  | integer n =>
      refine .takes (Value.not_uncountable_of_leaf (by simp) (by simp)) ?_
      cases levels <;> exact .taken n
  | text content =>
      cases hfound : LeadingInteger.ofText content.toList with
      | found n =>
          refine .takes (by simp [Value.uncountable_text_iff, hfound]) ?_
          simp only [number, Value.number?, hfound]
          exact .taken n
      | overlong =>
          refine .stops (.text hfound) ?_
          simp only [number, hfound]
          exact .convert
      | missing =>
          simp only [number, Value.number?, hfound]
          refine (refuse_tries "number" hwhole hdepth).congr (iff_of_false ?_ ?_)
          · simp [Value.Short]
          · simp [Value.uncountable_text_iff, hfound]
  | list items ih =>
      by_cases hsingle : ∃ item, items = [item]
      · obtain ⟨item, rfl⟩ := hsingle
        cases levels with
        | zero => simp at hdepth
        | succ levels =>
            have hitem := ih item (by simp) (Value.wellFormed_list.mp hwhole item (by simp))
              (Value.depth_list_le_succ_iff.mp hdepth item (by simp))
            exact hitem.congr Value.uncountable_inside_iff.symm
      · have hlength : items.length ≠ 1 := fun hlength =>
          hsingle (List.length_eq_one_iff.mp hlength)
        have hlist : ∀ item, Value.list items ≠ .list [item] := by
          rintro item ⟨⟩
          exact hsingle ⟨item, rfl⟩
        have hnone : (Value.list items).number? = none := by
          unfold Value.number?
          split <;> simp_all
        rw [number_eq_refuse (by simp) (by simp) hlist, hnone]
        exact (refuse_tries "number" hwhole hdepth).congr (Value.uncountable_shown_iff hlength).symm
  | _ =>
      rw [number_eq_refuse (by simp) (by simp) (by simp)]
      refine (refuse_tries "number" hwhole hdepth).congr (iff_of_false ?_ ?_)
      · simp [Value.Short]
      · exact Value.not_uncountable_of_leaf (by simp) (by simp)

theorem text_tries (hwhole : value.WellFormed) (hdepth : value.depth ≤ levels) :
    Tries (text levels value) value.text? (¬ value.EveryLeaf Value.Short) := by
  cases value with
  | integer n =>
      by_cases hnumber : WithinDigits n
      · refine .takes (by simpa [Value.Short] using hnumber) ?_
        simp only [text, Value.text?, integerText_of_within hnumber]
        exact .taken _
      · refine .stops (by simpa [Value.Short] using hnumber) ?_
        simp only [text, integerText_of_not_within hnumber]
        exact .render
  | text content => exact .takes (by simp [Value.Short]) (.taken _)
  | boolean truth => exact .takes (by simp [Value.Short]) (.taken _)
  | _ => exact refuse_tries "string" hwhole hdepth

theorem boolean_tries (hwhole : value.WellFormed) (hdepth : value.depth ≤ levels) :
    Tries (boolean levels value) value.boolean? (¬ value.EveryLeaf Value.Short) := by
  cases value with
  | boolean truth => exact .takes (by simp [Value.Short]) (.taken truth)
  | _ => exact refuse_tries "boolean" hwhole hdepth

end Coercion

end SmallLisp
