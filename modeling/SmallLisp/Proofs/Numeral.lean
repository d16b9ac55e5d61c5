import Mathlib.Data.List.TakeWhile
import SmallLisp.Coercion
import SmallLisp.Proofs.Digits
import SmallLisp.Proofs.Pattern

namespace SmallLisp

namespace LeadingInteger

open Text Text.Pattern
open Token (Breaks breaks_cons)

/-- The digits of a numeral in a base that a text starts with: after a zero and the letter of the
base in either case, the longest run of the base's digits. There is one at least. -/
inductive InBase (base : Nat) (lower upper : Char) : List Char → List Char → Prop
  | digits {mark : Char} {text run rest : List Char} :
      mark = lower ∨ mark = upper → LongestRun (isDigitIn base) text run rest → run ≠ [] →
        InBase base lower upper ('0' :: mark :: text) run

/-- Whether a text starts with a hexadecimal or an octal numeral. -/
def OtherBase (text : List Char) : Prop :=
  (∃ digits, InBase 16 'x' 'X' text digits) ∨ ∃ digits, InBase 8 'o' 'O' text digits

/-- Whether a text makes the decimal digits before it the start of a fraction or an exponent. -/
inductive RunsOn : List Char → Prop
  | fraction {c : Char} (rest : List Char) : isDigitIn 10 c → RunsOn ('.' :: c :: rest)
  | exponent {mark c : Char} (rest : List Char) :
      mark = 'e' ∨ mark = 'E' → isDigitIn 10 c → RunsOn (mark :: c :: rest)
  | signedExponent {mark sign c : Char} (rest : List Char) :
      mark = 'e' ∨ mark = 'E' → sign = '+' ∨ sign = '-' → isDigitIn 10 c →
        RunsOn (mark :: sign :: c :: rest)

/-- What the longest runs at the start of a text without blanks and a sign say. -/
inductive Magnitude : List Char → LeadingInteger → Prop
  | hex {text digits : List Char} :
      InBase 16 'x' 'X' text digits → Magnitude text (.found (positional 16 digits))
  | octal {text digits : List Char} :
      InBase 8 'o' 'O' text digits → Magnitude text (.found (positional 8 digits))
  | decimal {text digits rest : List Char} :
      ¬ OtherBase text → LongestRun (isDigitIn 10) text digits rest → digits ≠ [] →
        ¬ RunsOn rest → digits.length ≤ 4300 →
          Magnitude text (.found (positional 10 digits))
  | overlong {text digits rest : List Char} :
      ¬ OtherBase text → LongestRun (isDigitIn 10) text digits rest → digits ≠ [] →
        ¬ RunsOn rest → 4300 < digits.length → Magnitude text .overlong
  | runsOn {text digits rest : List Char} :
      ¬ OtherBase text → LongestRun (isDigitIn 10) text digits rest → digits ≠ [] →
        RunsOn rest → Magnitude text .missing
  | missing {text : List Char} : Breaks (isDigitIn 10) text → Magnitude text .missing

/-- Whether a minus sign is taken where there is one, and nothing otherwise. -/
inductive TakesSign : List Char → List Char → Prop
  | minus (rest : List Char) : TakesSign ['-'] rest
  | bare {rest : List Char} : Breaks (· = '-') rest → TakesSign [] rest

section
variable {base : Nat} {lower upper : Char} {text digits rest : List Char}

theorem InBase.starts (h : InBase base lower upper text digits) : ∃ cs, text = '0' :: cs := by
  cases h with
  | digits _ _ _ => exact ⟨_, rfl⟩

theorem InBase.ne_nil (h : InBase base lower upper text digits) : digits ≠ [] := by
  cases h with
  | digits _ _ hne => exact hne

theorem InBase.accepted (h : InBase base lower upper text digits) :
    ∀ c ∈ digits, isDigitIn base c := by
  cases h with
  | digits _ hrun _ => exact hrun.accepted

theorem ways_based (h : InBase base lower upper text digits) (name : Part) :
    ∃ rest others, (based lower upper name (isDigitIn base)).ways text =
      Match.withParts [(name, digits ++ rest, rest)] { parts := [], rest } :: others := by
  cases h with
  | @digits mark after _ rest hmark hrun hne =>
      obtain ⟨others, hways, -⟩ := (leads_oneOrMore hrun hne).named name
      refine ⟨rest, others, ?_⟩
      rw [based, ways_one_sequence (by simp), ways_one_sequence (by simpa using hmark), hways]
      rw [hrun.split]

theorem ways_based_of_not (h : ¬ ∃ digits, InBase base lower upper text digits) (name : Part) :
    (based lower upper name (isDigitIn base)).ways text = [] := by
  by_contra hways
  have hmatches : (based lower upper name (isDigitIn base)).Matches text := hways
  simp only [based, oneOrMore, matches_one_sequence_iff, matches_named_iff] at hmatches
  obtain ⟨zero, _, rfl, hzero, mark, after, rfl, hmark, c, cs, rfl, hc, -⟩ := hmatches
  obtain ⟨run, rest, hrun⟩ := exists_longestRun (isDigitIn base) (c :: cs)
  have hne : run ≠ [] := by
    rw [Ne, hrun.eq_nil_iff, breaks_cons, hc]
    simp
  obtain rfl : zero = '0' := by simpa using hzero
  exact h ⟨run, .digits (by simpa using hmark) hrun hne⟩

theorem matches_runsOn_iff : runsOn.Matches text ↔ ¬ Breaks (isDigitIn 10) text ∨ RunsOn text := by
  have hdigit : (one (isDigitIn 10) : Pattern Part).Matches text ↔
      ¬ Breaks (isDigitIn 10) text := by
    cases text with
    | nil => simp [matches_one_iff]
    | cons c cs => simp [matches_one_iff]
  rw [runsOn, isDigit_eq, matches_either_iff, hdigit]
  apply or_congr_right
  simp only [matches_either_iff, matches_one_sequence_iff, matches_optional_sequence_iff,
    matches_one_iff]
  constructor
  · rintro (⟨_, _, rfl, hpoint, c, cs, rfl, hc⟩ | ⟨_, _, rfl, hmark, hrest⟩)
    · obtain rfl := of_decide_eq_true hpoint
      exact .fraction cs hc
    · rw [Bool.or_eq_true, decide_eq_true_eq, decide_eq_true_eq] at hmark
      rcases hrest with ⟨_, _, rfl, hsign, c, cs, rfl, hc⟩ | ⟨c, cs, rfl, hc⟩
      · rw [Bool.or_eq_true, decide_eq_true_eq, decide_eq_true_eq] at hsign
        exact .signedExponent cs hmark hsign hc
      · exact .exponent cs hmark hc
  · intro h
    cases h with
    | fraction rest hc => exact .inl ⟨_, _, rfl, by simp, _, _, rfl, hc⟩
    | exponent rest hmark hc =>
        exact .inr ⟨_, _, rfl, by simpa using hmark, .inr ⟨_, _, rfl, hc⟩⟩
    | signedExponent rest hmark hsign hc =>
        exact .inr ⟨_, _, rfl, by simpa using hmark,
          .inl ⟨_, _, rfl, by simpa using hsign, _, _, rfl, hc⟩⟩

/-- After fewer digits than there are comes another one, so that nothing but the longest run of them
can be the numeral. -/
theorem ways_decimal (h : LongestRun (isDigitIn 10) text digits rest) (hne : digits ≠ []) :
    (sequence (named .decimal (oneOrMore (isDigitIn 10))) (notBefore runsOn)).ways text =
      ((notBefore runsOn).ways rest).map (Match.withParts [(.decimal, digits ++ rest, rest)]) := by
  have hleads := (leads_oneOrMore h hne).named Part.decimal
  rw [hleads.ways_sequence, ← h.split]
  · rfl
  · intro left hleft
    exact ways_notBefore_of_matches (matches_runsOn_iff.mpr (.inl hleft))

theorem not_otherBase_of_breaks (h : Breaks (isDigitIn 10) text) : ¬ OtherBase text := by
  rintro (⟨digits, hdigits⟩ | ⟨digits, hdigits⟩)
  all_goals
    obtain ⟨cs, rfl⟩ := hdigits.starts
    exact absurd (breaks_cons.mp h) (by decide)

theorem unsigned_eq : unsigned =
    either (based 'x' 'X' .hex (isDigitIn 16))
      (either (based 'o' 'O' .octal (isDigitIn 8))
        (sequence (named .decimal (oneOrMore (isDigitIn 10))) (notBefore runsOn))) := by
  rw [unsigned, isHexDigit_eq, isOctalDigit_eq, isDigit_eq]

theorem ways_unsigned_of_not_otherBase (h : ¬ OtherBase text) : unsigned.ways text =
    (sequence (named .decimal (oneOrMore (isDigitIn 10))) (notBefore runsOn)).ways text := by
  rw [OtherBase, not_or] at h
  rw [unsigned_eq, ways_either, ways_either, ways_based_of_not h.1, ways_based_of_not h.2]
  rfl

theorem ways_unsigned_of_breaks (h : Breaks (isDigitIn 10) text) : unsigned.ways text = [] := by
  have hdigits : (named Part.decimal (oneOrMore (isDigitIn 10))).ways text = [] := by
    rw [ways_named, ways_oneOrMore_of_breaks h, List.map_nil]
  rw [ways_unsigned_of_not_otherBase (not_otherBase_of_breaks h), ways_sequence, hdigits,
    List.flatMap_nil]

/-- The magnitude that a text without blanks and a sign starts with. -/
def unsignedMagnitude (text : List Char) : LeadingInteger :=
  match unsigned.firstWay? text with
  | some way => magnitude way
  | none => missing

theorem unsignedMagnitude_of_nil (h : unsigned.ways text = []) :
    unsignedMagnitude text = missing := by
  simp [unsignedMagnitude, firstWay?, h]

theorem unsignedMagnitude_of_cons {way : Match Part} {others : List (Match Part)}
    (h : unsigned.ways text = way :: others) : unsignedMagnitude text = magnitude way := by
  simp [unsignedMagnitude, firstWay?, h]

theorem ways_unsigned_decimal (hother : ¬ OtherBase text)
    (hrun : LongestRun (isDigitIn 10) text digits rest) (hne : digits ≠ [])
    (hends : ¬ RunsOn rest) : unsigned.ways text =
      [Match.withParts [(.decimal, digits ++ rest, rest)] { parts := [], rest }] := by
  have hbefore : ¬ runsOn.Matches rest := by
    rw [matches_runsOn_iff, not_or, Classical.not_not]
    exact ⟨hrun.breaks, hends⟩
  rw [ways_unsigned_of_not_otherBase hother, ways_decimal hrun hne,
    ways_notBefore_of_not_matches hbefore]
  rfl

theorem unsignedMagnitude_eq {result : LeadingInteger} (h : Magnitude text result) :
    unsignedMagnitude text = result := by
  cases h with
  | @hex digits hdigits =>
      obtain ⟨rest, others, hways⟩ := ways_based hdigits .hex
      rw [unsignedMagnitude_of_cons (by rw [unsigned_eq, ways_either, hways]; rfl)]
      simp [magnitude, hdigits.ne_nil, hexValue_eq hdigits.accepted]
  | @octal digits hdigits =>
      have hother : ¬ ∃ digits, InBase 16 'x' 'X' text digits := by
        rintro ⟨_, hhex⟩
        cases hdigits with
        | digits hmark _ _ =>
            cases hhex with
            | digits hmark' _ _ => rcases hmark with rfl | rfl <;> simp at hmark'
      obtain ⟨rest, others, hways⟩ := ways_based hdigits .octal
      rw [unsignedMagnitude_of_cons
        (by rw [unsigned_eq, ways_either, ways_either, ways_based_of_not hother, hways]; rfl)]
      simp [magnitude, hdigits.ne_nil, Match.part_withParts_of_ne,
        octalValue_eq hdigits.accepted]
  | @decimal digits rest hother hrun hne hends hlength =>
      rw [unsignedMagnitude_of_cons (ways_unsigned_decimal hother hrun hne hends)]
      simp [magnitude, digitLimit, hlength, Match.part_withParts_of_ne,
        decimalValue_eq hrun.accepted]
  | @overlong digits rest hother hrun hne hends hlength =>
      rw [unsignedMagnitude_of_cons (ways_unsigned_decimal hother hrun hne hends)]
      simp [magnitude, digitLimit, hlength, Match.part_withParts_of_ne]
  | @runsOn digits rest hother hrun hne hends =>
      refine unsignedMagnitude_of_nil ?_
      rw [ways_unsigned_of_not_otherBase hother, ways_decimal hrun hne,
        ways_notBefore_of_matches (matches_runsOn_iff.mpr (.inr hends)), List.map_nil]
  | missing hbreaks => exact unsignedMagnitude_of_nil (ways_unsigned_of_breaks hbreaks)

theorem exists_magnitude (text : List Char) : ∃ result, Magnitude text result := by
  by_cases hhex : ∃ digits, InBase 16 'x' 'X' text digits
  · obtain ⟨digits, hdigits⟩ := hhex
    exact ⟨_, .hex hdigits⟩
  by_cases hoctal : ∃ digits, InBase 8 'o' 'O' text digits
  · obtain ⟨digits, hdigits⟩ := hoctal
    exact ⟨_, .octal hdigits⟩
  have hother : ¬ OtherBase text := not_or.mpr ⟨hhex, hoctal⟩
  obtain ⟨digits, rest, hrun⟩ := exists_longestRun (isDigitIn 10) text
  by_cases hne : digits = []
  · exact ⟨_, .missing (hrun.eq_nil_iff.mp hne)⟩
  by_cases hends : RunsOn rest
  · exact ⟨_, .runsOn hother hrun hne hends⟩
  by_cases hlength : digits.length ≤ 4300
  · exact ⟨_, .decimal hother hrun hne hends hlength⟩
  · exact ⟨_, .overlong hother hrun hne hends (by omega)⟩

theorem magnitude_withParts_sign (way : Match Part) (part : List Char × List Char) :
    magnitude (way.withParts [(.sign, part)]) = magnitude way := by
  simp [magnitude, Match.part_withParts_of_ne]

variable {blanks sign : List Char}

theorem ways_signed (hsign : TakesSign sign rest) :
    (sequence (named .sign (optional (one (· = '-')))) unsigned).ways (sign ++ rest) =
      (unsigned.ways rest).map (Match.withParts [(.sign, sign ++ rest, rest)]) := by
  -- Without its sign a numeral does not start, so that the sign cannot be left out.
  have hleads : (optional (one (· = '-')) : Pattern Part).Leads (sign ++ rest)
      { parts := [], rest } (· = '-') := by
    cases hsign with
    | minus rest => exact leads_optional_one (by simp) (by simp) (by simp)
    | bare hbreaks => exact leads_optional_one (by simp) (by simp) fun _ => hbreaks
  refine (hleads.named .sign).ways_sequence ?_
  intro left hleft
  obtain ⟨c, cs, rfl, hc⟩ := exists_cons_of_not_breaks hleft
  obtain rfl := of_decide_eq_true hc
  exact ways_unsigned_of_breaks (breaks_cons.mpr (by decide))

theorem classes_of_isBlank {c : Char} (h : isBlank c) : isDigitIn 10 c = false ∧ c ≠ '-' := by
  have hdelimiter : Token.isDelimiter c := by simp [Token.isDelimiter, h]
  rw [← isDigit_eq]
  refine ⟨(Token.delimiter_classes hdelimiter).2.1, ?_⟩
  rintro rfl
  exact absurd h (by decide)

theorem ways_numeral (hblanks : LongestRun isBlank text blanks (sign ++ rest))
    (hsign : TakesSign sign rest) : numeral.ways text =
      (unsigned.ways rest).map (Match.withParts [(.sign, sign ++ rest, rest)]) := by
  -- After fewer blanks than there are comes another one, and no numeral.
  rw [numeral, (leads_many hblanks).ways_sequence, Match.withParts_nil, List.map_id,
    ways_signed hsign]
  intro left hleft
  obtain ⟨c, cs, rfl, hc⟩ := exists_cons_of_not_breaks hleft
  obtain ⟨hdigit, hminus⟩ := classes_of_isBlank hc
  have hbare : TakesSign [] (c :: cs) := .bare (by simpa using hminus)
  have hways := ways_signed hbare
  rwa [ways_unsigned_of_breaks (by simpa using hdigit)] at hways

theorem ofText_eq (hblanks : LongestRun isBlank text blanks (sign ++ rest))
    (hsign : TakesSign sign rest) : ofText text =
      if sign = [] then unsignedMagnitude rest else (unsignedMagnitude rest).negate := by
  rw [ofText, unsignedMagnitude, firstWay?, firstWay?, ways_numeral hblanks hsign, List.head?_map]
  cases (unsigned.ways rest).head? with
  | none => simp [negate]
  | some way => simp [magnitude_withParts_sign]

theorem exists_signed (text : List Char) : ∃ blanks sign rest,
    LongestRun isBlank text blanks (sign ++ rest) ∧ TakesSign sign rest := by
  obtain ⟨blanks, after, hblanks⟩ := exists_longestRun isBlank text
  cases after with
  | nil => exact ⟨blanks, [], [], hblanks, .bare (by simp)⟩
  | cons c cs =>
      by_cases hc : c = '-'
      · subst hc
        exact ⟨blanks, ['-'], cs, hblanks, .minus cs⟩
      · exact ⟨blanks, [], c :: cs, hblanks, .bare (by simpa using hc)⟩

/-- Whether decimal digits are not joined to a text that comes after them: it does not start with a
letter or a digit of ASCII or with a point. -/
def Unjoined (after : List Char) : Prop :=
  Breaks (fun c => c.isAlpha || isDigit c || c = '.') after

theorem not_runsOn_of_unjoined {after : List Char} (h : Unjoined after) : ¬ RunsOn after := by
  intro hends
  cases hends with
  | fraction _ _ => exact absurd (breaks_cons.mp h) (by simp)
  | exponent _ hmark _ =>
      rcases hmark with rfl | rfl
      all_goals exact absurd (breaks_cons.mp h) (by decide)
  | signedExponent _ hmark _ _ =>
      rcases hmark with rfl | rfl
      all_goals exact absurd (breaks_cons.mp h) (by decide)

theorem not_inBase_of_digits {after : List Char} (hdigits : ∀ c ∈ digits, isDigit c)
    (hne : digits ≠ []) (hafter : Unjoined after) (hlower : lower.isAlpha ∧ isDigit lower = false)
    (hupper : upper.isAlpha ∧ isDigit upper = false) {run : List Char} :
    ¬ InBase base lower upper (digits ++ after) run := by
  -- The letter of a base is no decimal digit, and not what decimal digits are left at.
  generalize htext : digits ++ after = text
  intro h
  cases h with
  | @digits mark rest _ _ hmark _ _ =>
      have hletter : mark.isAlpha ∧ isDigit mark = false := by
        rcases hmark with rfl | rfl
        · exact hlower
        · exact hupper
      cases digits with
      | nil => exact hne rfl
      | cons zero digits =>
          obtain ⟨rfl, htail⟩ := List.cons.inj htext
          cases digits with
          | nil =>
              obtain rfl : after = mark :: rest := htail
              simp [Unjoined, hletter.1] at hafter
          | cons next digits =>
              obtain rfl : next = mark := (List.cons.inj htail).1
              simp [hdigits next] at hletter

theorem magnitude_digits {after : List Char} (hne : digits ≠ [])
    (hdigits : ∀ c ∈ digits, isDigit c) (hafter : Unjoined after) : Magnitude (digits ++ after)
      (if digits.length ≤ digitLimit then .found (decimalValue digits) else .overlong) := by
  have hother : ¬ OtherBase (digits ++ after) := by
    rintro (⟨run, hrun⟩ | ⟨run, hrun⟩)
    · exact not_inBase_of_digits hdigits hne hafter (by decide) (by decide) hrun
    · exact not_inBase_of_digits hdigits hne hafter (by decide) (by decide) hrun
  have haccepted : ∀ c ∈ digits, isDigitIn 10 c := by
    rwa [← isDigit_eq]
  have hrun : LongestRun (isDigitIn 10) (digits ++ after) digits after := by
    refine ⟨rfl, haccepted, ?_⟩
    rw [← isDigit_eq]
    intro c hc
    have hunjoined := hafter c hc
    simp only [Bool.or_eq_false_iff] at hunjoined
    exact hunjoined.1.2
  rw [decimalValue_eq haccepted]
  split
  · exact .decimal hother hrun hne (not_runsOn_of_unjoined hafter) ‹_›
  · rename_i hlength
    exact .overlong hother hrun hne (not_runsOn_of_unjoined hafter) (Nat.lt_of_not_le hlength)

end

end LeadingInteger

namespace Coercion

open LeadingInteger Text
open Token (breaks_cons breaks_nil)

theorem refuse_text {α : Type} (levels : Nat) (wanted : String) (content : String) :
    (refuse levels wanted (.text content) : Outcome α) = .error (.failure (.mismatch wanted
      (.text content) (String.ofList ('"' :: content.toList ++ ['"'])))) := by
  cases levels <;> rfl

/-- What a text is unpacked to as a number, by its sign and the magnitude after it. -/
def unpacked (content : String) (sign : List Char) : LeadingInteger → Outcome Int
  | .found n => .ok (if sign = [] then n else -n)
  | .overlong => .fail .tooLargeToConvert
  | .missing => .error (.failure (.mismatch "number" (.text content)
      (String.ofList ('"' :: content.toList ++ ['"']))))

theorem number_text {content : String} {blanks sign rest : List Char} {magnitude : LeadingInteger}
    (hblanks : LongestRun isBlank content.toList blanks (sign ++ rest))
    (hsign : TakesSign sign rest) (hmagnitude : Magnitude rest magnitude) (levels : Nat) :
    number levels (.text content) = unpacked content sign magnitude := by
  rw [number, refuse_text, ofText_eq hblanks hsign, unsignedMagnitude_eq hmagnitude]
  by_cases hbare : sign = []
  · cases magnitude <;> simp [hbare, unpacked]
  · cases magnitude <;> simp [hbare, unpacked, negate]

/-- What a text is unpacked to as a number is what its longest runs say: the blanks before, a minus
sign, and the digits of one of three bases, which count by their places. -/
theorem number_text_iff (levels : Nat) (content : String) (outcome : Outcome Int) :
    number levels (.text content) = outcome ↔
      ∃ blanks sign rest magnitude,
        LongestRun isBlank content.toList blanks (sign ++ rest) ∧ TakesSign sign rest ∧
        Magnitude rest magnitude ∧ outcome = unpacked content sign magnitude := by
  constructor
  · rintro rfl
    obtain ⟨blanks, sign, rest, hblanks, hsign⟩ := exists_signed content.toList
    obtain ⟨magnitude, hmagnitude⟩ := exists_magnitude rest
    exact ⟨blanks, sign, rest, magnitude, hblanks, hsign, hmagnitude,
      number_text hblanks hsign hmagnitude levels⟩
  · rintro ⟨blanks, sign, rest, magnitude, hblanks, hsign, hmagnitude, rfl⟩
    exact number_text hblanks hsign hmagnitude levels

theorem number_sample_texts :
    number 0 (.text " -0x1F") = .ok (-31) ∧ number 0 (.text "0o178") = .ok 15 ∧
      number 0 (.text "42 apples") = .ok 42 := by
  refine ⟨(number_text_iff 0 _ _).mpr ?_, (number_text_iff 0 _ _).mpr ?_,
    (number_text_iff 0 _ _).mpr ?_⟩
  · have hblanks : LongestRun isBlank " -0x1F".toList [' '] "-0x1F".toList :=
      ⟨rfl, List.all_eq_true.mp (by decide), breaks_cons.mpr (by decide)⟩
    have hdigits : LongestRun (isDigitIn 16) ['1', 'F'] ['1', 'F'] [] :=
      ⟨rfl, List.all_eq_true.mp (by decide), breaks_nil _⟩
    exact ⟨_, _, _, _, hblanks, .minus _, .hex (.digits (.inl rfl) hdigits (by simp)), by decide⟩
  · have hblanks : LongestRun isBlank "0o178".toList [] "0o178".toList :=
      ⟨rfl, List.forall_mem_nil _, breaks_cons.mpr (by decide)⟩
    have hdigits : LongestRun (isDigitIn 8) ['1', '7', '8'] ['1', '7'] ['8'] :=
      ⟨rfl, List.all_eq_true.mp (by decide), breaks_cons.mpr (by decide)⟩
    exact ⟨_, _, _, _, hblanks, .bare (breaks_cons.mpr (by decide)),
      .octal (.digits (.inl rfl) hdigits (by simp)), by decide⟩
  · have hblanks : LongestRun isBlank "42 apples".toList [] "42 apples".toList :=
      ⟨rfl, List.forall_mem_nil _, breaks_cons.mpr (by decide)⟩
    have hdecimal : Magnitude (['4', '2'] ++ " apples".toList) _ :=
      magnitude_digits (by simp) (List.all_eq_true.mp (by decide)) (breaks_cons.mpr (by decide))
    exact ⟨_, _, _, _, hblanks, .bare (breaks_cons.mpr (by decide)), hdecimal, by decide⟩

/-- Where no octal digit comes after its letter, the zero before it is all there is of a number. -/
example : number 0 (.text " -0o8") = .ok 0 := by
  decide

end Coercion

end SmallLisp
