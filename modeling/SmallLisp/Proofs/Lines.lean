import Mathlib.Data.List.DropRight
import SmallLisp.Text.Category
import SmallLisp.Text.Lines

namespace SmallLisp.Text

/-- How many ends of lines a text has, a carriage return and the newline after it being one. -/
def lineEnds (ends : Char → Bool) : List Char → Nat
  | [] => 0
  | '\r' :: '\n' :: rest => lineEnds ends rest + 1
  | c :: rest => lineEnds ends rest + if ends c then 1 else 0

/-- That a line starts between two parts of a text, where some class of characters ends lines. -/
structure CutBetween (ends : Char → Bool) (before after : List Char) : Prop where
  ended : ∀ c, before.getLast? = some c → ends c
  apart : before.getLast? = some '\r' → after.head? ≠ some '\n'

/-- That a part of a text is the line between what is before and what is after it. -/
structure LineBetween (ends : Char → Bool) (before line after : List Char) : Prop
    extends CutBetween ends before (line ++ after) where
  free : ∀ c ∈ line, ends c = false
  stops : ∀ c, after.head? = some c → ends c

section
variable {ends : Char → Bool} {c : Char} {before after rest text line : List Char}

theorem getLast?_cons_of_some {last : Char} (h : rest.getLast? = some last) (c : Char) :
    (c :: rest).getLast? = some last := by
  rw [List.getLast?_cons, h]
  rfl

theorem CutBetween.tail (h : CutBetween ends (c :: before) after) :
    CutBetween ends before after where
  ended := fun last hlast => h.ended last (getLast?_cons_of_some hlast c)
  apart := fun hlast => h.apart (getLast?_cons_of_some hlast c)

theorem CutBetween.cons (h : CutBetween ends before after)
    (hc : before = [] → ends c ∧ (c = '\r' → after.head? ≠ some '\n')) :
    CutBetween ends (c :: before) after := by
  cases before with
  | nil =>
      constructor
      · rintro _ ⟨⟩
        exact (hc rfl).1
      · rintro ⟨⟩
        exact (hc rfl).2 rfl
  | cons d before =>
      constructor
      · rw [List.getLast?_cons_cons]
        exact h.ended
      · rw [List.getLast?_cons_cons]
        exact h.apart

theorem CutBetween.ne_nil (h : CutBetween ends (c :: before) after) (hc : ends c = false) :
    before ≠ [] := by
  rintro rfl
  exact absurd (h.ended c rfl) (by simp [hc])

/-- What holds of the empty text, and stays true when an end of a line or a character of a line is
put in front, holds of every text. -/
@[elab_as_elim]
theorem inductionOnLines {motive : List Char → Prop} (text : List Char) (nil : motive [])
    (returned : ∀ rest, motive rest → motive ('\r' :: '\n' :: rest))
    (ended : ∀ c rest, isLineEnd c → (c = '\r' → rest.head? ≠ some '\n') → motive rest →
      motive (c :: rest))
    (free : ∀ c rest, isLineEnd c = false → motive rest → motive (c :: rest)) : motive text := by
  fun_induction lines text with
  | case1 => exact nil
  | case2 rest ih => exact returned rest ih
  | case3 c rest hreturn hc ih =>
      refine ended c rest hc ?_ ih
      rintro rfl hnewline
      obtain ⟨tail, rfl⟩ := List.head?_eq_some_iff.mp hnewline
      exact hreturn tail rfl rfl
  | case4 c rest _ hc _ ih => exact free c rest (Bool.eq_false_iff.mpr hc) ih
  | case5 c rest _ hc _ _ _ ih => exact free c rest (Bool.eq_false_iff.mpr hc) ih

theorem lines_returned (rest : List Char) : lines ('\r' :: '\n' :: rest) = [] :: lines rest :=
  rfl

theorem lines_cons (hapart : c = '\r' → rest.head? ≠ some '\n') :
    lines (c :: rest) =
      if isLineEnd c then [] :: lines rest
      else (c :: (lines rest).headD []) :: (lines rest).tail := by
  conv_lhs => unfold lines
  split
  · rename_i heq
    cases heq
  · rename_i heq
    obtain ⟨rfl, rfl⟩ := List.cons.inj heq
    exact absurd rfl (hapart rfl)
  · rename_i heq
    obtain ⟨rfl, rfl⟩ := List.cons.inj heq
    cases lines rest <;> rfl

theorem lines_of_end (hc : isLineEnd c) (hapart : c = '\r' → rest.head? ≠ some '\n') :
    lines (c :: rest) = [] :: lines rest := by
  rw [lines_cons hapart, if_pos hc]

theorem apart_of_free (hc : isLineEnd c = false) (rest : List Char) :
    c = '\r' → rest.head? ≠ some '\n' := by
  rintro rfl
  exact absurd hc (by decide)

theorem lines_of_free (hc : isLineEnd c = false) :
    lines (c :: rest) = (c :: (lines rest).headD []) :: (lines rest).tail := by
  rw [lines_cons (apart_of_free hc rest), hc]
  rfl

theorem lines_eq_nil_iff : lines text = [] ↔ text = [] := by
  refine ⟨fun h => ?_, fun h => h ▸ rfl⟩
  unfold lines at h
  repeat' split at h
  all_goals simp_all

theorem lineEnds_of_not_returned (hapart : c = '\r' → rest.head? ≠ some '\n') :
    lineEnds ends (c :: rest) = lineEnds ends rest + if ends c then 1 else 0 := by
  rw [lineEnds]
  rintro _ rfl rfl
  exact hapart rfl rfl

theorem lines_append (h : CutBetween isLineEnd before after) :
    lines (before ++ after) = lines before ++ lines after := by
  induction before using inductionOnLines with
  | nil => rfl
  | returned rest ih =>
      rw [List.cons_append, List.cons_append, lines_returned, lines_returned, ih h.tail.tail]
      rfl
  | ended c rest hc hapart ih =>
      have hwhole : c = '\r' → (rest ++ after).head? ≠ some '\n' := by
        rintro rfl
        cases rest with
        | nil => exact h.apart rfl
        | cons d rest => exact hapart rfl
      rw [List.cons_append, lines_of_end hc hwhole, lines_of_end hc hapart, ih h.tail]
      rfl
  | free c rest hc ih =>
      -- The cut is not within the line of the character, so the line goes on before it.
      obtain ⟨line, others, hlines⟩ :=
        List.exists_cons_of_ne_nil (mt lines_eq_nil_iff.mp (h.ne_nil hc))
      rw [List.cons_append, lines_of_free hc, lines_of_free hc, ih h.tail, hlines]
      rfl

theorem length_lines (h : CutBetween isLineEnd text after) :
    (lines text).length = lineEnds isLineEnd text := by
  induction text using inductionOnLines with
  | nil => rfl
  | returned rest ih =>
      rw [lines_returned, List.length_cons, ih h.tail.tail]
      rfl
  | ended c rest hc hapart ih =>
      rw [lines_of_end hc hapart, lineEnds_of_not_returned hapart, List.length_cons, ih h.tail,
        if_pos hc]
  | free c rest hc ih =>
      have hrest := List.length_pos_iff.mpr (mt lines_eq_nil_iff.mp (h.ne_nil hc))
      rw [lines_of_free hc, lineEnds_of_not_returned (apart_of_free hc rest), ← ih h.tail,
        List.length_cons, List.length_tail, hc]
      simp only [Bool.false_eq_true, if_false]
      omega

theorem CutBetween.eq_nil_of_lineEnds (h : CutBetween isLineEnd before after)
    (hnone : lineEnds isLineEnd before = 0) : before = [] := by
  rwa [← length_lines h, List.length_eq_zero_iff, lines_eq_nil_iff] at hnone

theorem head?_lines (hfree : ∀ c ∈ line, isLineEnd c = false)
    (hstops : ∀ c, after.head? = some c → isLineEnd c) (hne : line ++ after ≠ []) :
    (lines (line ++ after)).head? = some line := by
  induction line with
  | nil =>
      obtain ⟨c, rest, rfl⟩ := List.exists_cons_of_ne_nil hne
      by_cases hapart : c = '\r' → rest.head? ≠ some '\n'
      · rw [List.nil_append, lines_of_end (hstops c rfl) hapart]
        rfl
      · obtain ⟨rfl, hnewline⟩ := Classical.not_imp.mp hapart
        obtain ⟨tail, rfl⟩ := List.head?_eq_some_iff.mp (not_not.mp hnewline)
        rfl
  | cons c line ih =>
      obtain ⟨hc, hfree⟩ := List.forall_mem_cons.mp hfree
      rw [List.cons_append, lines_of_free hc, List.head?_cons, List.headD_eq_head?_getD]
      by_cases hline : line ++ after = []
      · obtain ⟨rfl, rfl⟩ := List.append_eq_nil_iff.mp hline
        rfl
      · rw [ih hfree hline]
        rfl

theorem LineBetween.getElem?_lines (h : LineBetween isLineEnd before line after)
    (hne : line ++ after ≠ []) :
    (lines (before ++ (line ++ after)))[lineEnds isLineEnd before]? = some line := by
  rw [lines_append h.toCutBetween, ← length_lines h.toCutBetween, List.getElem?_append_right
    (Nat.le_refl _), Nat.sub_self, ← List.head?_eq_getElem?, head?_lines h.free h.stops hne]

theorem LineBetween.cons (h : LineBetween ends before line after)
    (hc : before = [] → ends c ∧ (c = '\r' → (line ++ after).head? ≠ some '\n')) :
    LineBetween ends (c :: before) line after where
  toCutBetween := h.toCutBetween.cons hc
  free := h.free
  stops := h.stops

theorem lineBetween_start (hfree : ∀ c ∈ line, ends c = false)
    (hstops : ∀ c, after.head? = some c → ends c) : LineBetween ends [] line after where
  ended := by simp
  apart := by simp
  free := hfree
  stops := hstops

theorem exists_lineBetween {number : Nat} (h : (lines text)[number]? = some line) :
    ∃ before after, text = before ++ (line ++ after) ∧ line ++ after ≠ [] ∧
      LineBetween isLineEnd before line after ∧ lineEnds isLineEnd before = number := by
  induction text using inductionOnLines generalizing number line with
  | nil => cases h
  | returned rest ih =>
      rw [lines_returned] at h
      cases number with
      | zero =>
          obtain rfl := Option.some.inj h
          refine ⟨[], '\r' :: '\n' :: rest, rfl, by simp, lineBetween_start (by simp) ?_, rfl⟩
          rintro _ ⟨⟩
          rfl
      | succ number =>
          obtain ⟨before, after, rfl, hne, hbetween, rfl⟩ := ih h
          have hnewline := hbetween.cons (c := '\n') fun _ => ⟨rfl, by simp⟩
          exact ⟨_, after, rfl, hne, hnewline.cons (by simp), rfl⟩
  | ended c rest hc hapart ih =>
      rw [lines_of_end hc hapart] at h
      cases number with
      | zero =>
          obtain rfl := Option.some.inj h
          exact ⟨[], c :: rest, rfl, by simp, lineBetween_start (by simp) (by simpa using hc), rfl⟩
      | succ number =>
          obtain ⟨before, after, rfl, hne, hbetween, rfl⟩ := ih h
          have hbefore : c = '\r' → before.head? ≠ some '\n' := by
            intro hc
            cases before with
            | nil => simp
            | cons d before => exact hapart hc
          refine ⟨c :: before, after, rfl, hne, hbetween.cons fun hnil => ⟨hc, ?_⟩, ?_⟩
          · simpa [hnil] using hapart
          · rw [lineEnds_of_not_returned hbefore, if_pos hc]
  | free c rest hc ih =>
      rw [lines_of_free hc] at h
      cases number with
      | zero =>
          obtain rfl := Option.some.inj h
          cases hlines : lines rest with
          | nil =>
              obtain rfl := lines_eq_nil_iff.mp hlines
              exact ⟨[], [], rfl, by simp, lineBetween_start (by simpa using hc) (by simp), rfl⟩
          | cons line others =>
              have hfirst : (lines rest)[0]? = some line := by
                rw [hlines]
                rfl
              obtain ⟨before, after, rfl, -, hbetween, hnumber⟩ := ih hfirst
              obtain rfl := hbetween.eq_nil_of_lineEnds hnumber
              refine ⟨[], after, rfl, by simp, lineBetween_start ?_ hbetween.stops, rfl⟩
              exact List.forall_mem_cons.mpr ⟨hc, hbetween.free⟩
      | succ number =>
          rw [List.getElem?_cons_succ, List.getElem?_tail] at h
          obtain ⟨before, after, rfl, hne, hbetween, hnumber⟩ := ih h
          refine ⟨c :: before, after, rfl, hne, hbetween.cons fun hnil => ?_, ?_⟩
          · rw [hnil] at hnumber
            cases hnumber
          · rw [lineEnds_of_not_returned (apart_of_free hc before), hnumber, hc]
            rfl

theorem isLineEnd_of_mem_lines {c : Char} (hline : line ∈ lines text) (hc : c ∈ line) :
    isLineEnd c = false := by
  obtain ⟨number, hnumber⟩ := List.mem_iff_getElem?.mp hline
  obtain ⟨before, after, -, -, hbetween, -⟩ := exists_lineBetween hnumber
  exact hbetween.free c hc

theorem exists_margins (text : List Char) :
    ∃ left right, text = left ++ (trim text ++ right) ∧
      text.length - (trimLeft text).length = left.length := by
  have hleft : text.takeWhile isBlank ++ trimLeft text = text := List.takeWhile_append_dropWhile
  have hright : trim text ++ (trimLeft text).rtakeWhile isBlank = trimLeft text :=
    List.rdropWhile_append_rtakeWhile
  refine ⟨text.takeWhile isBlank, (trimLeft text).rtakeWhile isBlank, ?_, ?_⟩
  · rw [hright, hleft]
  · have hlength := congrArg List.length hleft
    rw [List.length_append] at hlength
    omega

end

end SmallLisp.Text
