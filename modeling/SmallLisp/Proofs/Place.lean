import Mathlib.Data.List.TakeWhile
import SmallLisp.Text.Lines

namespace SmallLisp.Text

/-- The characters since the last newline, from the last one back. -/
def lastLine (passed : List Char) : List Char :=
  passed.reverse.takeWhile (· ≠ '\n')

theorem lastLine_append {more : List Char} (h : '\n' ∉ more) (passed : List Char) :
    lastLine (passed ++ more) = more.reverse ++ lastLine passed := by
  have hmore : ∀ c ∈ more.reverse, decide (c ≠ '\n') = true := by
    intro c hc
    rw [decide_eq_true_eq]
    rintro rfl
    exact h (List.mem_reverse.mp hc)
  rw [lastLine, List.reverse_append, List.takeWhile_append_of_pos hmore, lastLine]

theorem lastLine_eq_reverse {passed : List Char} (h : '\n' ∉ passed) :
    lastLine passed = passed.reverse := by
  have hnil : lastLine [] = [] := rfl
  have hpassed := lastLine_append h []
  rwa [List.nil_append, hnil, List.append_nil] at hpassed

theorem exists_last_newline {passed : List Char} (h : '\n' ∈ passed) :
    ∃ ended line, passed = ended ++ '\n' :: line ∧ '\n' ∉ line := by
  obtain ⟨front, back, hpassed, hfront⟩ := List.eq_append_cons_of_mem (List.mem_reverse.mpr h)
  refine ⟨back.reverse, front.reverse, ?_, by rwa [List.mem_reverse]⟩
  simpa using congrArg List.reverse hpassed

theorem lastLine_of_last_newline {line : List Char} (h : '\n' ∉ line) (ended : List Char) :
    lastLine (ended ++ '\n' :: line) = line.reverse := by
  have hended : lastLine (ended ++ ['\n']) = [] := by simp [lastLine]
  rw [List.append_cons, lastLine_append h, hended, List.append_nil]

theorem lastLine_append_of_newline {more : List Char} (h : '\n' ∈ more) (passed : List Char) :
    lastLine (passed ++ more) = lastLine more := by
  obtain ⟨ended, line, rfl, hline⟩ := exists_last_newline h
  rw [← List.append_assoc, lastLine_of_last_newline hline, lastLine_of_last_newline hline]

theorem length_lastLine_le (passed : List Char) : (lastLine passed).length ≤ passed.length := by
  have hlength := (List.takeWhile_prefix (· ≠ '\n') (l := passed.reverse)).length_le
  rwa [List.length_reverse] at hlength

theorem position_def (source : List Char) (offset : Nat) :
    position source offset =
      { line := (source.take offset).count '\n' + 1
        column := offset -
          ((source.take offset).length - (lastLine (source.take offset)).length) + 1 } :=
  rfl

/-- The place that a place comes to when some characters of one line are put before a text. -/
def Position.after (distance : Nat) (place : Position) : Position :=
  { place with column := if place.line = 1 then place.column + distance else place.column }

theorem position_append {before : List Char} (h : '\n' ∉ before) (source : List Char)
    (offset : Nat) :
    position (before ++ source) (before.length + offset) =
      (position source offset).after before.length := by
  have htake : (before ++ source).take (before.length + offset) = before ++ source.take offset :=
    List.take_length_add_append offset
  have hcount : before.count '\n' = 0 := List.count_eq_zero.mpr h
  have hlength := length_lastLine_le (source.take offset)
  rw [position_def, position_def, htake, List.count_append, hcount, List.length_append]
  simp only [Position.after, Position.mk.injEq, Nat.zero_add, true_and]
  by_cases hnewline : '\n' ∈ source.take offset
  · have hline := List.count_pos_iff.mpr hnewline
    rw [if_neg (by omega), lastLine_append_of_newline hnewline]
    omega
  · have hline := List.count_eq_zero.mpr hnewline
    rw [if_pos (by rw [hline]), lastLine_append hnewline, lastLine_eq_reverse hnewline,
      lastLine_eq_reverse h]
    simp only [List.length_append, List.length_reverse]
    omega

theorem position_eq {source : List Char} {offset : Nat} (h : offset ≤ source.length) :
    position source offset =
      { line := (source.take offset).count '\n' + 1
        column := (lastLine (source.take offset)).length + 1 } := by
  have hlength := length_lastLine_le (source.take offset)
  rw [List.length_take_of_le h] at hlength
  rw [position_def, List.length_take_of_le h, Position.mk.injEq]
  refine ⟨rfl, ?_⟩
  omega

theorem position_lt {source : List Char} {first second : Nat} (h : first < second)
    (hwithin : second ≤ source.length) :
    (position source first).line < (position source second).line ∨
      (position source first).line = (position source second).line ∧
        (position source first).column < (position source second).column := by
  obtain ⟨distance, rfl⟩ := Nat.exists_eq_add_of_lt h
  rw [position_eq hwithin, position_eq (Nat.le_of_lt (Nat.lt_of_lt_of_le h hwithin)),
    Nat.add_assoc, List.take_add]
  have hlength : ((source.drop first).take (distance + 1)).length = distance + 1 := by
    rw [List.length_take_of_le]
    rw [List.length_drop]
    omega
  by_cases hnewline : '\n' ∈ (source.drop first).take (distance + 1)
  · have hcount := List.count_pos_iff.mpr hnewline
    refine .inl ?_
    rw [List.count_append]
    dsimp only
    omega
  · refine .inr ⟨?_, ?_⟩
    · rw [List.count_append, List.count_eq_zero.mpr hnewline]
    · rw [lastLine_append hnewline, List.length_append, List.length_reverse, hlength]
      dsimp only
      omega

theorem position_injective {source : List Char} {first second : Nat}
    (hfirst : first ≤ source.length) (hsecond : second ≤ source.length)
    (h : position source first = position source second) : first = second := by
  rcases Nat.lt_trichotomy first second with hlt | heq | hgt
  · have horder := position_lt hlt hsecond
    rw [h] at horder
    omega
  · exact heq
  · have horder := position_lt hgt hfirst
    rw [h] at horder
    omega

/-- The lines of a text that a newline ends, each of them with it. -/
def endedLines (text : List Char) : List (List Char) :=
  (text.splitOn '\n').dropLast.map (· ++ ['\n'])

theorem length_splitOn_newline (text : List Char) :
    (text.splitOn '\n').length = text.count '\n' + 1 := by
  rw [List.splitOn]
  induction text with
  | nil => rfl
  | cons c text ih =>
      rw [List.splitOnP_cons_eq_if_modifyHead, List.count_cons, Nat.add_right_comm, ← ih]
      split
      · rfl
      · rw [List.length_modifyHead, Nat.add_zero]

theorem flatten_splitOn_newline (text : List Char) :
    ((text.splitOn '\n').map (· ++ ['\n'])).flatten = text ++ ['\n'] := by
  rw [List.splitOn]
  induction text with
  | nil => rfl
  | cons c text ih =>
      obtain ⟨line, others, hsplit⟩ :=
        List.exists_cons_of_ne_nil (List.splitOnP_ne_nil (· == '\n') text)
      rw [hsplit] at ih
      rw [List.splitOnP_cons_eq_if_modifyHead, hsplit, List.cons_append, ← ih]
      split
      · rename_i hc
        rw [eq_of_beq hc]
        rfl
      · rfl

theorem endedLines_append_newline (before after : List Char) :
    endedLines (before ++ '\n' :: after) =
      (before.splitOn '\n').map (· ++ ['\n']) ++ endedLines after := by
  have hsplit : (before ++ '\n' :: after).splitOn '\n' =
      before.splitOn '\n' ++ after.splitOn '\n' :=
    List.splitOnP_append_cons before after (beq_self_eq_true '\n')
  rw [endedLines, hsplit, List.dropLast_append_of_ne_nil (List.splitOn_ne_nil _ _),
    List.map_append, endedLines]

theorem length_endedLines (text : List Char) : (endedLines text).length = text.count '\n' := by
  rw [endedLines, List.length_map, List.length_dropLast, length_splitOn_newline,
    Nat.add_sub_cancel]

theorem take_endedLines_append (passed rest : List Char) :
    ((endedLines (passed ++ rest)).take (passed.count '\n')).flatten ++ (lastLine passed).reverse =
      passed := by
  by_cases hnewline : '\n' ∈ passed
  · -- The newlines before the place are as many as the lines up to the last of them.
    obtain ⟨ended, line, rfl, hline⟩ := exists_last_newline hnewline
    have hcount : (ended ++ '\n' :: line).count '\n' =
        ((ended.splitOn '\n').map (· ++ ['\n'])).length := by
      rw [List.length_map, length_splitOn_newline, List.count_append, List.count_cons_self,
        List.count_eq_zero.mpr hline]
    rw [hcount, lastLine_of_last_newline hline, List.append_assoc, List.cons_append,
      endedLines_append_newline, List.take_left, flatten_splitOn_newline, List.reverse_reverse,
      List.append_assoc, List.singleton_append]
  · rw [List.count_eq_zero.mpr hnewline, lastLine_eq_reverse hnewline, List.reverse_reverse]
    rfl

theorem offset_eq_of_position {source : List Char} {offset : Nat} (h : offset ≤ source.length) :
    offset = ((endedLines source).take ((position source offset).line - 1)).flatten.length +
      ((position source offset).column - 1) := by
  have hparts := congrArg List.length
    (take_endedLines_append (source.take offset) (source.drop offset))
  rw [List.take_append_drop, List.length_append, List.length_reverse,
    List.length_take_of_le h] at hparts
  rw [position_eq h]
  exact hparts.symm

theorem line_position_le (source : List Char) (offset : Nat) :
    (position source offset).line - 1 ≤ (endedLines source).length := by
  rw [length_endedLines, position_def]
  exact (List.take_sublist offset source).count_le '\n'

/-- Places are coordinates of offsets. The line counts the newlines before an offset, and the column
what is left of the offset after the lines that these end. Places come in the order of their offsets
and are apart where those are, and text without newlines in front moves the ones in the first line
and no others. -/
theorem position_faithful {source : List Char} {offset : Nat} (h : offset ≤ source.length) :
    ∃ line column, position source offset = ⟨line, column⟩ ∧
      line - 1 = (source.take offset).count '\n' ∧ 1 ≤ line ∧ 1 ≤ column ∧
      line - 1 ≤ (endedLines source).length ∧
      offset = ((endedLines source).take (line - 1)).flatten.length + (column - 1) ∧
      (∀ later, offset < later → later ≤ source.length →
        line < (position source later).line ∨
          line = (position source later).line ∧ column < (position source later).column) ∧
      (∀ other, other ≤ source.length → position source other = ⟨line, column⟩ → other = offset) ∧
      ∀ before, '\n' ∉ before →
        position (before ++ source) (before.length + offset) =
          ⟨line, if line = 1 then column + before.length else column⟩ := by
  refine ⟨_, _, rfl, rfl, Nat.le_add_left 1 _, Nat.le_add_left 1 _, line_position_le source offset,
    offset_eq_of_position h, fun later => position_lt, fun other hother => ?_, fun before => ?_⟩
  · exact position_injective hother h
  · exact fun hbefore => position_append hbefore source offset

theorem position_of_second_newline :
    2 ≤ ['a', '\n', '\n', 'b'].length ∧
      position ['a', '\n', '\n', 'b'] 2 = ⟨2, 1⟩ ∧
      2 = ((endedLines ['a', '\n', '\n', 'b']).take 1).flatten.length ∧
      position ['c', 'a', '\n', '\n', 'b'] 3 = ⟨2, 1⟩ := by
  have hwithin : 2 ≤ ['a', '\n', '\n', 'b'].length := by decide
  have hplace : position ['a', '\n', '\n', 'b'] 2 = ⟨2, 1⟩ := by decide
  obtain ⟨line, column, hposition, -, -, -, -, hoffset, -, -, hfront⟩ := position_faithful hwithin
  obtain ⟨rfl, rfl⟩ := Position.mk.inj (hplace.symm.trans hposition)
  exact ⟨hwithin, hplace, hoffset, hfront ['c'] (by decide)⟩

end SmallLisp.Text
