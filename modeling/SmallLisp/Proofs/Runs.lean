import SmallLisp.Proofs.Words

namespace SmallLisp.Document

open Text

/-- That the run of a line around a column goes from one place up to another. No character in it
breaks words, and on each side of it is one that does or an end of the line. -/
structure RunAround (cs : List Char) (column start stop : Nat) : Prop where
  start_le : start ≤ column
  le_stop : column ≤ stop
  unbroken : ∀ c ∈ cs.extract start stop, c ∉ wordBreaks
  opens : start = 0 ∨ ∃ c ∈ wordBreaks, cs[start - 1]? = some c
  closes : stop = cs.length ∨ ∃ c ∈ wordBreaks, cs[stop]? = some c

section
variable {cs before word after : List Char} {c : Char}
  {column other start stop first last index : Nat}

theorem RunAround.stop_le (h : RunAround cs column start stop) : stop ≤ cs.length := by
  rcases h.closes with hstop | ⟨c, -, hc⟩
  · exact Nat.le_of_eq hstop
  · obtain ⟨hlt, -⟩ := List.getElem?_eq_some_iff.mp hc
    exact Nat.le_of_lt hlt

theorem RunAround.not_break (h : RunAround cs column start stop) (hstart : start ≤ index)
    (hstop : index < stop) (hc : cs[index]? = some c) : c ∉ wordBreaks := by
  have hplace : (cs.extract start stop)[index - start]? = some c := by
    rw [List.getElem?_take_of_lt (by omega), List.getElem?_drop, Nat.add_sub_cancel' hstart, hc]
  exact h.unbroken c (List.mem_of_getElem? hplace)

/-- A run does not start before another one around the same column, since it would go on through
the break that opens that one. -/
theorem RunAround.start_le_start (h : RunAround cs column start stop)
    (hother : RunAround cs column first last) : first ≤ start := by
  by_contra hlt
  rcases hother.opens with hfirst | ⟨c, hbreak, hc⟩
  · omega
  · have hfirst := hother.start_le
    have hstop := h.le_stop
    exact h.not_break (by omega) (by omega) hc hbreak

theorem RunAround.stop_le_stop (h : RunAround cs column start stop)
    (hother : RunAround cs column first last) : stop ≤ last := by
  by_contra hlt
  rcases hother.closes with hlast | ⟨c, hbreak, hc⟩
  · have hstop := h.stop_le
    omega
  · have hlast := hother.le_stop
    have hstart := h.start_le
    exact h.not_break (by omega) (by omega) hc hbreak

theorem RunAround.unique (h : RunAround cs column start stop)
    (hother : RunAround cs column first last) : first = start ∧ last = stop :=
  ⟨Nat.le_antisymm (h.start_le_start hother) (hother.start_le_start h),
    Nat.le_antisymm (hother.stop_le_stop h) (h.stop_le_stop hother)⟩

theorem RunAround.of_between (h : RunAround cs column start stop) (hstart : start ≤ other)
    (hstop : other ≤ stop) : RunAround cs other start stop :=
  { h with start_le := hstart, le_stop := hstop }

theorem extract_append (before word after : List Char) :
    (before ++ (word ++ after)).extract before.length (before.length + word.length) = word := by
  rw [List.extract_eq_take_drop, List.drop_left, Nat.add_sub_cancel_left, List.take_left]

theorem runAround_of_split (hword : ∀ c ∈ word, c ∉ wordBreaks)
    (hbefore : ∀ c, before.getLast? = some c → c ∈ wordBreaks)
    (hafter : ∀ c, after.head? = some c → c ∈ wordBreaks) (hcolumn : column ≤ word.length) :
    RunAround (before ++ (word ++ after)) (before.length + column) before.length
      (before.length + word.length) where
  start_le := Nat.le_add_right _ _
  le_stop := Nat.add_le_add_left hcolumn _
  unbroken := by rwa [extract_append]
  opens := by
    rcases List.eq_nil_or_concat' before with rfl | ⟨init, c, rfl⟩
    · exact .inl rfl
    · exact .inr ⟨c, hbefore c (by simp), by simp⟩
  closes := by
    cases after with
    | nil => exact .inl (by simp)
    | cons c after => exact .inr ⟨c, hafter c rfl, by simp⟩

theorem exists_break_after (ahead : List Char) :
    ∃ after, ahead = ahead.takeWhile inWord ++ after ∧
      ∀ c, after.head? = some c → c ∈ wordBreaks := by
  refine ⟨ahead.dropWhile inWord, List.takeWhile_append_dropWhile.symm, fun c hc => ?_⟩
  exact inWord_eq_false_iff.mp (Token.breaks_dropWhile inWord ahead c hc)

theorem exists_break_before (passed : List Char) :
    ∃ before, passed = before ++ passed.rtakeWhile inWord ∧
      ∀ c, before.getLast? = some c → c ∈ wordBreaks := by
  obtain ⟨after, hsplit, hbreak⟩ := exists_break_after passed.reverse
  refine ⟨after.reverse, ?_, fun c hc => hbreak c (by rwa [← List.getLast?_reverse])⟩
  rw [List.rtakeWhile, ← List.reverse_append, ← hsplit, List.reverse_reverse]

theorem exists_runAround (hcolumn : column ≤ cs.length) :
    ∃ start stop, RunAround cs column start stop ∧
      wordIn cs column = if start = stop then none else some (cs.extract start stop) := by
  obtain ⟨before, hleft, hbefore⟩ := exists_break_before (cs.take column)
  obtain ⟨after, hright, hafter⟩ := exists_break_after (cs.drop column)
  have hword : ∀ c ∈ (cs.take column).rtakeWhile inWord ++ (cs.drop column).takeWhile inWord,
      c ∉ wordBreaks := by
    intro c hc
    have hclass : inWord c :=
      (List.mem_append.mp hc).elim List.mem_rtakeWhile_imp List.mem_takeWhile_imp
    simpa [inWord] using hclass
  have hplace := congrArg List.length hleft
  have hline := List.take_append_drop column cs
  rw [List.length_take_of_le hcolumn, List.length_append] at hplace
  rw [wordIn_def]
  -- From here on only the four parts matter, in place of the line and the column.
  generalize (cs.take column).rtakeWhile inWord = left at hleft hword hplace ⊢
  generalize (cs.drop column).takeWhile inWord = right at hright hword ⊢
  rw [hleft, hright, List.append_assoc, ← List.append_assoc left] at hline
  subst hline hplace
  refine ⟨_, _, runAround_of_split hword hbefore hafter (by simp), ?_⟩
  rw [extract_append]
  simp

theorem wordIn_of_runAround (h : RunAround cs column start stop) :
    wordIn cs column = if start = stop then none else some (cs.extract start stop) := by
  -- Since there is only one run around a column, any that is known to be one tells the word.
  obtain ⟨first, last, hother, hword⟩ := exists_runAround (Nat.le_trans h.le_stop h.stop_le)
  obtain ⟨rfl, rfl⟩ := h.unique hother
  exact hword

theorem wordIn_min (cs : List Char) (column : Nat) :
    wordIn cs (min column cs.length) = wordIn cs column := by
  rcases Nat.le_total column cs.length with hwithin | hpast
  · rw [Nat.min_eq_left hwithin]
  · rw [Nat.min_eq_right hpast, wordIn_def, wordIn_def, List.take_length, List.drop_length,
      List.take_of_length_le hpast, List.drop_of_length_le hpast]

end

/-- The word at a place is the one run around its column, where a column past the end of the line
counts as its end. There is none if the run is empty or the line is missing. The word is the same at
all columns of the run, its end among them, and at all columns past the end of the line. -/
theorem wordAt_eq_run (text : List Char) (number column : Nat) :
    ((lines text).length ≤ number → wordAt text number column = none) ∧
      ∀ line, (lines text)[number]? = some line →
        ∃ start stop, RunAround line (min column line.length) start stop ∧
          (∀ first last, RunAround line (min column line.length) first last →
            first = start ∧ last = stop) ∧
          wordAt text number column =
            (if start = stop then none else some (line.extract start stop)) ∧
          (∀ other, start ≤ other → other ≤ stop →
            wordAt text number other = wordAt text number column) ∧
          ∀ other, line.length ≤ other →
            wordAt text number other = wordAt text number line.length := by
  refine ⟨fun hmissing => ?_, fun line hline => ?_⟩
  · rw [wordAt, List.getElem?_eq_none hmissing]
    rfl
  · have hword (place : Nat) : wordAt text number place = wordIn line (min place line.length) := by
      rw [wordAt, hline, wordIn_min]
      rfl
    obtain ⟨start, stop, hrun, hfound⟩ := exists_runAround (Nat.min_le_right column line.length)
    refine ⟨start, stop, hrun, fun _ _ => hrun.unique, ?_, fun other hstart hstop => ?_,
      fun other hpast => ?_⟩
    · rw [hword, hfound]
    · have hother := hrun.of_between hstart hstop
      rw [hword, hword, wordIn_min, hfound, wordIn_of_runAround hother]
    · rw [hword, hword, Nat.min_eq_right hpast, Nat.min_self]

end SmallLisp.Document
