import SmallLisp.Proofs.DefectFreedom
import SmallLisp.Proofs.Descent
import SmallLisp.Proofs.Levels
import SmallLisp.Proofs.RoundTrip

namespace SmallLisp

namespace Value

theorem FromSource.ne_absent {leaf : Value} (h : leaf.FromSource) : leaf ≠ absent := by
  rintro rfl
  exact h

theorem FromSource.short {leaf : Value} (h : leaf.FromSource) : leaf.Short := by
  rintro number rfl
  exact h.2

theorem exists_render_of_fromSource {value : Value} (h : value.EveryLeaf FromSource) :
    ∃ text, ∀ levels, value.render levels = .ok text ∨
      value.render levels = .fail .tooDeep ∧ levels < value.depth := by
  have hwhole : value.WellFormed := h.imp fun _ => FromSource.ne_absent
  obtain ⟨cs, hcs⟩ := exists_chars hwhole (h.imp fun _ => FromSource.short) (Nat.le_refl _)
  have htext : value.render value.depth = .ok (String.ofList cs) := by
    rw [render, hcs]
    rfl
  refine ⟨String.ofList cs, fun levels => ?_⟩
  rcases Nat.lt_or_ge levels value.depth with hlevels | hlevels
  · have happroximates := value.render_approximates (Nat.le_of_lt hlevels)
    rw [htext] at happroximates
    by_cases hdeep : value.render levels = .fail .tooDeep
    · exact .inr ⟨hdeep, hlevels⟩
    · exact .inl (happroximates.eq hdeep).symm
  · have happroximates := value.render_approximates hlevels
    rw [htext] at happroximates
    exact .inl happroximates.ok

end Value

namespace Reader

variable {options : Options} {source : List Char} {value : Value}

theorem everyLeaf_fromSource_of_read (h : read options source = .ok value) :
    value.EveryLeaf Value.FromSource := by
  obtain ⟨taken, htaken, hderives⟩ := derives_of_read h
  have hfurther : ['u', 'o', 't', 'e'].all Token.continuesAtom := by decide
  have hquote : Value.FromSource (.symbol "quote") :=
    ⟨⟨'q', _, rfl, by decide, List.all_eq_true.mp hfurther⟩, by decide, by decide⟩
  exact hderives.everyLeaf hquote fun token htoken leaf hleaf =>
    Value.fromSource_of_leaf hleaf (Token.genuine_of_mem_lex (htaken.subset htoken))

/-- What is read has leaves of the reader's kinds only and is as deep as the forms that the reader
descended into. So it has a text. When it evaluates to the failure that some form is none of the
language, that form is a part of it and has a text too, which the failure shows. -/
theorem image_of_read (h : read options source = .ok value) :
    value.EveryLeaf Value.FromSource ∧
    value.depth = deepest options (.expression []) (Token.lex source) ∧
    value.depth ≤ options.levels ∧
    (∃ text, ∀ levels, value.render levels = .ok text ∨
      value.render levels = .fail .tooDeep ∧ levels < value.depth) ∧
    ∀ levels problem form shown,
      evaluate levels value = .error (.failure (.badForm problem form shown)) →
        form.Part value ∧ ∀ more, form.depth ≤ more → form.render more = .ok shown := by
  have hsource := everyLeaf_fromSource_of_read h
  obtain ⟨hdepth, hlevels⟩ := depth_of_read h
  refine ⟨hsource, hdepth, hlevels, Value.exists_render_of_fromSource hsource, ?_⟩
  intro levels problem form shown hevaluate
  have hwhole : value.WellFormed := hsource.imp fun _ => Value.FromSource.ne_absent
  have hwithin := evaluate_within levels hwhole (.whole value)
  rw [hevaluate] at hwithin
  cases hwithin with
  | failure harises =>
      obtain ⟨hpart, enough, hshown⟩ := harises
      obtain ⟨text, htext⟩ := Value.exists_render_of_fromSource (hpart.everyLeaf hsource)
      have hsame : text = shown := by
        rcases htext enough with hrender | ⟨hrender, -⟩
        · exact Except.ok.inj (hrender.symm.trans hshown)
        · cases hrender.symm.trans hshown
      refine ⟨hpart, fun more hmore => ?_⟩
      rw [← hsame]
      exact (htext more).resolve_right fun hdeep => Nat.not_lt.mpr hmore hdeep.2

theorem image_of_read_argument :
    ∃ value form shown,
      read { strict := true, levels := 2 } "(car (\"a\"))".toList = .ok value ∧
      evaluate 2 value = .error (.failure (.badForm "Unrecognized special form" form shown)) ∧
      form.Part value ∧ ∀ more, form.depth ≤ more → form.render more = .ok shown := by
  have hlex : Token.lex "(car (\"a\"))".toList =
      [{ kind := .opening .round, text := ['('], offset := 0 },
        { kind := .atom, text := ['c', 'a', 'r'], offset := 1 },
        { kind := .blank, text := [' '], offset := 4 },
        { kind := .opening .round, text := ['('], offset := 5 },
        { kind := .text, text := ['"', 'a', '"'], offset := 6 },
        { kind := .closing .round, text := [')'], offset := 9 },
        { kind := .closing .round, text := [')'], offset := 10 }] := by
    decide +kernel
  have hread : read { strict := true, levels := 2 } "(car (\"a\"))".toList =
      .ok (.list [.symbol "car", .list [.text "a"]]) := by
    rw [read_eq, reading, hlex]
    rfl
  have hevaluate : evaluate 2 (.list [.symbol "car", .list [.text "a"]]) =
      .error (.failure (.badForm "Unrecognized special form" (.list [.text "a"]) "(\"a\")")) := by
    rfl
  obtain ⟨-, -, -, -, hform⟩ := image_of_read hread
  exact ⟨_, _, _, hread, hevaluate, hform _ _ _ _ hevaluate⟩

end Reader

end SmallLisp
