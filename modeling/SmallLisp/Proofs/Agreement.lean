import SmallLisp.Proofs.Equality

namespace SmallLisp

theorem orderNumbers_eq_iff {a b : Int} : orderNumbers a b = .eq ↔ a = b := by
  unfold orderNumbers
  split
  · rename_i hless
    exact iff_of_false nofun (Int.ne_of_lt hless)
  · split
    · rename_i heq
      exact iff_of_true rfl heq
    · rename_i hne
      exact iff_of_false nofun hne

theorem orderTexts_eq_iff {as bs : List Char} : orderTexts as bs = .eq ↔ as = bs := by
  induction as generalizing bs with
  | nil => cases bs <;> simp [orderTexts]
  | cons a as ih =>
      cases bs with
      | nil => simp [orderTexts]
      | cons b bs =>
          have hcode : a = b ↔ a.toNat = b.toNat := Char.toNat_inj.symm
          rw [orderTexts, List.cons.injEq, hcode]
          split
          · simp only [reduceCtorEq, false_iff, not_and]
            omega
          · split
            · simp only [reduceCtorEq, false_iff, not_and]
              omega
            · rw [ih, iff_and_self]
              omega

namespace Coercion

variable {α : Type} {outcome : Outcome α} {taken : Option α} {oversize : Prop}

theorem Tries.ok_iff (h : Tries outcome taken oversize) (hfits : ¬ oversize) {answer : α} :
    outcome = .ok answer ↔ taken = some answer := by
  cases h with
  | stops hoversize _ => exact absurd hoversize hfits
  | takes _ htakes =>
      cases htakes with
      | taken other => simp
      | refused _ _ _ => simp

end Coercion

namespace Comparison

/-- Whether a primitive that compares two values says yes. -/
def Holds (levels : Nat) (name : String) (left right : Value) : Prop :=
  applyNamed levels name [left, right] = .ok (.boolean true)

variable {levels : Nat} {left right : Value}

theorem applyTest_iff {α : Type} {take : Nat → Value → Outcome α} {test : α → α → Bool} :
    Primitive.applyTest take test levels [left, right] = .ok (.boolean true) ↔
      ∃ a b, take levels left = .ok a ∧ take levels right = .ok b ∧ test a b = true := by
  simp only [Primitive.applyTest]
  cases take levels left with
  | error fault => simp [bind, Except.bind]
  | ok a =>
      cases take levels right with
      | error fault => simp [bind, Except.bind]
      | ok b => simp [bind, Except.bind, pure, Except.pure]

theorem applyComparison_iff {compare : Nat → Value → Value → Outcome Bool} :
    Primitive.applyComparison compare levels [left, right] = .ok (.boolean true) ↔
      compare levels left right = .ok true := by
  simp only [Primitive.applyComparison]
  cases compare levels left right with
  | error fault => simp [Except.map]
  | ok answer => simp [Except.map]

theorem holds_strict_iff (hleft : left.Manageable levels) :
    Holds levels "eqv?" left right ↔ left = right ∧ left.EveryLeaf Value.Equatable := by
  have hdecides : (strict levels left right).Decides _ :=
    strict_decides hleft.wellFormed hleft.depth_le
  have hname : Holds levels "eqv?" left right ↔ strict levels left right = .ok true :=
    applyComparison_iff
  rw [hname, hdecides.eq_true_iff, and_comm]

theorem holds_loose_iff (hleft : left.Manageable levels) (hright : right.Manageable levels) :
    Holds levels "equal?" left right ↔ Alike left right := by
  have hname : Holds levels "equal?" left right ↔ loose levels left right = .ok true :=
    applyComparison_iff
  rw [hname, (loose_decides hleft hright).eq_true_iff]

theorem holds_number_iff (hleft : left.Manageable levels) (hright : right.Manageable levels) :
    Holds levels "=" left right ↔ ∃ n, left.number? = some n ∧ right.number? = some n := by
  have hname : Holds levels "=" left right ↔ ∃ m n, Coercion.number levels left = .ok m ∧
      Coercion.number levels right = .ok n ∧ Relation.equal.holds (orderNumbers m n) = true :=
    applyTest_iff
  have htaken (value : Value) (h : value.Manageable levels) (n : Int) :
      Coercion.number levels value = .ok n ↔ value.number? = some n :=
    (Coercion.number_tries h.wellFormed h.depth_le).ok_iff h.not_uncountable
  simp only [hname, htaken left hleft, htaken right hright, Relation.holds, decide_eq_true_eq,
    orderNumbers_eq_iff]
  constructor
  · rintro ⟨m, n, hm, hn, rfl⟩
    exact ⟨m, hm, hn⟩
  · rintro ⟨n, hm, hn⟩
    exact ⟨n, n, hm, hn, rfl⟩

theorem holds_text_iff (hleft : left.Manageable levels) (hright : right.Manageable levels) :
    Holds levels "string=?" left right ↔ ∃ cs, left.text? = some cs ∧ right.text? = some cs := by
  have hname : Holds levels "string=?" left right ↔ ∃ as bs, Coercion.text levels left = .ok as ∧
      Coercion.text levels right = .ok bs ∧ Relation.equal.holds (orderTexts as bs) = true :=
    applyTest_iff
  have htaken (value : Value) (h : value.Manageable levels) (cs : List Char) :
      Coercion.text levels value = .ok cs ↔ value.text? = some cs :=
    (Coercion.text_tries h.wellFormed h.depth_le).ok_iff (not_not_intro h.short)
  simp only [hname, htaken left hleft, htaken right hright, Relation.holds, decide_eq_true_eq,
    orderTexts_eq_iff]
  constructor
  · rintro ⟨as, bs, has, hbs, rfl⟩
    exact ⟨as, has, hbs⟩
  · rintro ⟨cs, has, hbs⟩
    exact ⟨cs, cs, has, hbs, rfl⟩

/-- Whether the strict comparison, the equality of numbers or the equality of texts says yes. A
comparison that fails does not. -/
def FinerHolds (levels : Nat) (left right : Value) : Prop :=
  ∃ name ∈ ["eqv?", "=", "string=?"], Holds levels name left right

theorem finerHolds_iff (hleft : left.Manageable levels) (hright : right.Manageable levels) :
    FinerHolds levels left right ↔
      (left = right ∧ left.EveryLeaf Value.Equatable) ∨
      (∃ n, left.number? = some n ∧ right.number? = some n) ∨
      ∃ cs, left.text? = some cs ∧ right.text? = some cs := by
  simp only [FinerHolds, List.mem_cons, List.not_mem_nil, or_false, exists_eq_or_imp,
    exists_eq_left, holds_strict_iff hleft, holds_number_iff hleft hright,
    holds_text_iff hleft hright]

theorem alike_of_finer (hwhole : left.WellFormed)
    (h : (left = right ∧ left.EveryLeaf Value.Equatable) ∨
      (∃ n, left.number? = some n ∧ right.number? = some n) ∨
      ∃ cs, left.text? = some cs ∧ right.text? = some cs) : Alike left right := by
  rcases h with ⟨rfl, hleaves⟩ | ⟨n, hm, hn⟩ | ⟨cs, has, hbs⟩
  · exact (Alike.self_iff hwhole).mpr hleaves
  · exact .number hm hn
  · exact .text has hbs

/-- Loose equality says yes wherever a finer comparison does, of lists too, where it goes position
by position and the equality of numbers goes down to the only element of each. Of two values that
are not both lists it says yes nowhere else: agreement as truth values adds nothing. -/
theorem loose_of_finer (hleft : left.Manageable levels) (hright : right.Manageable levels) :
    (FinerHolds levels left right → Holds levels "equal?" left right) ∧
    ((∀ lefts rights, left = .list lefts → right ≠ .list rights) →
      (Holds levels "equal?" left right ↔ FinerHolds levels left right)) := by
  rw [holds_loose_iff hleft hright, finerHolds_iff hleft hright]
  refine ⟨alike_of_finer hleft.wellFormed, fun hlist => ⟨fun h => ?_,
    alike_of_finer hleft.wellFormed⟩⟩
  cases h with
  | number hm hn => exact .inr (.inl ⟨_, hm, hn⟩)
  | text has hbs => exact .inr (.inr ⟨_, has, hbs⟩)
  | symbol name => exact .inl ⟨rfl, by simp [Value.Equatable]⟩
  | list _ => exact absurd rfl (hlist _ _ rfl)

theorem loose_of_finer_lists :
    Holds 100 "=" (.list [.list [.text "0x1f"]]) (.list [.text " 31 days"]) ∧
    Holds 100 "equal?" (.list [.list [.text "0x1f"]]) (.list [.text " 31 days"]) ∧
    ¬ FinerHolds 100 (.boolean true) (.text "#t") ∧
    ¬ Holds 100 "equal?" (.boolean true) (.text "#t") := by
  have hshort (content : String) (hlength : content.toList.length ≤ Text.digitLimit) :
      (Value.text content).EveryLeaf Value.Convertible := by
    have hruns : LeadingInteger.ShortRuns content.toList := fun _ hrun _ =>
      hrun.length_le.trans hlength
    simpa [Value.Convertible] using hruns
  have hnested : (Value.list [.list [.text "0x1f"]]).Manageable 100 :=
    ⟨by simp [Value.WellFormed], by simp [Value.Short],
      by simpa using hshort "0x1f" (by decide), by simp [Value.greatestDepth]⟩
  have hdays : (Value.list [.text " 31 days"]).Manageable 100 :=
    ⟨by simp [Value.WellFormed], by simp [Value.Short],
      by simpa using hshort " 31 days" (by decide), by simp [Value.greatestDepth]⟩
  have htruth : (Value.boolean true).Manageable 100 :=
    ⟨by simp [Value.WellFormed], by simp [Value.Short], by simp [Value.Convertible], by simp⟩
  have htext : (Value.text "#t").Manageable 100 :=
    ⟨by simp [Value.WellFormed], by simp [Value.Short], hshort "#t" (by decide), by simp⟩
  have hequal : Holds 100 "=" (.list [.list [.text "0x1f"]]) (.list [.text " 31 days"]) := by
    rw [holds_number_iff hnested hdays]
    exact ⟨31, by decide, by decide⟩
  have hnone : ¬ FinerHolds 100 (.boolean true) (.text "#t") := by
    rw [finerHolds_iff htruth htext]
    simp [Value.number?, Value.text?]
  refine ⟨hequal, (loose_of_finer hnested hdays).1 ⟨"=", by decide, hequal⟩, hnone, ?_⟩
  rwa [(loose_of_finer htruth htext).2 (by simp)]

end Comparison

end SmallLisp
