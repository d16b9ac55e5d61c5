import SmallLisp.Comparison
import SmallLisp.Proofs.Alike

namespace SmallLisp

/-- Whether two lists have a place where something holds of the values of both, after places where
they are all related. -/
inductive Reaches (R S : Value → Value → Prop) : List Value → List Value → Prop
  | here {a b : Value} (as bs : List Value) : S a b → Reaches R S (a :: as) (b :: bs)
  | later {a b : Value} {as bs : List Value} : R a b → Reaches R S as bs →
      Reaches R S (a :: as) (b :: bs)

namespace Reaches

variable {R S : Value → Value → Prop} {as bs : List Value}

theorem cons_iff {a b : Value} :
    Reaches R S (a :: as) (b :: bs) ↔ S a b ∨ R a b ∧ Reaches R S as bs := by
  constructor
  · intro h
    cases h with
    | here _ _ hab => exact .inl hab
    | later hab hplace => exact .inr ⟨hab, hplace⟩
  · rintro (hab | ⟨hab, hplace⟩)
    · exact .here as bs hab
    · exact .later hab hplace

theorem exists_mem (h : Reaches R S as bs) : ∃ a ∈ as, ∃ b ∈ bs, S a b := by
  induction h with
  | here as bs hab => exact ⟨_, by simp, _, by simp, hab⟩
  | later _ _ ih =>
      obtain ⟨a, ha, b, hb, hab⟩ := ih
      exact ⟨a, List.mem_cons_of_mem _ ha, b, List.mem_cons_of_mem _ hb, hab⟩

end Reaches

namespace Value

/-- Whether too many digits are met when two values are compared that are not both lists. They are
taken for numbers first, and for texts unless the numbers are the same; the right one is looked at
only if the left one is taken for something. -/
def Overflows (left right : Value) : Prop :=
  left.Uncountable ∨ (left.number?.isSome ∧ right.Uncountable) ∨
    (¬ (∃ n, left.number? = some n ∧ right.number? = some n) ∧
      (¬ left.EveryLeaf Short ∨ (left.text?.isSome ∧ ¬ right.EveryLeaf Short)))

/-- Whether too many digits are met when two values are compared. Lists are compared no further than
the first place where they are not alike. -/
inductive Oversized : Value → Value → Prop
  | pair {left right : Value} : (∀ lefts rights, left = list lefts → right ≠ list rights) →
      Overflows left right → Oversized left right
  | list {lefts rights : List Value} : lefts.length = rights.length →
      Reaches Alike Oversized lefts rights → Oversized (.list lefts) (.list rights)

theorem oversized_pair_iff {left right : Value}
    (hlist : ∀ lefts rights, left = list lefts → right ≠ list rights) :
    Oversized left right ↔ Overflows left right := by
  constructor
  · intro h
    cases h with
    | pair _ h => exact h
    | list _ _ => exact absurd rfl (hlist _ _ rfl)
  · exact .pair hlist

theorem oversized_list_iff {lefts rights : List Value} :
    Oversized (list lefts) (list rights) ↔
      lefts.length = rights.length ∧ Reaches Alike Oversized lefts rights := by
  constructor
  · intro h
    cases h with
    | pair hlist _ => exact absurd rfl (hlist _ _ rfl)
    | list hlength hplace => exact ⟨hlength, hplace⟩
  · rintro ⟨hlength, hplace⟩
    exact .list hlength hplace

theorem Manageable.not_overflows {levels : Nat} {left right : Value}
    (hleft : left.Manageable levels) (hright : right.Manageable levels) :
    ¬ Overflows left right := by
  simp [Overflows, hleft.not_uncountable, hright.not_uncountable, hleft.short, hright.short]

theorem Manageable.not_oversized {levels : Nat} {left right : Value}
    (hleft : left.Manageable levels) (hright : right.Manageable levels) :
    ¬ Oversized left right := by
  induction left generalizing levels right with
  | list lefts ih =>
      intro h
      cases h with
      | pair _ h => exact hleft.not_overflows hright h
      | @list _ rights _ hplace =>
          obtain ⟨item, hitem, other, hother, hitems⟩ := hplace.exists_mem
          cases levels with
          | zero => exact absurd hleft.depth_le (by simp)
          | succ levels => exact ih item hitem (hleft.item hitem) (hright.item hother) hitems
  | _ =>
      rw [oversized_pair_iff (by simp)]
      exact hleft.not_overflows hright

end Value

/-- Whether an outcome is an answer, and the answer to a question. -/
def Outcome.Decides (outcome : Outcome Bool) (question : Prop) : Prop :=
  ∃ answer : Bool, outcome = .ok answer ∧ (answer = true ↔ question)

namespace Outcome

variable {outcome other : Outcome Bool} {p q : Prop}

theorem Decides.congr (h : outcome.Decides p) (hpq : p ↔ q) : outcome.Decides q := by
  obtain ⟨answer, houtcome, hanswer⟩ := h
  exact ⟨answer, houtcome, hanswer.trans hpq⟩

theorem Decides.eq_true_iff (h : outcome.Decides p) : outcome = .ok true ↔ p := by
  obtain ⟨answer, rfl, hanswer⟩ := h
  rw [← hanswer, Except.ok.injEq]

theorem Decides.unique (h : outcome.Decides p) (hother : other.Decides p) : outcome = other := by
  obtain ⟨answer, rfl, hanswer⟩ := h
  obtain ⟨answer', rfl, hanswer'⟩ := hother
  rw [Bool.eq_iff_iff.mpr (hanswer.trans hanswer'.symm)]

/-- Whether an outcome is the answer to a question, unless a number with too many digits is in the
way. -/
inductive Settles (outcome : Outcome Bool) (question oversize : Prop) : Prop
  | decides : ¬ oversize → outcome.Decides question → Settles outcome question oversize
  | stops : oversize → outcome.Stops → Settles outcome question oversize

theorem Decides.settles (h : outcome.Decides p) : outcome.Settles p False :=
  .decides not_false h

section
variable {P Q : Prop}

theorem Settles.congr {p' P' : Prop} (h : outcome.Settles p P) (hp : p ↔ p') (hP : P ↔ P') :
    outcome.Settles p' P' := by
  obtain rfl : p = p' := propext hp
  obtain rfl : P = P' := propext hP
  exact h

/-- The second of two questions is asked only when the answer to the first is no. -/
theorem Settles.orElse (h : outcome.Settles p P) (hother : other.Settles q Q) :
    Settles (do if ← outcome then return true else other) (p ∨ q) (P ∨ ¬ p ∧ Q) := by
  cases h with
  | stops hP hstops => exact .stops (.inl hP) (hstops.bind _)
  | decides hP hdecides =>
      obtain ⟨answer, rfl, hanswer⟩ := hdecides
      cases answer with
      | true =>
          have hp : p := hanswer.mp rfl
          exact .decides (by simp [hP, hp]) ⟨true, rfl, by simp [hp]⟩
      | false =>
          have hp : ¬ p := by simpa using hanswer
          exact hother.congr (by simp [hp]) (by simp [hP, hp])

theorem Settles.andThen (h : outcome.Settles p P) (hother : other.Settles q Q) :
    Settles (do if ← outcome then other else return false) (p ∧ q) (P ∨ p ∧ Q) := by
  cases h with
  | stops hP hstops => exact .stops (.inl hP) (hstops.bind _)
  | decides hP hdecides =>
      obtain ⟨answer, rfl, hanswer⟩ := hdecides
      cases answer with
      | true =>
          have hp : p := hanswer.mp rfl
          exact hother.congr (by simp [hp]) (by simp [hP, hp])
      | false =>
          have hp : ¬ p := by simpa using hanswer
          exact .decides (by simp [hP, hp]) ⟨false, rfl, by simp [hp]⟩

end

end Outcome

namespace Comparison

open Outcome (Decides Settles)

theorem everywhere_settles {compare : Value → Value → Outcome Bool} {R S : Value → Value → Prop}
    {lefts rights : List Value} (hlength : lefts.length = rights.length)
    (hcompare : ∀ left ∈ lefts, ∀ right ∈ rights,
      (compare left right).Settles (R left right) (S left right)) :
    (everywhere compare lefts rights).Settles (List.Forall₂ R lefts rights)
      (Reaches R S lefts rights) := by
  induction lefts generalizing rights with
  | nil =>
      obtain rfl := List.eq_nil_of_length_eq_zero hlength.symm
      exact .decides nofun ⟨true, rfl, by simp⟩
  | cons left lefts ih =>
      cases rights with
      | nil => simp at hlength
      | cons right rights =>
          have hfirst := hcompare left (by simp) right (by simp)
          have hothers := ih (Nat.succ.inj hlength) fun left hleft right hright =>
            hcompare left (List.mem_cons_of_mem _ hleft) right (List.mem_cons_of_mem _ hright)
          exact (hfirst.andThen hothers).congr List.forall₂_cons.symm Reaches.cons_iff.symm

theorem everywhere_decides {compare : Value → Value → Outcome Bool} {R : Value → Value → Prop}
    {lefts rights : List Value} (hlength : lefts.length = rights.length)
    (hcompare : ∀ left ∈ lefts, ∀ right ∈ rights, (compare left right).Decides (R left right)) :
    (everywhere compare lefts rights).Decides (List.Forall₂ R lefts rights) := by
  have hsettles : (everywhere compare lefts rights).Settles (List.Forall₂ R lefts rights) _ :=
    everywhere_settles hlength fun left hleft right hright =>
      (hcompare left hleft right hright).settles
  cases hsettles with
  | decides _ hdecides => exact hdecides
  | stops hplace _ =>
      obtain ⟨_, _, _, _, hfalse⟩ := hplace.exists_mem
      exact hfalse.elim

theorem agree_settles {α : Type} [DecidableEq α] {take : Value → Outcome α} {left right : Value}
    {l r : Option α} {P Q : Prop} (hleft : Coercion.Tries (take left) l P)
    (hright : Coercion.Tries (take right) r Q) :
    (agree take left right).Settles (∃ x, l = some x ∧ r = some x) (P ∨ l.isSome ∧ Q) := by
  -- The right value is looked at only if the left one is taken for something.
  unfold agree
  generalize take left = outcome at hleft
  generalize take right = other at hright
  cases hleft with
  | stops hP hstops => exact .stops (.inl hP) (by cases hstops <;> constructor)
  | takes hP htakes =>
      cases htakes with
      | refused _ _ _ => exact .decides (by simp [hP]) ⟨false, rfl, by simp⟩
      | taken a =>
          cases hright with
          | stops hQ hstops => exact .stops (.inr ⟨rfl, hQ⟩) (by cases hstops <;> constructor)
          | takes hQ htakes =>
              refine .decides (by simp [hP, hQ]) ?_
              cases htakes with
              | refused _ _ _ => exact ⟨false, rfl, by simp⟩
              | taken b => exact ⟨decide (a = b), rfl, by simp [eq_comm]⟩

theorem strict_decides {levels : Nat} {left right : Value} (hwhole : left.WellFormed)
    (hdepth : left.depth ≤ levels) :
    (strict levels left right).Decides (left.EveryLeaf Value.Equatable ∧ left = right) := by
  induction left generalizing levels right with
  | list lefts ih =>
      cases levels with
      | zero => simp at hdepth
      | succ levels =>
          cases right with
          | list rights =>
              rw [Value.wellFormed_list] at hwhole
              rw [Value.depth_list_le_succ_iff] at hdepth
              simp only [strict]
              split
              · rename_i hlength
                have hitems : (everywhere (strict levels) lefts rights).Decides
                    (List.Forall₂ (fun left right =>
                      left.EveryLeaf Value.Equatable ∧ left = right) lefts rights) :=
                  everywhere_decides hlength fun left hleft _ _ =>
                    ih left hleft (hwhole left hleft) (hdepth left hleft)
                apply hitems.congr
                simp only [List.forall₂_and_left, List.forall₂_eq_eq_eq, Value.EveryLeaf,
                  Value.list.injEq]
              · rename_i hlength
                refine ⟨false, rfl, ?_⟩
                simp only [Bool.false_eq_true, Value.list.injEq, false_iff]
                rintro ⟨-, rfl⟩
                exact hlength rfl
          | _ => exact ⟨false, rfl, by simp⟩
  | absent => simp [Value.WellFormed] at hwhole
  | decimal number => cases levels <;> exact ⟨false, rfl, by simp [Value.Equatable]⟩
  | character char => cases levels <;> exact ⟨false, rfl, by simp [Value.Equatable]⟩
  | boolean a =>
      cases right <;> cases levels <;> exact ⟨_, rfl, by simp [Value.Equatable]⟩
  | integer a =>
      cases right <;> cases levels <;> exact ⟨_, rfl, by simp [Value.Equatable]⟩
  | text a =>
      cases right <;> cases levels <;> exact ⟨_, rfl, by simp [Value.Equatable]⟩
  | symbol a =>
      cases right <;> cases levels <;> exact ⟨_, rfl, by simp [Value.Equatable]⟩

/-- On whole values that are not too deep, strict comparison always answers, by either of its names:
yes for one and the same value without decimals and characters, and no for all else. -/
theorem strict_identity {levels : Nat} {left : Value} (hwhole : left.WellFormed)
    (hdepth : left.depth ≤ levels) (right : Value) :
    ∃ answer : Bool,
      strict levels left right = .ok answer ∧
      (∀ name ∈ ["eq?", "eqv?"], applyNamed levels name [left, right] = .ok (.boolean answer)) ∧
      (answer = true ↔ left = right ∧ left.EveryLeaf Value.Equatable) := by
  have hdecides : (strict levels left right).Decides _ := strict_decides hwhole hdepth
  obtain ⟨answer, hanswer, hquestion⟩ := hdecides
  have happly : (strict levels left right).map Value.boolean = .ok (.boolean answer) := by
    rw [hanswer]
    rfl
  refine ⟨answer, hanswer, ?_, hquestion.trans And.comm⟩
  intro name hname
  rw [List.mem_pair] at hname
  rcases hname with rfl | rfl
  · exact happly
  · exact happly

theorem strict_one_and_true :
    strict 2 (.list [.integer 1, .list [.text "a"]]) (.list [.integer 1, .list [.text "a"]]) =
      .ok true ∧
    strict 2 (.list [.integer 1, .list [.text "a"]]) (.list [.boolean true, .list [.text "a"]]) =
      .ok false := by
  have hwhole : (Value.list [.integer 1, .list [.text "a"]]).WellFormed := by
    simp [Value.WellFormed]
  have hdepth : (Value.list [.integer 1, .list [.text "a"]]).depth ≤ 2 := by decide
  obtain ⟨answer, hsame, -, hanswer⟩ := strict_identity hwhole hdepth _
  obtain rfl : answer = true := hanswer.mpr ⟨rfl, by simp [Value.Equatable]⟩
  obtain ⟨other, hother, -, hdifferent⟩ :=
    strict_identity hwhole hdepth (.list [.boolean true, .list [.text "a"]])
  obtain rfl : other = false := by simpa using hdifferent
  exact ⟨hsame, hother⟩

section
variable {levels : Nat} {left right : Value}

theorem loosely_settles (hleft : left.WellFormed) (hright : right.WellFormed)
    (hleftDepth : left.depth ≤ levels) (hrightDepth : right.depth ≤ levels)
    (hlist : ∀ lefts rights, left = .list lefts → right ≠ .list rights) :
    (loosely levels left right).Settles (Alike left right) (Value.Overflows left right) := by
  have hnumber := agree_settles (Coercion.number_tries hleft hleftDepth)
    (Coercion.number_tries hright hrightDepth)
  have htext := agree_settles (Coercion.text_tries hleft hleftDepth)
    (Coercion.text_tries hright hrightDepth)
  have hboolean := agree_settles (Coercion.boolean_tries hleft hleftDepth)
    (Coercion.boolean_tries hright hrightDepth)
  have hstrict : (strict levels left right).Decides _ := strict_decides hleft hleftDepth
  apply (hnumber.orElse (htext.orElse (hboolean.orElse hstrict.settles))).congr
  · constructor
    · rintro (⟨n, ha, hb⟩ | ⟨cs, ha, hb⟩ | ⟨truth, ha, hb⟩ | ⟨hleaves, rfl⟩)
      · exact .number ha hb
      · exact .text ha hb
      · cases left <;> cases right <;> simp [Value.boolean?] at ha hb
        subst ha hb
        exact .text rfl rfl
      · exact (Alike.self_iff hleft).mpr hleaves
    · intro h
      cases h with
      | number ha hb => exact .inl ⟨_, ha, hb⟩
      | text ha hb => exact .inr (.inl ⟨_, ha, hb⟩)
      | symbol name => exact .inr (.inr (.inr ⟨by simp [Value.Equatable], rfl⟩))
      | list _ => exact absurd rfl (hlist _ _ rfl)
  · -- What is taken for a truth value is taken for a text, so truth values stop nothing more.
    have htaken : left.boolean?.isSome → left.text?.isSome := by
      cases left <;> simp [Value.boolean?, Value.text?]
    have hstops : ¬ left.EveryLeaf Value.Short ∨
        left.boolean?.isSome ∧ ¬ right.EveryLeaf Value.Short →
          ¬ left.EveryLeaf Value.Short ∨ left.text?.isSome ∧ ¬ right.EveryLeaf Value.Short :=
      Or.imp_right (And.imp_left htaken)
    rw [and_false, or_false, or_iff_left_of_imp (hstops ∘ And.right), or_assoc]
    rfl

theorem loose_of_not_list (hlist : ∀ lefts rights, left = .list lefts → right ≠ .list rights) :
    loose levels left right = loosely levels left right := by
  unfold loose
  split
  · exact absurd rfl (hlist _ _ rfl)
  · exact absurd rfl (hlist _ _ rfl)
  · rfl

theorem loose_settles (hleft : left.WellFormed) (hright : right.WellFormed)
    (hleftDepth : left.depth ≤ levels) (hrightDepth : right.depth ≤ levels) :
    (loose levels left right).Settles (Alike left right) (Value.Oversized left right) := by
  induction left generalizing levels right with
  | list lefts ih =>
      by_cases hlist : ∃ rights, right = .list rights
      · obtain ⟨rights, rfl⟩ := hlist
        cases levels with
        | zero => simp at hleftDepth
        | succ levels =>
            rw [Value.wellFormed_list] at hleft hright
            rw [Value.depth_list_le_succ_iff] at hleftDepth hrightDepth
            simp only [loose]
            split
            · rename_i hlength
              have hitems := everywhere_settles hlength fun left hmem right hmem' =>
                ih left hmem (hleft left hmem) (hright right hmem') (hleftDepth left hmem)
                  (hrightDepth right hmem')
              apply hitems.congr Alike.list_iff.symm
              simp [Value.oversized_list_iff, hlength]
            · rename_i hlength
              refine .decides ?_ ⟨false, rfl, ?_⟩
              · simp [Value.oversized_list_iff, hlength]
              · rw [Alike.list_iff]
                simpa using fun h : List.Forall₂ Alike lefts rights => hlength h.length_eq
      · have hlist : ∀ items rights, Value.list lefts = .list items → right ≠ .list rights :=
          fun _ rights _ hright => hlist ⟨rights, hright⟩
        rw [loose_of_not_list hlist]
        exact (loosely_settles hleft hright hleftDepth hrightDepth hlist).congr Iff.rfl
          (Value.oversized_pair_iff hlist).symm
  | _ =>
      rw [loose_of_not_list (by simp)]
      exact (loosely_settles hleft hright hleftDepth hrightDepth (by simp)).congr Iff.rfl
        (Value.oversized_pair_iff (by simp)).symm

theorem loose_decides (hleft : left.Manageable levels) (hright : right.Manageable levels) :
    (loose levels left right).Decides (Alike left right) := by
  have hsettles : (loose levels left right).Settles _ _ :=
    loose_settles hleft.wellFormed hright.wellFormed hleft.depth_le hright.depth_le
  cases hsettles with
  | decides _ hdecides => exact hdecides
  | stops hoversize _ => exact absurd hoversize (hleft.not_oversized hright)

end

/-- Loose equality is a partial equivalence: on values that can be rendered and taken for numbers it
always answers, does not depend on the order of the values, and is transitive; and just those values
are equal to themselves that hold no decimals and no characters. -/
theorem loose_partial_equivalence {levels : Nat} {a b c : Value} (ha : a.Manageable levels)
    (hb : b.Manageable levels) (hc : c.Manageable levels) :
    (∃ answer, loose levels a b = .ok answer) ∧
    loose levels a b = loose levels b a ∧
    (loose levels a b = .ok true → loose levels b c = .ok true → loose levels a c = .ok true) ∧
    (loose levels a a = .ok true ↔ a.EveryLeaf Value.Equatable) := by
  have hab := loose_decides ha hb
  have hbc := loose_decides hb hc
  have hac := loose_decides ha hc
  refine ⟨?_, ?_, ?_, ?_⟩
  · obtain ⟨answer, hanswer, -⟩ := hab
    exact ⟨answer, hanswer⟩
  · have hba := (loose_decides hb ha).congr ⟨Alike.symm, Alike.symm⟩
    exact hab.unique hba
  · rw [hab.eq_true_iff, hbc.eq_true_iff, hac.eq_true_iff]
    exact Alike.trans
  · rw [(loose_decides ha ha).eq_true_iff]
    exact Alike.self_iff ha.wellFormed

theorem loose_nested_number :
    loose 100 (.list [.list [.integer 1]]) (.text "01x") = .ok true ∧
    loose 100 (.list [.list [.integer 1]]) (.integer 1) = .ok true ∧
    loose 100 (.integer 1) (.list [.list [.integer 1]]) = .ok true := by
  have hone : WithinDigits 1 :=
    (withinDigits_decimalValue (List.forall_mem_singleton.mpr (by decide)) (by decide) :
      WithinDigits (Text.decimalValue ['1']))
  have hnested : (Value.list [.list [.integer 1]]).Manageable 100 :=
    ⟨by simp [Value.WellFormed], by simp [Value.Short, hone], by simp [Value.Convertible],
      by simp [Value.greatestDepth]⟩
  have hnumber : (Value.integer 1).Manageable 100 :=
    ⟨by simp [Value.WellFormed], by simp [Value.Short, hone], by simp [Value.Convertible], by simp⟩
  have hshort : LeadingInteger.ShortRuns "01x".toList := by
    intro run hrun _
    exact hrun.length_le.trans (by decide)
  have htext : (Value.text "01x").Manageable 100 :=
    ⟨by simp [Value.WellFormed], by simp [Value.Short], by simpa [Value.Convertible] using hshort,
      by simp⟩
  have hfirst : loose 100 (.list [.list [.integer 1]]) (.text "01x") = .ok true := by decide
  have hsecond : loose 100 (.text "01x") (.integer 1) = .ok true := by decide
  obtain ⟨-, -, htrans, -⟩ := loose_partial_equivalence hnested htext hnumber
  obtain ⟨-, hsymm, -, -⟩ := loose_partial_equivalence hnested hnumber hnumber
  have hthird := htrans hfirst hsecond
  exact ⟨hfirst, hthird, hsymm ▸ hthird⟩

/-- Loose comparison of whole values that are not too deep fails just where too many digits are met,
and answers everywhere else, whatever the values cannot be taken for. -/
theorem loose_stops_iff {levels : Nat} {left right : Value} (hleft : left.WellFormed)
    (hright : right.WellFormed) (hleftDepth : left.depth ≤ levels)
    (hrightDepth : right.depth ≤ levels) :
    ((applyNamed levels "equal?" [left, right]).Stops ↔ Value.Oversized left right) ∧
    (¬ Value.Oversized left right → ∃ answer : Bool,
      applyNamed levels "equal?" [left, right] = .ok (.boolean answer) ∧
        (answer = true ↔ Alike left right)) := by
  have happly : applyNamed levels "equal?" [left, right] =
      (loose levels left right).map Value.boolean := rfl
  have hsettles : (loose levels left right).Settles _ _ :=
    loose_settles hleft hright hleftDepth hrightDepth
  rw [happly]
  cases hsettles with
  | decides hfits hdecides =>
      obtain ⟨answer, hanswer, hquestion⟩ := hdecides
      rw [hanswer]
      exact ⟨⟨nofun, fun hoversize => absurd hoversize hfits⟩, fun _ => ⟨answer, rfl, hquestion⟩⟩
  | stops hoversize hstops =>
      exact ⟨iff_of_true (hstops.map _) hoversize, fun hfits => absurd hoversize hfits⟩

/-- A text with one digit more than a number can have. -/
def overlongText : Value :=
  .text (String.ofList (List.replicate (Text.digitLimit + 1) '9'))

theorem ofText_overlongText :
    LeadingInteger.ofText (String.ofList (List.replicate (Text.digitLimit + 1) '9')).toList =
      .overlong := by
  rw [String.toList_ofList, LeadingInteger.ofText_digits (by simp), if_neg (by simp)]
  intro c hc
  obtain rfl := List.eq_of_mem_replicate hc
  rfl

theorem loose_stops_after_symbol :
    applyNamed 1 "equal?"
      [.list [.symbol "a", overlongText], .list [.symbol "b", overlongText]] =
        .ok (.boolean false) ∧
    (applyNamed 1 "equal?"
      [.list [.symbol "a", overlongText], .list [.symbol "a", overlongText]]).Stops := by
  have hwhole (name : String) : (Value.list [.symbol name, overlongText]).WellFormed := by
    simp [Value.WellFormed, overlongText]
  have hdepth (name : String) : (Value.list [.symbol name, overlongText]).depth ≤ 1 := by
    simp [overlongText, Value.greatestDepth]
  have hsymbols : ¬ Alike (.symbol "a") (.symbol "b") := by
    rw [Alike.symbol_iff]
    decide
  have hfits : ¬ Value.Oversized (.list [.symbol "a", overlongText])
      (.list [.symbol "b", overlongText]) := by
    rw [Value.oversized_list_iff, Reaches.cons_iff, Value.oversized_pair_iff (by simp)]
    rintro ⟨-, hplace | ⟨hplace, -⟩⟩
    · have huncountable : ¬ (Value.symbol "a").Uncountable :=
        Value.not_uncountable_of_leaf (by simp) (by simp)
      simp [Value.Overflows, Value.Short, Value.number?, Value.text?, huncountable] at hplace
    · exact hsymbols hplace
  have hoversize : Value.Oversized (.list [.symbol "a", overlongText])
      (.list [.symbol "a", overlongText]) :=
    .list rfl (.later (.symbol "a") (.here [] []
      (.pair (by simp [overlongText]) (.inl (.text ofText_overlongText)))))
  obtain ⟨answer, happly, hanswer⟩ :=
    (loose_stops_iff (hwhole "a") (hwhole "b") (hdepth "a") (hdepth "b")).2 hfits
  refine ⟨?_, (loose_stops_iff (hwhole "a") (hwhole "a") (hdepth "a") (hdepth "a")).1.mpr hoversize⟩
  obtain rfl : answer = false := by
    rw [Bool.eq_false_iff, Ne, hanswer, Alike.list_iff, List.forall₂_cons]
    exact fun h => hsymbols h.1
  exact happly

/-- A text with too many digits cannot even be compared with itself. -/
theorem loose_overlong_itself :
    overlongText.WellFormed ∧ overlongText.depth ≤ 100 ∧
    applyNamed 100 "equal?" [overlongText, overlongText] = .fail .tooLargeToConvert := by
  have hnumber : Coercion.number 100 overlongText = .fail .tooLargeToConvert := by
    simp only [overlongText, Coercion.number, ofText_overlongText]
  refine ⟨by simp [Value.WellFormed, overlongText], by simp [overlongText], ?_⟩
  have happly : applyNamed 100 "equal?" [overlongText, overlongText] =
      (loose 100 overlongText overlongText).map Value.boolean := rfl
  have hagree : agree (Coercion.number 100) overlongText overlongText =
      .fail .tooLargeToConvert := by
    rw [agree, hnumber]
    rfl
  rw [happly, loose_of_not_list (by simp [overlongText]), loosely, hagree]
  rfl

end Comparison

end SmallLisp
