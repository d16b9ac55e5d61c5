import Mathlib.Data.List.Forall2
import SmallLisp.Proofs.Coercion

namespace SmallLisp

/-- Truth values need no clause of their own, since they are taken for texts. -/
inductive Alike : Value → Value → Prop
  | number {a b : Value} {n : Int} : a.number? = some n → b.number? = some n → Alike a b
  | text {a b : Value} {cs : List Char} : a.text? = some cs → b.text? = some cs → Alike a b
  | symbol (name : String) : Alike (.symbol name) (.symbol name)
  | list {as bs : List Value} : List.Forall₂ Alike as bs → Alike (.list as) (.list bs)

namespace Value

/-- Leaves of these kinds only are equal to anything. -/
def Equatable (leaf : Value) : Prop :=
  (∀ number, leaf ≠ decimal number) ∧ ∀ char, leaf ≠ character char

end Value

namespace Alike

@[elab_as_elim]
theorem induct {motive : ∀ a b, Alike a b → Prop}
    (number : ∀ a b n (ha : a.number? = some n) (hb : b.number? = some n),
      motive a b (.number ha hb))
    (text : ∀ a b cs (ha : a.text? = some cs) (hb : b.text? = some cs),
      motive a b (.text ha hb))
    (symbol : ∀ name, motive (.symbol name) (.symbol name) (.symbol name))
    (list : ∀ as bs (h : List.Forall₂ (fun a b => ∃ h : Alike a b, motive a b h) as bs),
      motive (.list as) (.list bs) (.list (h.imp fun _ _ h => h.1)))
    {a b : Value} (h : Alike a b) : motive a b h := by
  induction a generalizing b with
  | list items ih =>
      cases h with
      | number ha hb => exact number _ _ _ ha hb
      | text ha hb => exact text _ _ _ ha hb
      | @list _ others hitems =>
          apply list items others
          rw [List.forall₂_iff_get] at hitems ⊢
          refine ⟨hitems.1, fun i hitem hother => ?_⟩
          exact ⟨hitems.2 i hitem hother, ih _ (List.get_mem items _) (hitems.2 i hitem hother)⟩
  | symbol name =>
      cases h with
      | number ha hb => exact number _ _ _ ha hb
      | text ha hb => exact text _ _ _ ha hb
      | symbol name => exact symbol name
  | _ =>
      cases h with
      | number ha hb => exact number _ _ _ ha hb
      | text ha hb => exact text _ _ _ ha hb

variable {a b c : Value}

/-- What carries transitivity: for whatever reason two values are alike, they are taken for the same
number, or neither is taken for one. -/
theorem number?_eq (h : Alike a b) : a.number? = b.number? := by
  induction h using induct with
  | number a b n ha hb => rw [ha, hb]
  | text a b cs ha hb => rw [Value.number?_of_text? ha, Value.number?_of_text? hb]
  | symbol name => rfl
  | list as bs hitems =>
      cases hitems with
      | nil => rfl
      | cons hfirst hrest =>
          cases hrest with
          | nil =>
              obtain ⟨-, hnumber⟩ := hfirst
              rw [Value.number?, Value.number?, hnumber]
          | cons _ _ => simp [Value.number?]

theorem symm (h : Alike a b) : Alike b a := by
  induction h using induct with
  | number a b n ha hb => exact .number hb ha
  | text a b cs ha hb => exact .text hb ha
  | symbol name => exact .symbol name
  | list as bs hitems =>
      have hflip : List.Forall₂ (flip Alike) as bs := hitems.imp fun _ _ h => h.2
      exact .list hflip.flip

theorem trans (hab : Alike a b) (hbc : Alike b c) : Alike a c := by
  induction hab using induct generalizing c with
  | number a b n ha hb => exact .number ha (hbc.number?_eq ▸ hb)
  | symbol name => exact hbc
  | text a b cs ha hb =>
      -- One text can stand for a number in the next pair, and then it does in this one too.
      have hnumber := (Alike.text ha hb).number?_eq
      cases hbc with
      | number hb' hc => exact .number (hnumber.trans hb') hc
      | text hb' hc =>
          rw [hb] at hb'
          exact .text (hb' ▸ ha) hc
      | symbol name => simp [Value.text?] at hb
      | list _ => simp [Value.text?] at hb
  | list as bs hitems =>
      have hnumber := (Alike.list (hitems.imp fun _ _ h => h.1)).number?_eq
      cases hbc with
      | number hb hc => exact .number (hnumber.trans hb) hc
      | text hb _ => simp [Value.text?] at hb
      | @list _ cs hothers =>
          apply Alike.list
          rw [List.forall₂_iff_get] at hitems hothers ⊢
          refine ⟨hitems.1.trans hothers.1, ?_⟩
          intro i ha hc
          have hb : i < bs.length := hitems.1 ▸ ha
          exact (hitems.2 i ha hb).2 (hothers.2 i hb hc)

theorem list_iff {as bs : List Value} : Alike (.list as) (.list bs) ↔ List.Forall₂ Alike as bs := by
  constructor
  · intro h
    cases h with
    | text ha _ => simp [Value.text?] at ha
    | list hitems => exact hitems
    | number ha hb =>
        -- Only a list of one element is taken for a number, and then its element is.
        unfold Value.number? at ha hb
        split at ha
        · simp at *
        · simp at *
        · split at hb
          · simp at *
          · simp at *
          · rename_i hitem _ _ hother
            obtain rfl := Value.list.inj hitem
            obtain rfl := Value.list.inj hother
            exact .cons (.number ha hb) .nil
          · simp at hb
        · simp at ha
  · exact .list

theorem symbol_iff {name other : String} : Alike (.symbol name) (.symbol other) ↔ name = other := by
  constructor
  · intro h
    cases h with
    | number ha _ => simp [Value.number?] at ha
    | text ha _ => simp [Value.text?] at ha
    | symbol _ => rfl
  · rintro rfl
    exact .symbol name

theorem self_iff (hwhole : a.WellFormed) : Alike a a ↔ a.EveryLeaf Value.Equatable := by
  induction a with
  | list items ih =>
      rw [Value.wellFormed_list] at hwhole
      rw [list_iff, List.forall₂_same]
      simp only [Value.EveryLeaf]
      exact forall₂_congr fun item hitem => ih item hitem (hwhole item hitem)
  | boolean truth =>
      have h : Alike (.boolean truth) (.boolean truth) := .text rfl rfl
      simpa [Value.Equatable] using h
  | integer number =>
      have h : Alike (.integer number) (.integer number) := .number rfl rfl
      simpa [Value.Equatable] using h
  | text content =>
      have h : Alike (.text content) (.text content) := .text rfl rfl
      simpa [Value.Equatable] using h
  | symbol name => simpa [Value.Equatable] using Alike.symbol name
  | decimal number =>
      have h : ¬ Alike (.decimal number) (.decimal number) := by
        intro h
        cases h with
        | number ha _ => simp [Value.number?] at ha
        | text ha _ => simp [Value.text?] at ha
      simpa [Value.Equatable] using h
  | character char =>
      have h : ¬ Alike (.character char) (.character char) := by
        intro h
        cases h with
        | number ha _ => simp [Value.number?] at ha
        | text ha _ => simp [Value.text?] at ha
      simpa [Value.Equatable] using h
  | absent => simp [Value.WellFormed] at hwhole

end Alike

end SmallLisp
