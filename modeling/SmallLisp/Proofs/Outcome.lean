import Mathlib.Data.List.Forall2
import SmallLisp.Value.Rendering

namespace SmallLisp

/-- A failure that values can cause, whatever expression they come from. -/
def Failure.OfValues : Failure → Prop
  | arity .. | mismatch .. | tooDeep | divisionByZero | tooLargeToRender | tooLargeToConvert => True
  | unreadable .. | badForm .. | notFunction .. | unbound .. | other _ => False

namespace Outcome

variable {α β : Type}

theorem bind_eq_bind {outcome : Outcome α} {next later : α → Outcome β}
    (h : ∀ answer, outcome = .ok answer → next answer = later answer) :
    outcome >>= next = outcome >>= later := by
  cases outcome with
  | error fault => rfl
  | ok answer => exact h answer rfl

theorem bind_error_iff {outcome : Outcome α} {next : α → Outcome β} {fault : Fault} :
    outcome >>= next = .error fault ↔
      outcome = .error fault ∨ ∃ answer, outcome = .ok answer ∧ next answer = .error fault := by
  cases outcome with
  | error other => simp [bind, Except.bind]
  | ok answer => simp [bind, Except.bind]

theorem mapM_ok_iff {f : α → Outcome β} {items : List α} {results : List β} :
    items.mapM f = .ok results ↔
      List.Forall₂ (fun item result => f item = .ok result) items results := by
  induction items generalizing results with
  | nil => simp [pure, Except.pure, eq_comm]
  | cons item items ih =>
      rw [List.mapM_cons, List.forall₂_cons_left_iff]
      constructor
      · intro h
        cases hitem : f item with
        | error fault => simp [hitem, bind, Except.bind] at h
        | ok result =>
            cases hitems : items.mapM f with
            | error fault => simp [hitem, hitems, bind, Except.bind] at h
            | ok others =>
                simp only [hitem, hitems, bind, Except.bind, pure, Except.pure,
                  Except.ok.injEq] at h
                exact ⟨result, others, rfl, ih.mp hitems, h.symm⟩
      · rintro ⟨result, others, hitem, hitems, rfl⟩
        rw [hitem, ih.mpr hitems]
        rfl

theorem exists_of_mem_mapM {f : α → Outcome β} {items : List α} {results : List β} {result : β}
    (h : items.mapM f = .ok results) (hmem : result ∈ results) :
    ∃ item ∈ items, f item = .ok result := by
  have hpairs := mapM_ok_iff.mp h
  clear h
  induction hpairs with
  | nil => simp at hmem
  | @cons item first items others hfirst _ ih =>
      rcases List.mem_cons.mp hmem with rfl | hmem
      · exact ⟨item, by simp, hfirst⟩
      · obtain ⟨other, hother, hresult⟩ := ih hmem
        exact ⟨other, List.mem_cons_of_mem _ hother, hresult⟩

theorem mapM_error_iff {f : α → Outcome β} {items : List α} {fault : Fault} :
    items.mapM f = .error fault ↔
      ∃ before failing after, items = before ++ failing :: after ∧
        (∀ item ∈ before, ∃ result, f item = .ok result) ∧ f failing = .error fault := by
  induction items with
  | nil => simp [pure, Except.pure]
  | cons item items ih =>
      rw [List.mapM_cons]
      constructor
      · intro h
        cases hitem : f item with
        | error other =>
            rw [hitem] at h
            obtain rfl : other = fault := Except.error.inj h
            exact ⟨[], item, items, rfl, by simp, hitem⟩
        | ok result =>
            cases hitems : items.mapM f with
            | ok results =>
                rw [hitem, hitems] at h
                cases h
            | error other =>
                rw [hitem, hitems] at h
                obtain rfl : other = fault := Except.error.inj h
                obtain ⟨before, failing, after, rfl, hbefore, hfailing⟩ := ih.mp hitems
                refine ⟨item :: before, failing, after, rfl, ?_, hfailing⟩
                exact List.forall_mem_cons.mpr ⟨⟨result, hitem⟩, hbefore⟩
      · rintro ⟨before, failing, after, hsplit, hbefore, hfailing⟩
        cases before with
        | nil =>
            obtain ⟨rfl, rfl⟩ := List.cons.inj hsplit
            rw [hfailing]
            rfl
        | cons first before =>
            obtain ⟨rfl, rfl⟩ := List.cons.inj hsplit
            obtain ⟨⟨result, hitem⟩, hbefore⟩ := List.forall_mem_cons.mp hbefore
            rw [hitem, ih.mpr ⟨before, failing, after, rfl, hbefore, hfailing⟩]
            rfl

theorem mapM_append_error {f : α → Outcome β} {item : α} {fault : Fault}
    (h : f item = .error fault) (before after others : List α) :
    (before ++ item :: after).mapM f = (before ++ item :: others).mapM f := by
  rw [List.mapM_append, List.mapM_append, List.mapM_cons, List.mapM_cons, h]
  rfl

theorem mapM_eq_error {f : α → Outcome β} {items : List α} {fault : Fault}
    (h : ∀ item ∈ items, f item = .error fault ∨ ∃ result, f item = .ok result)
    (hfault : ∃ item ∈ items, f item = .error fault) : items.mapM f = .error fault := by
  induction items with
  | nil => simp at hfault
  | cons item items ih =>
      rw [List.forall_mem_cons] at h
      rw [List.mapM_cons]
      rcases h.1 with hitem | ⟨result, hitem⟩
      · rw [hitem]
        rfl
      · have hothers : ∃ item ∈ items, f item = .error fault := by
          simpa [hitem] using hfault
        rw [hitem, ih h.2 hothers]
        rfl

/-- An outcome that is an answer with a property or a failure of an allowed kind. -/
inductive Within (property : α → Prop) (allowed : Failure → Prop) : Outcome α → Prop
  | ok {answer : α} : property answer → Within property allowed (.ok answer)
  | failure {reason : Failure} : allowed reason → Within property allowed (fail reason)

theorem within_iff {property : α → Prop} {allowed : Failure → Prop} {outcome : Outcome α} :
    outcome.Within property allowed ↔
      (∃ answer, outcome = .ok answer ∧ property answer) ∨
        ∃ failure, outcome = .error (.failure failure) ∧ allowed failure := by
  constructor
  · intro h
    cases h with
    | ok hanswer => exact .inl ⟨_, rfl, hanswer⟩
    | failure hreason => exact .inr ⟨_, rfl, hreason⟩
  · rintro (⟨answer, rfl, hanswer⟩ | ⟨reason, rfl, hreason⟩)
    · exact .ok hanswer
    · exact .failure hreason

theorem raise_ne_ok (failure : Outcome Failure) (answer : α) : raise failure ≠ .ok answer := by
  cases failure <;> exact nofun

section
variable {p : α → Prop} {q : β → Prop} {allowed : Failure → Prop} {outcome : Outcome α}

theorem Within.imp {other : α → Prop} {permitted : Failure → Prop} (h : outcome.Within p allowed)
    (hanswer : ∀ answer, outcome = .ok answer → p answer → other answer)
    (hfailure : ∀ failure, allowed failure → permitted failure) :
    outcome.Within other permitted := by
  cases h with
  | ok h => exact .ok (hanswer _ rfl h)
  | failure h => exact .failure (hfailure _ h)

theorem Within.and {other : α → Prop} {permitted : Failure → Prop} (h : outcome.Within p allowed)
    (hother : outcome.Within other permitted) :
    outcome.Within (fun answer => p answer ∧ other answer)
      fun failure => allowed failure ∧ permitted failure := by
  cases h with
  | ok hanswer =>
      cases hother with
      | ok hanswer' => exact .ok ⟨hanswer, hanswer'⟩
  | failure hreason =>
      cases hother with
      | failure hreason' => exact .failure ⟨hreason, hreason'⟩

theorem Within.bind {next : α → Outcome β} (h : outcome.Within p allowed)
    (hnext : ∀ answer, p answer → (next answer).Within q allowed) :
    (outcome >>= next).Within q allowed := by
  cases h with
  | ok hanswer => exact hnext _ hanswer
  | failure hreason => exact .failure hreason

theorem Within.map {f : α → β} (h : outcome.Within p allowed)
    (hf : ∀ answer, p answer → q (f answer)) : Within q allowed (Except.map f outcome) := by
  cases h with
  | ok hanswer => exact .ok (hf _ hanswer)
  | failure hreason => exact .failure hreason

theorem within_mapM {f : α → Outcome β} {items : List α}
    (h : ∀ item ∈ items, (f item).Within q allowed) :
    Within (fun results => ∀ result ∈ results, q result) allowed (items.mapM f) := by
  induction items with
  | nil => exact .ok (by simp)
  | cons item items ih =>
      rw [List.forall_mem_cons] at h
      rw [List.mapM_cons]
      refine h.1.bind fun result hresult => ?_
      refine (ih h.2).bind fun results hresults => .ok ?_
      exact List.forall_mem_cons.mpr ⟨hresult, hresults⟩

theorem within_raise {failure : Outcome Failure} (h : failure.Within allowed allowed) :
    (raise failure : Outcome α).Within p allowed :=
  h.bind fun _ hreason => .failure hreason

end

end Outcome

end SmallLisp
