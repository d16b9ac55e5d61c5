import SmallLisp.Proofs.Acceptance

namespace SmallLisp.Reader

theorem Leaf.depth_eq_zero {token : Token} {value : Value} (h : Leaf token value) :
    value.depth = 0 := by
  cases h <;> simp

/-- The greatest number of forms that are open at once while tokens are read. -/
def deepest (options : Options) : Pending → List Token → Nat
  | pending, [] => pending.frames.length
  | pending, token :: tokens =>
    match step options pending token with
    | .more next => max pending.frames.length (deepest options next tokens)
    | _ => pending.frames.length

/-- The depth that open forms come to with what is in them already. -/
def reach : List Frame → Nat
  | [] => 0
  | .quoted :: stack => max (stack.length + 1) (reach stack)
  | .list _ items :: stack => max (stack.length + 1 + Value.greatestDepth items) (reach stack)

theorem length_le_reach (stack : List Frame) : stack.length ≤ reach stack := by
  cases stack with
  | nil => exact Nat.le_refl 0
  | cons frame stack =>
      cases frame with
      | quoted => exact Nat.le_max_left _ _
      | list bracket items =>
          rw [reach, List.length_cons]
          omega

def Step.reach : Step → Nat
  | more next => Reader.reach next.frames
  | done value => value.depth
  | _ => 0

theorem complete_reach (value : Value) (stack : List Frame) :
    (complete value stack).reach = max (stack.length + value.depth) (reach stack) := by
  induction stack generalizing value with
  | nil => simp [complete, Step.reach, reach]
  | cons frame stack ih =>
      cases frame with
      | quoted =>
          rw [complete, ih, Value.depth_quotation, reach, List.length_cons]
          omega
      | list bracket items =>
          simp only [complete, Step.reach, Pending.frames, reach, Value.greatestDepth,
            List.length_cons]
          omega

section
variable {options : Options} {stack : List Frame} {pending next : Pending} {token : Token}
  {value : Value}

theorem length_frames_complete (h : complete value stack = .more next) :
    next.frames.length ≤ stack.length := by
  induction stack generalizing value with
  | nil => simp [complete] at h
  | cons frame stack ih =>
      cases frame with
      | quoted => exact Nat.le_succ_of_le (ih h)
      | list bracket items =>
          obtain rfl := Step.more.inj h
          exact Nat.le_refl _

/-- What a step that goes on or is done does to the depth: nothing, unless it opens a form. -/
inductive Descends (options : Options) (pending : Pending) : Step → Prop
  | more {next : Pending} : reach next.frames = max (reach pending.frames) next.frames.length →
      next.frames.length ≤ max pending.frames.length options.levels →
        Descends options pending (.more next)
  | done {value : Value} : value.depth = reach pending.frames →
      Descends options pending (.done value)
  | refused (cause : Misreading) : Descends options pending (.refused cause)
  | failed (stop : Stop) : Descends options pending (.failed stop)

theorem descends_complete (hlength : stack.length ≤ pending.frames.length)
    (hreach : max (stack.length + value.depth) (reach stack) = reach pending.frames) :
    Descends options pending (complete value stack) := by
  -- A form that is completed was open before, so its depth is taken into account already.
  have hcomplete := complete_reach value stack
  rw [hreach] at hcomplete
  cases hstep : complete value stack with
  | more next =>
      have hnext := length_frames_complete hstep
      rw [hstep, Step.reach] at hcomplete
      refine .more ?_ (by omega)
      have := length_le_reach pending.frames
      omega
  | done result =>
      rw [hstep, Step.reach] at hcomplete
      exact .done hcomplete
  | refused cause => exact .refused cause
  | failed stop => exact .failed stop

theorem descends_begin (hgenuine : token.Genuine) :
    Descends options pending (begin options pending.frames token) := by
  have hbegins := begin_begins options pending.frames hgenuine
  generalize begin options pending.frames token = step at hbegins
  cases hbegins with
  | leaf hleaf =>
      refine descends_complete (Nat.le_refl _) ?_
      have := length_le_reach pending.frames
      rw [hleaf.depth_eq_zero]
      omega
  | quote _ hlevels =>
      refine .more ?_ (Nat.le_trans hlevels (Nat.le_max_right _ _))
      rw [Pending.frames, reach, List.length_cons]
      omega
  | opening _ hlevels =>
      refine .more ?_ (Nat.le_trans hlevels (Nat.le_max_right _ _))
      rw [Pending.frames, reach, List.length_cons]
      simp only [Value.greatestDepth]
      omega
  | tooDeep _ _ => exact .failed _
  | refused _ => exact .refused _
  | misread _ => exact .failed _

theorem descends_close {bracket closing : Bracket} {items : List Value}
    (hframes : pending.frames = .list bracket items :: stack) :
    Descends options pending (close options bracket closing items stack token) := by
  unfold close
  split
  · exact .failed _
  · refine descends_complete ?_ ?_
    · rw [hframes]
      exact Nat.le_succ _
    · rw [hframes, reach, Value.depth, Value.greatestDepth_reverse]
      omega

theorem descends_step (options : Options) (pending : Pending) (hgenuine : token.Genuine) :
    Descends options pending (step options pending token) := by
  have hsteps := step_steps options pending token
  generalize step options pending token = step at hsteps
  cases hsteps with
  | begins => exact descends_begin hgenuine
  | closes hframes _ => exact descends_close hframes
  | separates _ =>
      have := length_le_reach pending.frames
      exact .more (Nat.max_eq_left this).symm (Nat.le_max_left _ _)
  | refuses => exact .refused _

theorem length_frames_le_deepest (options : Options) (pending : Pending) (tokens : List Token) :
    pending.frames.length ≤ deepest options pending tokens := by
  cases tokens with
  | nil => exact Nat.le_refl _
  | cons token tokens =>
      rw [deepest]
      split
      · exact Nat.le_max_left _ _
      · exact Nat.le_refl _

theorem deepest_le (options : Options) (pending : Pending) {tokens : List Token}
    (hgenuine : ∀ token ∈ tokens, token.Genuine) :
    deepest options pending tokens ≤ max pending.frames.length options.levels := by
  induction tokens generalizing pending with
  | nil => exact Nat.le_max_left _ _
  | cons token tokens ih =>
      obtain ⟨htoken, htokens⟩ := List.forall_mem_cons.mp hgenuine
      have hdescends := descends_step options pending htoken
      rw [deepest]
      split
      · rename_i next hstep
        rw [hstep] at hdescends
        cases hdescends with
        | more _ hlength =>
            have := ih next htokens
            omega
      · exact Nat.le_max_left _ _

/-- A value that is read is as deep as the forms that were open, with what was in them, or as the
deepest place that the reader came to. -/
theorem depth_of_resume {endOffset : Nat} {tokens : List Token}
    (hgenuine : ∀ token ∈ tokens, token.Genuine)
    (h : (resume options endOffset pending tokens).outcome = .ok value) :
    value.depth = max (reach pending.frames) (deepest options pending tokens) := by
  induction tokens generalizing pending with
  | nil => simp [resume] at h
  | cons token tokens ih =>
      obtain ⟨htoken, htokens⟩ := List.forall_mem_cons.mp hgenuine
      have hdescends := descends_step options pending htoken
      have hlength := length_le_reach pending.frames
      simp only [resume] at h
      simp only [deepest]
      cases hstep : step options pending token with
      | more next =>
          -- What the step opens counts for `reach` here and for `deepest` in what comes after.
          simp only [hstep] at h hdescends ⊢
          cases hdescends with
          | more hreach _ =>
              have hnext := length_frames_le_deepest options next tokens
              rw [ih htokens h, hreach]
              omega
      | done result =>
          simp only [hstep, Except.ok.injEq] at h hdescends ⊢
          subst h
          cases hdescends with
          | done hdepth =>
              rw [hdepth]
              omega
      | refused cause => simp [hstep] at h
      | failed stop => simp [hstep] at h

end

theorem depth_of_read {options : Options} {source : List Char} {value : Value}
    (h : read options source = .ok value) :
    value.depth = deepest options (.expression []) (Token.lex source) ∧
      value.depth ≤ options.levels := by
  have hgenuine : ∀ token ∈ Token.lex source, token.Genuine := fun _ => Token.genuine_of_mem_lex
  have hdepth := depth_of_resume hgenuine (read_ok_iff.mp h)
  have hdeepest := deepest_le options (.expression []) hgenuine
  simp only [Pending.frames, reach, List.length_nil, Nat.zero_max] at hdepth hdeepest
  exact ⟨hdepth, hdepth ▸ hdeepest⟩

section
variable (strict : Bool) {levels more : Nat}

theorem begin_levels (h : levels ≤ more) (stack : List Frame) (token : Token) :
    begin { strict, levels } stack token = .failed .tooDeep ∨
      begin { strict, levels := more } stack token = begin { strict, levels } stack token := by
  by_cases hlevels : stack.length < levels
  · have hmore : stack.length < more := Nat.lt_of_lt_of_le hlevels h
    simp only [begin, hlevels, hmore]
    exact .inr trivial
  · cases hkind : token.kind with
    | quote => simp [begin, hkind, hlevels]
    | opening bracket => simp [begin, hkind, hlevels]
    | _ =>
        simp only [begin, hkind]
        exact .inr trivial

theorem step_levels (h : levels ≤ more) (pending : Pending) (token : Token) :
    step { strict, levels } pending token = .failed .tooDeep ∨
      step { strict, levels := more } pending token = step { strict, levels } pending token := by
  cases pending with
  | expression stack => exact begin_levels strict h stack token
  | opened bracket stack =>
      simp only [step]
      split
      · exact .inr rfl
      · exact begin_levels strict h _ token
  | afterItem bracket items stack => exact .inr rfl

theorem resume_levels (h : levels ≤ more) (endOffset : Nat) (pending : Pending)
    (tokens : List Token) :
    (resume { strict, levels } endOffset pending tokens).outcome = .error .tooDeep ∨
      resume { strict, levels := more } endOffset pending tokens =
        resume { strict, levels } endOffset pending tokens := by
  induction tokens generalizing pending with
  | nil => exact .inr rfl
  | cons token tokens ih =>
      rcases step_levels strict h pending token with hdeep | hsame
      · exact .inl (by simp [resume, hdeep])
      · simp only [resume, hsame]
        cases step { strict, levels } pending token with
        | more next => exact ih next
        | _ => exact .inr rfl

variable {strict} in
theorem reading_levels {needed : Nat} {source : List Char} {outcome : Except Stop Value}
    (h : (reading { strict, levels := needed } source).outcome = outcome)
    (hshallow : outcome ≠ .error .tooDeep) (levels : Nat) :
    (reading { strict, levels } source).outcome = outcome ∨
      (reading { strict, levels } source).outcome = .error .tooDeep ∧ levels < needed := by
  rcases Nat.lt_or_ge levels needed with hfewer | hmore
  · rcases resume_levels strict (Nat.le_of_lt hfewer) source.length (.expression [])
      (Token.lex source) with hdeep | hsame
    · exact .inr ⟨hdeep, hfewer⟩
    · exact .inl (h ▸ congrArg Reading.outcome hsame.symm)
  · rcases resume_levels strict hmore source.length (.expression [])
      (Token.lex source) with hdeep | hsame
    · exact absurd (h.symm.trans hdeep) hshallow
    · exact .inl (h ▸ congrArg Reading.outcome hsame)

end

end SmallLisp.Reader
