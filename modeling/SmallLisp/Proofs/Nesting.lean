import SmallLisp.Proofs.Descent

/-!
How far the brackets and quotation marks of a source stand inside one another, as its tokens show
before it is read. The reader never has more forms open than that, so what it reads is no deeper,
and it gives up for depth only when it has fewer levels.
-/

namespace SmallLisp.Reader

/-- A bracket that is open, or a quotation mark that waits for the end of its expression. -/
inductive Mark
  | quote
  | bracket
  deriving DecidableEq

/-- The marks that are open once an expression ends, which ends what quotes it too. -/
def settle (marks : List Mark) : List Mark :=
  marks.dropWhile (· = .quote)

/-- The marks that are open after a token, the innermost first. -/
def marksAfter (marks : List Mark) (token : Token) : List Mark :=
  match token.kind with
  | .quote => .quote :: marks
  | .opening _ => .bracket :: marks
  | .closing _ => settle (settle marks).tail
  | .blank | .stray => marks
  | .text | .character | .decimal | .integer | .atom => settle marks

/-- The greatest number of marks that are open at once. -/
def nestingFrom : List Mark → List Token → Nat
  | marks, [] => marks.length
  | marks, token :: tokens => max marks.length (nestingFrom (marksAfter marks token) tokens)

/-- How many brackets and quotation marks of a source stand inside one another. -/
def nesting (source : List Char) : Nat :=
  nestingFrom [] (Token.lex source)

example : nesting "(a '([b] \"((\") ''c)".toList = 4 := by decide +kernel

def Frame.mark : Frame → Mark
  | quoted => .quote
  | list _ _ => .bracket

/-- The marks of the forms that are open. -/
def Pending.marks (pending : Pending) : List Mark :=
  pending.frames.map Frame.mark

section
variable {options : Options} {pending next : Pending} {stack : List Frame} {token : Token}
  {value : Value}

theorem length_marks (pending : Pending) : pending.marks.length = pending.frames.length :=
  List.length_map _

theorem marks_complete (h : complete value stack = .more next) :
    next.marks = settle (stack.map Frame.mark) := by
  induction stack generalizing value with
  | nil => simp [complete] at h
  | cons frame stack ih =>
      cases frame with
      | quoted => exact ih h
      | list bracket items =>
          obtain rfl := Step.more.inj h
          rfl

theorem marksAfter_leaf (hleaf : Leaf token value) (marks : List Mark) :
    marksAfter marks token = settle marks := by
  cases hleaf <;> simp [marksAfter, *]

theorem marks_begin (hgenuine : token.Genuine)
    (h : begin options pending.frames token = .more next) :
    next.marks = marksAfter pending.marks token := by
  have hbegins := begin_begins options pending.frames hgenuine
  rw [h] at hbegins
  generalize hstep : Step.more next = step at hbegins
  cases hbegins with
  | leaf hleaf => rw [marksAfter_leaf hleaf, marks_complete hstep.symm, Pending.marks]
  | quote hkind _ =>
      obtain rfl := Step.more.inj hstep
      simp [Pending.marks, Pending.frames, marksAfter, hkind, Frame.mark]
  | opening hkind _ =>
      obtain rfl := Step.more.inj hstep
      simp [Pending.marks, Pending.frames, marksAfter, hkind, Frame.mark]
  | tooDeep _ _ => cases hstep
  | refused _ => cases hstep
  | misread _ => cases hstep

/-- The reader follows the marks: a step that goes on leaves the marks open that the token does. -/
theorem marks_step (hgenuine : token.Genuine) (h : step options pending token = .more next) :
    next.marks = marksAfter pending.marks token := by
  have hsteps := step_steps options pending token
  rw [h] at hsteps
  generalize hstep : Step.more next = step at hsteps
  cases hsteps with
  | begins => exact marks_begin hgenuine hstep.symm
  | @closes bracket closing items stack hframes hkind =>
      unfold close at hstep
      split at hstep
      · cases hstep
      · rw [marks_complete hstep.symm, Pending.marks, hframes]
        simp [marksAfter, hkind, Frame.mark, settle]
  | separates hkind =>
      obtain rfl := Step.more.inj hstep
      simp [Pending.marks, Pending.frames, marksAfter, hkind]
  | refuses => cases hstep

theorem lt_marks_of_tooDeep (hgenuine : token.Genuine)
    (h : step options pending token = .failed .tooDeep) :
    options.levels < (marksAfter pending.marks token).length := by
  have hsteps := step_steps options pending token
  rw [h] at hsteps
  generalize hstep : Step.failed .tooDeep = step at hsteps
  cases hsteps with
  | begins =>
      have hbegins := begin_begins options pending.frames hgenuine
      rw [← hstep] at hbegins
      generalize hagain : Step.failed .tooDeep = step at hbegins
      cases hbegins with
      | leaf _ => exact absurd hagain.symm (complete_ne_failed _ _ _)
      | tooDeep hkind hlevels =>
          rcases hkind with hkind | ⟨bracket, hkind⟩ <;>
            simpa [marksAfter, hkind, length_marks] using Nat.lt_succ_of_le hlevels
      | _ => cases hagain
  | closes _ _ =>
      unfold close at hstep
      split at hstep
      · cases hstep
      · exact absurd hstep.symm (complete_ne_failed _ _ _)
  | separates _ => cases hstep
  | refuses => cases hstep

theorem length_le_nestingFrom (marks : List Mark) (tokens : List Token) :
    marks.length ≤ nestingFrom marks tokens := by
  cases tokens with
  | nil => exact Nat.le_refl _
  | cons token tokens => exact Nat.le_max_left _ _

theorem deepest_le_nestingFrom {tokens : List Token} (hgenuine : ∀ token ∈ tokens, token.Genuine) :
    deepest options pending tokens ≤ nestingFrom pending.marks tokens := by
  induction tokens generalizing pending with
  | nil => exact Nat.le_of_eq (length_marks pending).symm
  | cons token tokens ih =>
      obtain ⟨htoken, htokens⟩ := List.forall_mem_cons.mp hgenuine
      rw [deepest, nestingFrom, length_marks]
      split
      · rename_i next hstep
        have hnext : deepest options next tokens ≤ nestingFrom next.marks tokens := ih htokens
        rw [marks_step htoken hstep] at hnext
        omega
      · exact Nat.le_max_left _ _

theorem lt_nestingFrom_of_tooDeep {endOffset : Nat} {tokens : List Token}
    (hgenuine : ∀ token ∈ tokens, token.Genuine)
    (h : (resume options endOffset pending tokens).outcome = .error .tooDeep) :
    options.levels < nestingFrom pending.marks tokens := by
  induction tokens generalizing pending with
  | nil => simp [resume] at h
  | cons token tokens ih =>
      obtain ⟨htoken, htokens⟩ := List.forall_mem_cons.mp hgenuine
      rw [nestingFrom]
      cases hstep : step options pending token with
      | more next =>
          simp only [resume, hstep] at h
          have hnext := ih htokens h
          rw [marks_step htoken hstep] at hnext
          omega
      | done value => simp [resume, hstep] at h
      | refused cause => simp [resume, hstep] at h
      | failed stop =>
          simp only [resume, hstep, Except.error.injEq] at h
          subst h
          have hmarks := lt_marks_of_tooDeep htoken hstep
          have hnesting := length_le_nestingFrom (marksAfter pending.marks token) tokens
          omega

end

section
variable {options : Options} {source : List Char}

theorem depth_le_nesting {value : Value} (h : read options source = .ok value) :
    value.depth ≤ nesting source := by
  rw [(depth_of_read h).1]
  exact deepest_le_nestingFrom fun _ => Token.genuine_of_mem_lex

theorem read_ne_tooDeep (h : nesting source ≤ options.levels) :
    read options source ≠ .error (.failure .tooDeep) := by
  intro hread
  have houtcome : (reading options source).outcome = .error .tooDeep := by
    rw [read_eq] at hread
    generalize (reading options source).outcome = outcome at hread
    cases outcome with
    | ok value => cases hread
    | error stop =>
        cases stop with
        | tooDeep => rfl
        | misread _ _ => cases hread
        | defect _ => cases hread
  exact Nat.not_lt.mpr h
    (lt_nestingFrom_of_tooDeep (fun _ => Token.genuine_of_mem_lex) houtcome)

end

end SmallLisp.Reader
