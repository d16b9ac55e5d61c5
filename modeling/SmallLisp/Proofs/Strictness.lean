import SmallLisp.Proofs.Acceptance

/-!
Reading with and without brackets that have to match. The two readings go the same way up to the
first closing bracket that is not the partner of the bracket it closes; there the strict one stops.
-/

namespace SmallLisp.Reader

/-- The brackets that are open after a token, the innermost first. -/
def track (brackets : List Bracket) (token : Token) : List Bracket :=
  match token.kind with
  | .opening bracket => bracket :: brackets
  | .closing _ => brackets.tail
  | _ => brackets

/-- Whether a token closes a bracket whose partner it is not. -/
def Mismatches (brackets : List Bracket) (token : Token) : Prop :=
  ∃ bracket outer closing, brackets = bracket :: outer ∧ token.kind = .closing closing ∧
    closing ≠ bracket

/-- Whether the token of an index closes a bracket whose partner it is not, where some brackets are
open before the tokens. -/
def MismatchAt (brackets : List Bracket) (tokens : List Token) (index : Nat) : Prop :=
  ∃ token, tokens[index]? = some token ∧
    Mismatches ((tokens.take index).foldl track brackets) token

section
variable {brackets : List Bracket} {token : Token} {tokens rest : List Token} {index : Nat}

theorem mismatchAt_zero :
    MismatchAt brackets (token :: tokens) 0 ↔ Mismatches brackets token := by
  simp [MismatchAt]

theorem mismatchAt_succ :
    MismatchAt brackets (token :: tokens) (index + 1) ↔
      MismatchAt (track brackets token) tokens index := by
  simp [MismatchAt]

theorem mismatchAt_append (h : index < tokens.length) :
    MismatchAt brackets (tokens ++ rest) index ↔ MismatchAt brackets tokens index := by
  rw [MismatchAt, MismatchAt, List.getElem?_append_left h,
    List.take_append_of_le_length (Nat.le_of_lt h)]

theorem not_mismatchAt_nil : ¬ MismatchAt brackets [] index := by
  simp [MismatchAt]

theorem forall_not_mismatchAt_cons (hhead : ¬ Mismatches brackets token)
    (htail : ∀ index, ¬ MismatchAt (track brackets token) tokens index) :
    ∀ index, ¬ MismatchAt brackets (token :: tokens) index := by
  intro index
  cases index with
  | zero => rwa [mismatchAt_zero]
  | succ index =>
      rw [mismatchAt_succ]
      exact htail index

end

/-- The token of an index closes the innermost open bracket, whose partner it is not, and no token
before it does so. -/
structure FirstMismatch (brackets : List Bracket) (tokens : List Token) (index : Nat)
    (token : Token) (bracket : Bracket) : Prop where
  found : tokens[index]? = some token
  innermost : ((tokens.take index).foldl track brackets).head? = some bracket
  mismatch : MismatchAt brackets tokens index
  first : ∀ earlier, earlier < index → ¬ MismatchAt brackets tokens earlier

theorem FirstMismatch.cons {brackets : List Bracket} {head token : Token} {tokens : List Token}
    {index : Nat} {bracket : Bracket} (hhead : ¬ Mismatches brackets head)
    (h : FirstMismatch (track brackets head) tokens index token bracket) :
    FirstMismatch brackets (head :: tokens) (index + 1) token bracket where
  found := h.found
  innermost := h.innermost
  mismatch := mismatchAt_succ.mpr h.mismatch
  first := by
    intro earlier hearlier
    cases earlier with
    | zero => rwa [mismatchAt_zero]
    | succ earlier =>
        rw [mismatchAt_succ]
        exact h.first earlier (by omega)

def Frame.bracket? : Frame → Option Bracket
  | quoted => none
  | list bracket _ => some bracket

/-- The brackets that are open around what the reader waits for, the innermost first. -/
def Pending.brackets : Pending → List Bracket
  | expression stack => stack.filterMap Frame.bracket?
  | opened bracket stack => bracket :: stack.filterMap Frame.bracket?
  | afterItem bracket _ stack => bracket :: stack.filterMap Frame.bracket?

theorem complete_cases (value : Value) (stack : List Frame) :
    (∃ next, complete value stack = .more next ∧
      next.brackets = stack.filterMap Frame.bracket?) ∨
    ∃ result, complete value stack = .done result := by
  induction stack generalizing value with
  | nil => exact .inr ⟨value, rfl⟩
  | cons frame stack ih =>
      cases frame with
      | quoted => exact ih value.quotation
      | list bracket items => exact .inl ⟨_, rfl, rfl⟩

section
variable {options : Options} {stack : List Frame} {pending next : Pending} {token : Token}

theorem brackets_of_complete {value : Value} (h : complete value stack = .more next) :
    next.brackets = stack.filterMap Frame.bracket? := by
  rcases complete_cases value stack with ⟨other, hother, hbrackets⟩ | ⟨result, hresult⟩
  · obtain rfl := Step.more.inj (h.symm.trans hother)
    exact hbrackets
  · rw [h] at hresult
    simp at hresult

theorem track_of_not_bracket {brackets : List Bracket}
    (hopening : ∀ bracket, token.kind ≠ .opening bracket)
    (hclosing : ∀ bracket, token.kind ≠ .closing bracket) : track brackets token = brackets := by
  unfold track
  split
  · rename_i bracket hkind
    exact absurd hkind (hopening bracket)
  · rename_i bracket hkind
    exact absurd hkind (hclosing bracket)
  · rfl

theorem track_closing {brackets : List Bracket} {closing : Bracket}
    (h : token.kind = .closing closing) : track brackets token = brackets.tail := by
  simp [track, h]

theorem brackets_of_begin (hgenuine : token.Genuine) (h : begin options stack token = .more next) :
    next.brackets = track (stack.filterMap Frame.bracket?) token := by
  have hbegins := begin_begins options stack hgenuine
  rw [h] at hbegins
  generalize hstep : Step.more next = step at hbegins
  cases hbegins with
  | leaf hleaf =>
      obtain ⟨-, hopening, hclosing, -⟩ := hleaf.kind_ne
      rw [track_of_not_bracket hopening hclosing]
      exact brackets_of_complete hstep.symm
  | quote hmark _ =>
      obtain rfl := Step.more.inj hstep
      rw [track_of_not_bracket (by simp [hmark]) (by simp [hmark])]
      rfl
  | opening hopener _ =>
      obtain rfl := Step.more.inj hstep
      simp [track, hopener, Pending.brackets]
  | tooDeep _ _ => simp at hstep
  | refused _ => simp at hstep
  | misread _ => simp at hstep

theorem brackets_of_step (hgenuine : token.Genuine) (h : step options pending token = .more next) :
    next.brackets = track pending.brackets token := by
  have hbrackets : pending.brackets = pending.frames.filterMap Frame.bracket? := by
    cases pending <;> rfl
  have hsteps := step_steps options pending token
  rw [h] at hsteps
  rw [hbrackets]
  generalize hstep : Step.more next = step at hsteps
  cases hsteps with
  | begins => exact brackets_of_begin hgenuine hstep.symm
  | closes hframes hkind =>
      rw [hframes, track_closing hkind]
      unfold close at hstep
      split at hstep
      · simp at hstep
      · exact brackets_of_complete hstep.symm
  | separates hkind =>
      obtain rfl := Step.more.inj hstep
      rw [track_of_not_bracket (by simp [hkind]) (by simp [hkind])]
      rfl
  | refuses => simp at hstep

end

/-- How the readings go on at a token, when they have gone the same way so far. -/
inductive Parallel (levels : Nat) (pending : Pending) (token : Token) : Prop
  | same : step { strict := true, levels } pending token =
        step { strict := false, levels } pending token →
      ¬ Mismatches pending.brackets token → Parallel levels pending token
  | refused {cause : Misreading} :
      (∀ strict, step { strict, levels } pending token = .refused cause) →
        Parallel levels pending token
  | parted {bracket : Bracket} {outer : List Bracket} {value : Value} {stack : List Frame} :
      pending.brackets = bracket :: outer → Mismatches pending.brackets token →
      step { strict := true, levels } pending token =
        .failed (.misread (.unexpected (.ofToken token) (.closing bracket)) token.offset) →
      step { strict := false, levels } pending token = complete value stack →
        Parallel levels pending token

theorem parallel_of_close {levels : Nat} {pending : Pending} {token : Token}
    {bracket closing : Bracket} {items : List Value} {stack : List Frame}
    (hkind : token.kind = .closing closing)
    (hbrackets : pending.brackets = bracket :: stack.filterMap Frame.bracket?)
    (hstep : ∀ strict, step { strict, levels } pending token =
      close { strict, levels } bracket closing items stack token) :
    Parallel levels pending token := by
  by_cases hpartner : closing = bracket
  · apply Parallel.same
    · simp [hstep, close, hpartner]
    · rintro ⟨innermost, outer, other, hinnermost, hother, hne⟩
      obtain ⟨rfl, -⟩ := List.cons.inj (hbrackets.symm.trans hinnermost)
      obtain rfl := TokenKind.closing.inj (hkind.symm.trans hother)
      exact hne hpartner
  · have hstrict := hstep true
    have hlax := hstep false
    simp only [close, hpartner, ne_eq, not_false_eq_true, and_self, ↓reduceIte] at hstrict
    simp only [close, Bool.false_eq_true, false_and, ↓reduceIte] at hlax
    exact .parted hbrackets ⟨bracket, _, closing, hbrackets, hkind, hpartner⟩ hstrict hlax

theorem step_parallel (levels : Nat) (pending : Pending) (token : Token) :
    Parallel levels pending token := by
  by_cases hcloser : ∃ closing, token.kind = .closing closing
  · obtain ⟨closing, hkind⟩ := hcloser
    cases pending with
    | expression stack =>
        have hrefused : ∀ strict, step { strict, levels } (.expression stack) token =
            .refused (.unexpected (.ofToken token) .expression) := by
          intro strict
          simp only [step, begin, hkind]
        exact .refused hrefused
    | opened bracket stack =>
        exact parallel_of_close hkind rfl fun strict => step_opened_of_closing hkind
    | afterItem bracket items stack =>
        have hstep : ∀ strict, step { strict, levels } (.afterItem bracket items stack) token =
            close { strict, levels } bracket closing items stack token := by
          intro strict
          simp only [step, hkind]
        exact parallel_of_close hkind rfl hstep
  · apply Parallel.same
    · cases pending with
      | expression stack => rfl
      | opened bracket stack =>
          rw [step_opened_of_not_closing (not_exists.mp hcloser),
            step_opened_of_not_closing (not_exists.mp hcloser)]
          rfl
      | afterItem bracket items stack =>
          simp only [step]
          split
          · rename_i closing hkind
            exact absurd ⟨closing, hkind⟩ hcloser
          · rfl
          · rfl
    · rintro ⟨_, _, closing, -, hkind, -⟩
      exact hcloser ⟨closing, hkind⟩

theorem resume_taken (options : Options) (endOffset : Nat) (pending : Pending)
    (tokens : List Token) :
    ∃ taken, taken ++ (resume options endOffset pending tokens).rest = tokens := by
  induction tokens generalizing pending with
  | nil => exact ⟨[], rfl⟩
  | cons token tokens ih =>
      simp only [resume]
      cases step options pending token with
      | more next =>
          obtain ⟨taken, htaken⟩ := ih next
          exact ⟨token :: taken, congrArg (token :: ·) htaken⟩
      | done value => exact ⟨[token], rfl⟩
      | refused cause => exact ⟨[], rfl⟩
      | failed stop => exact ⟨[token], rfl⟩

theorem offsetAt_mem {endOffset : Nat} (tokens : List Token) (index : Nat) :
    offsetAt endOffset tokens index ∈ tokens.map Token.offset ++ [endOffset] := by
  unfold offsetAt
  cases htoken : tokens[index]? with
  | none => simp
  | some token =>
      exact List.mem_append_left _ (List.mem_map_of_mem (List.mem_of_getElem? htoken))

/-- How the strict reading differs from the other one: not at all, or by stopping at the first
bracket that does not match, which the other one takes. -/
inductive Diverges (strict lax : Reading) (brackets : List Bracket) (tokens : List Token) : Prop
  | same {taken : List Token} : strict = lax → taken ++ lax.rest = tokens →
      (∀ index, ¬ MismatchAt brackets taken index) → Diverges strict lax brackets tokens
  | parted {taken : List Token} {index : Nat} {token : Token} {bracket : Bracket} :
      FirstMismatch brackets tokens index token bracket →
      strict.outcome =
        .error (.misread (.unexpected (.ofToken token) (.closing bracket)) token.offset) →
      taken ++ lax.rest = tokens → index < taken.length →
      (∀ cause offset, lax.outcome = .error (.misread cause offset) → token.offset < offset) →
        Diverges strict lax brackets tokens

theorem Diverges.cons {strict lax : Reading} {brackets : List Bracket} {token : Token}
    {tokens : List Token} (hmatch : ¬ Mismatches brackets token)
    (h : Diverges strict lax (track brackets token) tokens) :
    Diverges strict lax brackets (token :: tokens) := by
  cases h with
  | same heq htaken hmatches =>
      exact .same heq (congrArg (token :: ·) htaken) (forall_not_mismatchAt_cons hmatch hmatches)
  | @parted taken index _ _ hfirst hstrict htaken hindex hlax =>
      have hconsumed := congrArg (token :: ·) htaken
      rw [← List.cons_append] at hconsumed
      exact .parted (hfirst.cons hmatch) hstrict hconsumed (Nat.succ_lt_succ hindex) hlax

section
variable {levels endOffset : Nat} {pending : Pending} {token : Token} {tokens : List Token}

/-- At a bracket that does not match the strict reading stops, and the other one, which goes on,
cannot fail before the tokens that follow. -/
theorem diverges_at_bracket {bracket : Bracket} {outer : List Bracket} {value : Value}
    {stack : List Frame} (htokens : ∀ token ∈ tokens, token.Genuine)
    (hbefore : ∀ offset ∈ tokens.map Token.offset ++ [endOffset], token.offset < offset)
    (hbrackets : pending.brackets = bracket :: outer)
    (hmismatch : Mismatches pending.brackets token)
    (hstrict : step { strict := true, levels } pending token =
      .failed (.misread (.unexpected (.ofToken token) (.closing bracket)) token.offset))
    (hlax : step { strict := false, levels } pending token = complete value stack) :
    Diverges (resume { strict := true, levels } endOffset pending (token :: tokens))
      (resume { strict := false, levels } endOffset pending (token :: tokens))
      pending.brackets (token :: tokens) := by
  have hfirst : FirstMismatch pending.brackets (token :: tokens) 0 token bracket :=
    { found := rfl
      innermost := by simp [hbrackets]
      mismatch := mismatchAt_zero.mpr hmismatch
      first := by simp }
  simp only [resume, hstrict, hlax]
  rcases complete_cases value stack with ⟨next, hnext, -⟩ | ⟨result, hresult⟩
  · simp only [hnext]
    obtain ⟨taken, htaken⟩ := resume_taken { strict := false, levels } endOffset next tokens
    have hconsumed := congrArg (token :: ·) htaken
    rw [← List.cons_append] at hconsumed
    refine .parted hfirst rfl hconsumed (Nat.succ_pos _) ?_
    intro cause offset hoffset
    rcases resume_error htokens hoffset with hdeep | ⟨cause', index, heq, -⟩
    · simp at hdeep
    · obtain ⟨-, rfl⟩ := Stop.misread.inj heq
      exact hbefore _ (offsetAt_mem tokens index)
  · simp only [hresult]
    refine .parted hfirst rfl (List.singleton_append) (Nat.succ_pos _) ?_
    intro cause offset hoffset
    simp at hoffset

theorem resume_diverges (levels : Nat) (pending : Pending)
    (hgenuine : ∀ token ∈ tokens, token.Genuine)
    (hoffsets : (tokens.map Token.offset ++ [endOffset]).Pairwise (· < ·)) :
    Diverges (resume { strict := true, levels } endOffset pending tokens)
      (resume { strict := false, levels } endOffset pending tokens) pending.brackets tokens := by
  induction tokens generalizing pending with
  | nil => exact .same rfl rfl fun index => not_mismatchAt_nil
  | cons token tokens ih =>
      obtain ⟨htoken, htokens⟩ := List.forall_mem_cons.mp hgenuine
      obtain ⟨hbefore, hoffsets⟩ := List.pairwise_cons.mp hoffsets
      cases step_parallel levels pending token with
      | same hsame hmatch =>
          have hlast : ∀ index, ¬ MismatchAt pending.brackets [token] index :=
            forall_not_mismatchAt_cons hmatch fun index => not_mismatchAt_nil
          simp only [resume, hsame]
          cases hstep : step { strict := false, levels } pending token with
          | more next =>
              have hnext := ih next htokens hoffsets
              rw [brackets_of_step htoken hstep] at hnext
              exact hnext.cons hmatch
          | done value => exact .same rfl (List.singleton_append) hlast
          | refused cause => exact .same rfl rfl fun index => not_mismatchAt_nil
          | failed stop => exact .same rfl (List.singleton_append) hlast
      | refused hrefused =>
          simp only [resume, hrefused]
          exact .same rfl rfl fun index => not_mismatchAt_nil
      | parted hbrackets hmismatch hstrict hlax =>
          exact diverges_at_bracket htokens hbefore hbrackets hmismatch hstrict hlax

end

theorem reading_diverges (levels : Nat) (source : List Char) :
    Diverges (reading { strict := true, levels } source)
      (reading { strict := false, levels } source) [] (Token.lex source) := by
  apply resume_diverges
  · exact fun _ => Token.genuine_of_mem_lex
  · simpa [Token.lex] using Token.offsets_pairwise 0 source

theorem misread_of_unreadable {options : Options} {source : List Char} {details : String}
    {line column : Option Int}
    (h : read options source = .error (.failure (.unreadable details line column))) :
    ∃ cause offset, (reading options source).outcome = .error (.misread cause offset) := by
  cases houtcome : (reading options source).outcome with
  | ok value =>
      rw [read_of_ok houtcome] at h
      simp at h
  | error stop =>
      rw [read_of_error houtcome] at h
      cases stop with
      | misread cause offset => exact ⟨cause, offset, rfl⟩
      | tooDeep => simp [Stop.fault] at h
      | defect mistake => simp [Stop.fault] at h

/-- Reading with brackets that have to match gives a value just when reading without does and every
bracket that it takes matches. Else it stops at the first bracket that does not match, and where
reading without fails too, it fails no later, and for the same reason unless a bracket before does
not match. -/
theorem strict_refines_lax (levels : Nat) (source : List Char) :
    let strict : Options := { strict := true, levels }
    let lax : Options := { strict := false, levels }
    (∀ value, read strict source = .ok value ↔
      read lax source = .ok value ∧
        ∃ taken, taken ++ (Stream.ofSource lax source).readExpression.2.tokens = Token.lex source ∧
          ∀ index, ¬ MismatchAt [] taken index) ∧
    (∀ value, read lax source = .ok value → (∀ other, read strict source ≠ .ok other) →
      ∃ index token bracket, FirstMismatch [] (Token.lex source) index token bracket ∧
        read strict source = .error (.failure ((Misreading.unexpected (.ofToken token)
          (.closing bracket)).failure source token.offset))) ∧
    ∀ details line column, read lax source = .error (.failure (.unreadable details line column)) →
      ∃ (cause : Misreading) (offset : Nat) (cause' : Misreading) (offset' : Nat),
        read lax source = .error (.failure (cause.failure source offset)) ∧
        read strict source = .error (.failure (cause'.failure source offset')) ∧
        offset' ≤ offset ∧
        ((∀ index token, (Token.lex source)[index]? = some token → token.offset < offset →
          ¬ MismatchAt [] (Token.lex source) index) → cause' = cause ∧ offset' = offset) := by
  intro strict lax
  rw [tokens_readExpression]
  cases reading_diverges levels source with
  | @same taken hsame htaken hmatches =>
      have hread : read strict source = read lax source := by
        rw [read_eq, read_eq, hsame]
      refine ⟨fun value => ?_, ?_, ?_⟩
      · rw [hread]
        exact ⟨fun h => ⟨h, taken, htaken, hmatches⟩, fun h => h.1⟩
      · intro value hvalue hnone
        exact absurd (hread.trans hvalue) (hnone value)
      · intro details line column h
        obtain ⟨cause, offset, hlax⟩ := misread_of_unreadable h
        have hfailure := read_of_error hlax
        exact ⟨cause, offset, cause, offset, hfailure, hread.trans hfailure, Nat.le_refl offset,
          fun _ => ⟨rfl, rfl⟩⟩
  | @parted taken index token bracket hfirst hstrict htaken hindex hlater =>
      have hread := read_of_error hstrict
      refine ⟨fun value => ⟨?_, ?_⟩, ?_, ?_⟩
      · intro hvalue
        rw [hread] at hvalue
        simp at hvalue
      · rintro ⟨-, other, hother, hmatches⟩
        obtain rfl : other = taken := List.append_cancel_right (hother.trans htaken.symm)
        have hmismatch := hfirst.mismatch
        rw [← hother, mismatchAt_append hindex] at hmismatch
        exact absurd hmismatch (hmatches index)
      · intro value _ _
        exact ⟨index, token, bracket, hfirst, hread⟩
      · intro details line column h
        obtain ⟨cause, offset, hlax⟩ := misread_of_unreadable h
        have hoffset := hlater cause offset hlax
        refine ⟨cause, offset, _, token.offset, read_of_error hlax, hread, Nat.le_of_lt hoffset, ?_⟩
        intro hnone
        exact absurd hfirst.mismatch (hnone index token hfirst.found hoffset)

theorem strict_stops_at_bracket :
    ∃ index token bracket, FirstMismatch [] (Token.lex "(1] x".toList) index token bracket ∧
      read { strict := true, levels := 2 } "(1] x".toList =
        .error (.failure ((Misreading.unexpected (.ofToken token)
          (.closing bracket)).failure "(1] x".toList token.offset)) := by
  have hlex : Token.lex "(1] x".toList =
      [{ kind := .opening .round, text := ['('], offset := 0 },
        { kind := .integer, text := ['1'], offset := 1 },
        { kind := .closing .square, text := [']'], offset := 2 },
        { kind := .blank, text := [' '], offset := 3 },
        { kind := .atom, text := ['x'], offset := 4 }] := by
    decide +kernel
  have hlax : read { strict := false, levels := 2 } "(1] x".toList = .ok (.list [.integer 1]) := by
    rw [read_eq, reading, hlex]
    rfl
  have hstrict : ∀ other, read { strict := true, levels := 2 } "(1] x".toList ≠ .ok other := by
    intro other h
    rw [read_eq, reading, hlex] at h
    cases h
  exact (strict_refines_lax 2 "(1] x".toList).2.1 _ hlax hstrict

end SmallLisp.Reader
