import SmallLisp.Proofs.Completion
import SmallLisp.Proofs.Streaming

namespace SmallLisp.Reader

variable {options : Options} {endOffset : Nat}

theorem completedBy_expression_iff {strict : Bool} {tokens : List Token} {value : Value} :
    (Pending.expression []).CompletedBy strict tokens value ↔ Derives strict tokens value := by
  constructor
  · rintro ⟨first, rest, other, rfl, hfirst, rfl, rfl⟩
    simpa using hfirst
  · intro h
    exact ⟨tokens, [], value, by simp, h, rfl, rfl⟩

theorem step_failed {pending : Pending} {token : Token} {stop : Stop} (hgenuine : token.Genuine)
    (h : step options pending token = .failed stop) :
    stop = .tooDeep ∨ ∃ cause, stop = .misread cause token.offset := by
  have hsteps := step_steps options pending token
  rw [h] at hsteps
  generalize hstep : Step.failed stop = step at hsteps
  cases hsteps with
  | begins =>
      have hbegins := begin_begins options pending.frames hgenuine
      rw [← hstep] at hbegins
      generalize hother : Step.failed stop = other at hbegins
      cases hbegins with
      | leaf _ => exact absurd hother.symm (complete_ne_failed pending.frames _ stop)
      | tooDeep _ _ => exact .inl (Step.failed.inj hother)
      | misread _ => exact .inr ⟨_, Step.failed.inj hother⟩
      | _ => simp at hother
  | @closes bracket closing items stack _ _ =>
      unfold close at hstep
      split at hstep
      · exact .inr ⟨_, Step.failed.inj hstep⟩
      · exact absurd hstep.symm (complete_ne_failed stack _ stop)
  | separates _ => simp at hstep
  | refuses => simp at hstep

theorem resume_ok {pending : Pending} {tokens : List Token} {value : Value}
    (hgenuine : ∀ token ∈ tokens, token.Genuine)
    (h : (resume options endOffset pending tokens).outcome = .ok value) :
    ∃ taken, tokens = taken ++ (resume options endOffset pending tokens).rest ∧
      pending.CompletedBy options.strict taken value := by
  induction tokens generalizing pending with
  | nil => simp [resume] at h
  | cons token tokens ih =>
      obtain ⟨htoken, htokens⟩ := List.forall_mem_cons.mp hgenuine
      simp only [resume] at h ⊢
      cases hstep : step options pending token with
      | more next =>
          simp only [hstep] at h ⊢
          obtain ⟨taken, hsplit, hcompleted⟩ := ih htokens h
          refine ⟨token :: taken, by rw [List.cons_append, ← hsplit], ?_⟩
          rw [← step_completedBy_iff htoken (by simp [hstep]), hstep]
          exact hcompleted
      | done other =>
          simp only [hstep, Except.ok.injEq] at h ⊢
          refine ⟨[token], rfl, ?_⟩
          rw [← step_completedBy_iff htoken (by simp [hstep]), hstep]
          exact ⟨rfl, h.symm⟩
      | refused cause => simp [hstep] at h
      | failed stop => simp [hstep] at h

/-- Tokens that complete what the reader waits for are taken, unless the expression is too deep. -/
theorem resume_of_completedBy (options : Options) (endOffset : Nat) {pending : Pending}
    {taken : List Token} (rest : List Token) {value : Value}
    (hgenuine : ∀ token ∈ taken, token.Genuine)
    (h : pending.CompletedBy options.strict taken value) :
    resume options endOffset pending (taken ++ rest) = { outcome := .ok value, rest } ∨
      (resume options endOffset pending (taken ++ rest)).outcome = .error .tooDeep ∧
        options.levels < value.depth := by
  induction taken generalizing pending with
  | nil => exact absurd h (not_completedBy_nil pending value)
  | cons token taken ih =>
      obtain ⟨htoken, htaken⟩ := List.forall_mem_cons.mp hgenuine
      by_cases hdeep : step options pending token = .failed .tooDeep
      · refine .inr ⟨?_, step_tooDeep htoken hdeep h⟩
        simp [resume, hdeep]
      rw [← step_completedBy_iff htoken hdeep] at h
      simp only [List.cons_append, resume]
      cases hstep : step options pending token with
      | more next =>
          rw [hstep] at h
          exact ih htaken h
      | done other =>
          rw [hstep] at h
          obtain ⟨rfl, rfl⟩ := h
          exact .inl rfl
      | refused cause =>
          rw [hstep] at h
          exact h.elim
      | failed stop =>
          rw [hstep] at h
          exact h.elim

/-- The index of the first token that no expression goes on with: the tokens before it can be
completed, the tokens up to it cannot. After the last token, the tokens are not complete. -/
structure FirstFault (completes : List Token → Value → Prop) (tokens : List Token)
    (index : Nat) : Prop where
  within : index ≤ tokens.length
  extendable : ∃ more value, more ≠ [] ∧ (∀ token ∈ more, token.Genuine) ∧
    completes (tokens.take index ++ more) value
  blocked : index < tokens.length →
    ∀ more value, ¬ completes (tokens.take (index + 1) ++ more) value
  incomplete : index = tokens.length → ∀ value, ¬ completes tokens value

section
variable {completes : List Token → Value → Prop} {token : Token} {tokens : List Token}

theorem FirstFault.unique {first second : Nat} (hfirst : FirstFault completes tokens first)
    (hsecond : FirstFault completes tokens second) : first = second := by
  have hle {low high : Nat} (hlow : FirstFault completes tokens low)
      (hhigh : FirstFault completes tokens high) : high ≤ low := by
    apply Nat.le_of_not_lt
    intro hlt
    obtain ⟨more, value, -, -, hcompletes⟩ := hhigh.extendable
    have hwithin : low < tokens.length := Nat.lt_of_lt_of_le hlt hhigh.within
    have hsplit : tokens.take high =
        tokens.take (low + 1) ++ (tokens.drop (low + 1)).take (high - (low + 1)) := by
      rw [← List.take_add, Nat.add_sub_cancel' hlt]
    rw [hsplit, List.append_assoc] at hcompletes
    exact hlow.blocked hwithin _ value hcompletes
  exact Nat.le_antisymm (hle hsecond hfirst) (hle hfirst hsecond)

theorem firstFault_nil
    (hextendable : ∃ more value, more ≠ [] ∧ (∀ token ∈ more, token.Genuine) ∧
      completes more value)
    (hincomplete : ∀ value, ¬ completes [] value) : FirstFault completes [] 0 where
  within := Nat.le_refl 0
  extendable := by simpa using hextendable
  blocked := fun h => absurd h (Nat.lt_irrefl 0)
  incomplete := fun _ => hincomplete

theorem firstFault_head
    (hextendable : ∃ more value, more ≠ [] ∧ (∀ token ∈ more, token.Genuine) ∧
      completes more value)
    (hblocked : ∀ more value, ¬ completes (token :: more) value) :
    FirstFault completes (token :: tokens) 0 where
  within := Nat.zero_le _
  extendable := by simpa using hextendable
  blocked := fun _ => by simpa using hblocked
  incomplete := fun h => by simp at h

theorem FirstFault.cons {next : List Token → Value → Prop} {index : Nat}
    (hnext : ∀ more value, next more value ↔ completes (token :: more) value)
    (h : FirstFault next tokens index) : FirstFault completes (token :: tokens) (index + 1) where
  within := Nat.succ_le_succ h.within
  extendable := by
    obtain ⟨more, value, hne, hgenuine, hcompletes⟩ := h.extendable
    exact ⟨more, value, hne, hgenuine, (hnext _ value).mp hcompletes⟩
  blocked := fun hlt more value hcompletes =>
    h.blocked (Nat.lt_of_succ_lt_succ hlt) more value ((hnext _ value).mpr hcompletes)
  incomplete := fun heq value hcompletes =>
    h.incomplete (Nat.succ.inj heq) value ((hnext _ value).mpr hcompletes)

end

/-- Where the token of an index stands; the index after the last token stands for the end. -/
def offsetAt (endOffset : Nat) (tokens : List Token) (index : Nat) : Nat :=
  tokens[index]?.elim endOffset Token.offset

/-- A reading stops for depth or at the first token that nothing it waits for goes on with. -/
theorem resume_error {pending : Pending} {tokens : List Token} {stop : Stop}
    (hgenuine : ∀ token ∈ tokens, token.Genuine)
    (h : (resume options endOffset pending tokens).outcome = .error stop) :
    stop = .tooDeep ∨ ∃ cause index, stop = .misread cause (offsetAt endOffset tokens index) ∧
      FirstFault (pending.CompletedBy options.strict) tokens index := by
  induction tokens generalizing pending with
  | nil =>
      simp only [resume, Except.error.injEq] at h
      exact .inr ⟨_, 0, h.symm, firstFault_nil (exists_completedBy pending)
        (not_completedBy_nil pending)⟩
  | cons token tokens ih =>
      obtain ⟨htoken, htokens⟩ := List.forall_mem_cons.mp hgenuine
      have hhead (hblocked : ∀ more value,
          ¬ (step options pending token).CompletedBy options.strict more value)
          (hshallow : step options pending token ≠ .failed .tooDeep) :
          FirstFault (pending.CompletedBy options.strict) (token :: tokens) 0 :=
        firstFault_head (exists_completedBy pending) fun more value hcompletes =>
          hblocked more value ((step_completedBy_iff htoken hshallow).mpr hcompletes)
      simp only [resume] at h
      cases hstep : step options pending token with
      | more next =>
          simp only [hstep] at h
          refine (ih htokens h).imp_right ?_
          rintro ⟨cause, index, rfl, hfault⟩
          refine ⟨cause, index + 1, rfl, hfault.cons fun more value => ?_⟩
          rw [← step_completedBy_iff htoken (by simp [hstep]), hstep]
          rfl
      | done value => simp [hstep] at h
      | refused cause =>
          simp only [hstep, Except.error.injEq] at h
          refine .inr ⟨cause, 0, h.symm, hhead ?_ (by simp [hstep])⟩
          simp [hstep, Step.CompletedBy]
      | failed other =>
          simp only [hstep, Except.error.injEq] at h
          subst h
          refine (step_failed htoken hstep).imp_right ?_
          rintro ⟨cause, rfl⟩
          refine ⟨cause, 0, rfl, hhead ?_ (by simp [hstep])⟩
          simp [hstep, Step.CompletedBy]

/-- Two derivations that start at the same token are one. -/
theorem Derives.unique {strict : Bool} {tokens taken other : List Token} {value result : Value}
    (hgenuine : ∀ token ∈ tokens, token.Genuine) (htaken : taken <+: tokens)
    (hother : other <+: tokens) (hvalue : Derives strict taken value)
    (hresult : Derives strict other result) : other = taken ∧ result = value := by
  let options : Options := { strict, levels := max value.depth result.depth }
  have hreads {taken : List Token} {value : Value} (htaken : taken <+: tokens)
      (hvalue : Derives strict taken value) (hdepth : value.depth ≤ options.levels) :
      ∃ rest, taken ++ rest = tokens ∧
        resume options 0 (.expression []) tokens = { outcome := .ok value, rest } := by
    obtain ⟨rest, rfl⟩ := htaken
    have hgenuine : ∀ token ∈ taken, token.Genuine := fun token htoken =>
      hgenuine token (by simp [htoken])
    rcases resume_of_completedBy options 0 rest hgenuine
      (completedBy_expression_iff.mpr hvalue) with h | ⟨-, hdeep⟩
    · exact ⟨rest, rfl, h⟩
    · omega
  obtain ⟨rest, hrest, h⟩ := hreads htaken hvalue (Nat.le_max_left _ _)
  obtain ⟨rest', hrest', h'⟩ := hreads hother hresult (Nat.le_max_right _ _)
  obtain ⟨hok, rfl⟩ := Reading.mk.inj (h.symm.trans h')
  exact ⟨List.append_cancel_right (hrest'.trans hrest.symm), (Except.ok.inj hok).symm⟩

/-- The reading of a source from its start. -/
def reading (options : Options) (source : List Char) : Reading :=
  resume options source.length (.expression []) (Token.lex source)

section
variable {source : List Char} {value : Value}

theorem read_eq : read options source =
    (reading options source).outcome.mapError (Stop.fault source) :=
  congrArg (Except.mapError (Stop.fault source))
    (Stream.readOn_eq (Stream.tokens_ofSource options source) (.expression [])).1

theorem tokens_readExpression (options : Options) (source : List Char) :
    (Stream.ofSource options source).readExpression.2.tokens = (reading options source).rest :=
  (Stream.readOn_eq (Stream.tokens_ofSource options source) (.expression [])).2.tokens_eq

theorem read_of_ok (h : (reading options source).outcome = .ok value) :
    read options source = .ok value := by
  rw [read_eq, h]
  rfl

theorem read_of_error {stop : Stop} (h : (reading options source).outcome = .error stop) :
    read options source = .error (stop.fault source) := by
  rw [read_eq, h]
  rfl

theorem read_ok_iff : read options source = .ok value ↔
    (reading options source).outcome = .ok value := by
  refine ⟨fun h => ?_, read_of_ok⟩
  cases houtcome : (reading options source).outcome with
  | ok other =>
      rw [read_of_ok houtcome] at h
      obtain rfl := Except.ok.inj h
      rfl
  | error stop =>
      rw [read_of_error houtcome] at h
      cases h

theorem firstFault_of_misread {cause : Misreading} {offset : Nat}
    (h : (reading options source).outcome = .error (.misread cause offset)) :
    ∃ index, offset = offsetAt source.length (Token.lex source) index ∧
      FirstFault (Derives options.strict) (Token.lex source) index := by
  have hcompletes : (Pending.expression []).CompletedBy options.strict =
      Derives options.strict := by
    funext tokens value
    exact propext completedBy_expression_iff
  rcases resume_error (fun _ => Token.genuine_of_mem_lex) h with hstop | ⟨_, index, hstop, hfault⟩
  · cases hstop
  · obtain ⟨-, rfl⟩ := Stop.misread.inj hstop
    exact ⟨index, rfl, hcompletes ▸ hfault⟩

theorem read_error {fault : Fault} (h : read options source = .error fault) :
    fault = .failure .tooDeep ∨ ∃ (cause : Misreading) (index : Nat),
      fault = .failure
        (cause.failure source (offsetAt source.length (Token.lex source) index)) ∧
      FirstFault (Derives options.strict) (Token.lex source) index := by
  cases houtcome : (reading options source).outcome with
  | ok value =>
      rw [read_of_ok houtcome] at h
      cases h
  | error stop =>
      rw [read_of_error houtcome] at h
      obtain rfl := Except.error.inj h
      rcases resume_error (fun _ => Token.genuine_of_mem_lex) houtcome with
        rfl | ⟨cause, _, rfl, -⟩
      · exact .inl rfl
      · obtain ⟨index, hindex, hfault⟩ := firstFault_of_misread houtcome
        exact .inr ⟨cause, index, by rw [← hindex]; rfl, hfault⟩

theorem read_of_derives (options : Options) {taken : List Token}
    (htaken : taken <+: Token.lex source) (h : Derives options.strict taken value) :
    (read options source = .ok value ∧
        taken ++ (reading options source).rest = Token.lex source) ∨
      read options source = .error (.failure .tooDeep) ∧ options.levels < value.depth := by
  obtain ⟨rest, hrest⟩ := htaken
  have hgenuine : ∀ token ∈ taken, token.Genuine := fun token htoken =>
    Token.genuine_of_mem_lex (hrest ▸ List.mem_append_left rest htoken)
  have hresume := resume_of_completedBy options source.length rest hgenuine
    (completedBy_expression_iff.mpr h)
  rw [hrest] at hresume
  rcases hresume with hresume | ⟨hdeep, hlevels⟩
  · refine .inl ⟨read_of_ok (by rw [reading, hresume]), ?_⟩
    rw [reading, hresume, hrest]
  · refine .inr ⟨?_, hlevels⟩
    exact read_of_error hdeep

theorem derives_of_read (h : read options source = .ok value) :
    ∃ taken, taken <+: Token.lex source ∧ Derives options.strict taken value := by
  obtain ⟨taken, hsplit, hcompleted⟩ :=
    resume_ok (fun _ => Token.genuine_of_mem_lex) (read_ok_iff.mp h)
  exact ⟨taken, ⟨_, hsplit.symm⟩, completedBy_expression_iff.mp hcompleted⟩

end

/-- The reader accepts exactly its grammar: unless it gives up for depth, it answers the value that
tokens at the start of the source derive, takes just these tokens, which no other derivation shares,
and reports a fault of the source when no tokens derive a value. -/
theorem read_iff_derives (options : Options) (source : List Char)
    (hshallow : read options source ≠ .error (.failure .tooDeep)) :
    (∀ value, read options source = .ok value ↔
      ∃ taken, taken <+: Token.lex source ∧ Derives options.strict taken value) ∧
    ((∀ taken value, taken <+: Token.lex source → ¬ Derives options.strict taken value) →
      ∃ details line column,
        read options source = .error (.failure (.unreadable details (some line) (some column)))) ∧
    ∀ taken value, taken <+: Token.lex source → Derives options.strict taken value →
      taken ++ (Stream.ofSource options source).readExpression.2.tokens = Token.lex source ∧
      ∀ other result, other <+: Token.lex source → Derives options.strict other result →
        other = taken ∧ result = value := by
  refine ⟨fun value => ⟨derives_of_read, ?_⟩, ?_, ?_⟩
  · rintro ⟨taken, htaken, h⟩
    rcases read_of_derives options htaken h with ⟨hread, -⟩ | ⟨hdeep, -⟩
    · exact hread
    · exact absurd hdeep hshallow
  · intro hnone
    cases hread : read options source with
    | ok value =>
        obtain ⟨taken, htaken, h⟩ := derives_of_read hread
        exact absurd h (hnone taken value htaken)
    | error fault =>
        rcases read_error hread with rfl | ⟨cause, index, rfl, -⟩
        · exact absurd hread hshallow
        · exact ⟨_, _, _, rfl⟩
  · intro taken value htaken h
    refine ⟨?_, fun other result hother hresult =>
      Derives.unique (fun _ => Token.genuine_of_mem_lex) htaken hother h hresult⟩
    rcases read_of_derives options htaken h with ⟨-, hrest⟩ | ⟨hdeep, -⟩
    · rwa [tokens_readExpression]
    · exact absurd hdeep hshallow

theorem derives_quoted_list :
    ∃ taken, taken <+: Token.lex "'(12 \"a\\n\" #\\space #\\b) x".toList ∧
      Derives true taken
        (Value.list [.integer 12, .text "a\n", .character ' ', .character 'b']).quotation := by
  have hlex : Token.lex "'(12 \"a\\n\" #\\space #\\b) x".toList =
      [{ kind := .quote, text := ['\''], offset := 0 },
        { kind := .opening .round, text := ['('], offset := 1 },
        { kind := .integer, text := ['1', '2'], offset := 2 },
        { kind := .blank, text := [' '], offset := 4 },
        { kind := .text, text := ['"', 'a', '\\', 'n', '"'], offset := 5 },
        { kind := .blank, text := [' '], offset := 10 },
        { kind := .character, text := "#\\space".toList, offset := 11 },
        { kind := .blank, text := [' '], offset := 18 },
        { kind := .character, text := ['#', '\\', 'b'], offset := 19 },
        { kind := .closing .round, text := [')'], offset := 22 },
        { kind := .blank, text := [' '], offset := 23 },
        { kind := .atom, text := ['x'], offset := 24 }] := by
    decide +kernel
  have hread : read { strict := true, levels := 2 } "'(12 \"a\\n\" #\\space #\\b) x".toList =
      .ok (Value.list [.integer 12, .text "a\n", .character ' ', .character 'b']).quotation := by
    rw [read_eq, reading, hlex]
    rfl
  have hshallow : read { strict := true, levels := 2 }
      "'(12 \"a\\n\" #\\space #\\b) x".toList ≠ .error (.failure .tooDeep) := by
    rw [hread]
    exact fun h => nomatch h
  exact ((read_iff_derives _ _ hshallow).1 _).mp hread

/-- A fault of the source is reported at the first token that no expression goes on with, or at the
end when the tokens stop before they make one. -/
theorem unreadable_at_first_fault {options : Options} {source : List Char} {details : String}
    {line column : Option Int}
    (h : read options source = .error (.failure (.unreadable details line column))) :
    ∃ index, FirstFault (Derives options.strict) (Token.lex source) index ∧
      (∀ other, FirstFault (Derives options.strict) (Token.lex source) other → other = index) ∧
      let place := Text.position source (offsetAt source.length (Token.lex source) index)
      line = some ↑place.line ∧ column = some ↑place.column := by
  rcases read_error h with hfault | ⟨cause, index, hfault, hfirst⟩
  · simp at hfault
  · refine ⟨index, hfirst, fun other hother => hother.unique hfirst, ?_⟩
    simp only [Misreading.failure, Fault.failure.injEq, Failure.unreadable.injEq] at hfault
    exact hfault.2

theorem firstFault_mismatched_bracket :
    read { strict := true, levels := 2 } "'(1]".toList = .error (.failure (.unreadable
      "\"lisp\" (line 1, column 4): unexpected \"]\"; expecting \")\"" (some 1) (some 4))) ∧
    FirstFault (Derives true) (Token.lex "'(1]".toList) 3 := by
  have hlex : Token.lex "'(1]".toList =
      [{ kind := .quote, text := ['\''], offset := 0 },
        { kind := .opening .round, text := ['('], offset := 1 },
        { kind := .integer, text := ['1'], offset := 2 },
        { kind := .closing .square, text := [']'], offset := 3 }] := by
    decide +kernel
  have hread : read { strict := true, levels := 2 } "'(1]".toList = .error (.failure (.unreadable
      "\"lisp\" (line 1, column 4): unexpected \"]\"; expecting \")\"" (some 1) (some 4))) := by
    rw [read_eq, reading, hlex]
    rfl
  obtain ⟨index, hfault, -, -, hcolumn⟩ := unreadable_at_first_fault hread
  have hcolumns : ∀ index ≤ 4, (Text.position "'(1]".toList
      (offsetAt 4 (Token.lex "'(1]".toList) index)).column = index + 1 := by
    rw [hlex]
    decide
  have hwithin : index ≤ 4 := by
    have hlength := hfault.within
    rwa [hlex] at hlength
  have hplace := Int.ofNat.inj (Option.some.inj hcolumn)
  obtain rfl : index = 3 := Nat.succ.inj ((hcolumns index hwithin).symm.trans hplace.symm)
  exact ⟨hread, hfault⟩

end SmallLisp.Reader
