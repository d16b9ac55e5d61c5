import SmallLisp.Proofs.Strictness

/-!
A stream is a cursor over the tokens of its source. Whatever was asked of it before, it stands at
one of them or at the end, and it goes on from there as if the text before were not there; only the
places of faults count from the start of the source.
-/

namespace SmallLisp

def Token.shift (distance : Nat) (token : Token) : Token :=
  { token with offset := distance + token.offset }

theorem Token.lexFrom_shift (distance offset : Nat) (cs : List Char) :
    lexFrom (distance + offset) cs = (lexFrom offset cs).map (shift distance) := by
  fun_induction lexFrom offset cs with
  | case1 => simp [lexFrom]
  | case2 offset c cs next ih =>
      rw [lexFrom, List.map_cons, ← ih, ← Nat.add_assoc]
      rfl

theorem Token.lexFrom_eq_shift (distance : Nat) (cs : List Char) :
    lexFrom distance cs = (lex cs).map (shift distance) := by
  rw [lex, ← lexFrom_shift, Nat.add_zero]

namespace Reader

section
variable {endOffset : Nat} {token : Token} {tokens : List Token}

@[simp] theorem offsetAt_nil (index : Nat) : offsetAt endOffset [] index = endOffset :=
  rfl

@[simp] theorem offsetAt_zero : offsetAt endOffset (token :: tokens) 0 = token.offset :=
  rfl

@[simp] theorem offsetAt_succ (index : Nat) :
    offsetAt endOffset (token :: tokens) (index + 1) = offsetAt endOffset tokens index := by
  simp [offsetAt]

theorem offsetAt_lt (h : (tokens.map Token.offset ++ [endOffset]).Pairwise (· < ·))
    {first second : Nat} (hlt : first < second) (hwithin : second ≤ tokens.length) :
    offsetAt endOffset tokens first < offsetAt endOffset tokens second := by
  induction tokens generalizing first second with
  | nil =>
      rw [List.length_nil] at hwithin
      omega
  | cons token tokens ih =>
      rw [List.map_cons, List.cons_append, List.pairwise_cons] at h
      obtain ⟨second, rfl⟩ := Nat.exists_eq_succ_of_ne_zero (Nat.ne_of_gt (Nat.zero_lt_of_lt hlt))
      rw [Nat.succ_eq_add_one, offsetAt_succ]
      cases first with
      | zero => exact h.1 _ (offsetAt_mem tokens second)
      | succ first =>
          rw [offsetAt_succ]
          exact ih h.2 (Nat.lt_of_succ_lt_succ hlt) (Nat.le_of_succ_le_succ hwithin)

theorem offsetAt_drop (index further : Nat) : offsetAt endOffset (tokens.drop index) further =
    offsetAt endOffset tokens (index + further) := by
  simp [offsetAt]

end

theorem exists_lexFrom_drop (offset : Nat) (source : List Char) (index : Nat) :
    ∃ before after, source = before ++ after ∧
      offsetAt (offset + source.length) (Token.lexFrom offset source) index =
        offset + before.length ∧
      (Token.lexFrom offset source).drop index = Token.lexFrom (offset + before.length) after := by
  fun_induction Token.lexFrom offset source generalizing index with
  | case1 offset => exact ⟨[], [], rfl, by simp, by simp [Token.lexFrom]⟩
  | case2 offset c cs next ih =>
      have happend : next.text ++ next.rest = c :: cs := Token.lexeme_append c cs
      cases index with
      | zero => exact ⟨[], c :: cs, rfl, by simp, by simp [Token.lexFrom, next]⟩
      | succ index =>
          obtain ⟨before, after, hsource, hoffset, hdrop⟩ := ih index
          refine ⟨next.text ++ before, after, ?_, ?_, ?_⟩
          · rw [List.append_assoc, ← hsource, happend]
          · rw [offsetAt_succ, ← happend, List.length_append, List.length_append, ← Nat.add_assoc,
              ← Nat.add_assoc, hoffset]
          · rw [List.drop_succ_cons, List.length_append, ← Nat.add_assoc, hdrop]

/-- Where the token of an index starts, or the source ends. -/
def startAt (source : List Char) (index : Nat) : Nat :=
  offsetAt source.length (Token.lex source) index

/-- The text from the token of an index on. -/
def textFrom (source : List Char) (index : Nat) : List Char :=
  source.drop (startAt source index)

theorem lex_textFrom (source : List Char) (index : Nat) :
    source.length = startAt source index + (textFrom source index).length ∧
      (Token.lex source).drop index =
        (Token.lex (textFrom source index)).map (Token.shift (startAt source index)) := by
  obtain ⟨before, after, hsource, hoffset, hdrop⟩ := exists_lexFrom_drop 0 source index
  have hstart : startAt source index = before.length := by
    simpa [startAt, Token.lex] using hoffset
  have hafter : textFrom source index = after := by
    rw [textFrom, hstart, hsource, List.drop_left]
  rw [hstart, hafter]
  constructor
  · rw [hsource, List.length_append]
  · rw [Token.lex, hdrop, Nat.zero_add, Token.lexFrom_eq_shift]

theorem startAt_le (source : List Char) (index : Nat) : startAt source index ≤ source.length := by
  have hlength := (lex_textFrom source index).1
  omega

theorem startAt_injective {source : List Char} {index other : Nat}
    (h : index ≤ (Token.lex source).length) (hother : other ≤ (Token.lex source).length)
    (heq : startAt source index = startAt source other) : index = other := by
  have hpairwise : ((Token.lex source).map Token.offset ++ [source.length]).Pairwise (· < ·) := by
    simpa [Token.lex] using Token.offsets_pairwise 0 source
  rcases Nat.lt_trichotomy index other with hlt | rfl | hgt
  · exact absurd heq (Nat.ne_of_lt (offsetAt_lt hpairwise hlt hother))
  · rfl
  · exact absurd heq.symm (Nat.ne_of_lt (offsetAt_lt hpairwise hgt h))

-- Shifting moves the places of tokens and faults further on in a source. Nothing else in a reading
-- depends on them.

def Stop.shift (distance : Nat) : Stop → Stop
  | misread cause offset => misread cause (distance + offset)
  | other => other

def Step.shift (distance : Nat) : Step → Step
  | failed stop => failed (stop.shift distance)
  | other => other

def Reading.shift (distance : Nat) (reading : Reading) : Reading where
  outcome := reading.outcome.mapError (Stop.shift distance)
  rest := reading.rest.map (Token.shift distance)

theorem complete_shift (distance : Nat) (value : Value) (stack : List Frame) :
    (complete value stack).shift distance = complete value stack := by
  rcases complete_cases value stack with ⟨next, hnext, -⟩ | ⟨result, hresult⟩
  · rw [hnext, Step.shift]
    simp
  · rw [hresult, Step.shift]
    simp

theorem begin_shift (options : Options) (distance : Nat) (stack : List Frame) (token : Token) :
    begin options stack (token.shift distance) = (begin options stack token).shift distance := by
  have hcomplete := complete_shift distance
  obtain ⟨kind, text, offset⟩ := token
  have hshift : Token.shift distance { kind, text, offset } =
      { kind, text, offset := distance + offset } := rfl
  rw [hshift]
  cases kind with
  | text =>
      simp only [begin]
      split
      · rw [hcomplete]
      · rfl
  | character =>
      simp only [begin]
      split
      · rw [hcomplete]
      · rfl
  | integer =>
      simp only [begin]
      split
      · rw [hcomplete]
      · rfl
  | quote =>
      simp only [begin]
      split <;> rfl
  | opening bracket =>
      simp only [begin]
      split <;> rfl
  | atom => exact (hcomplete _ stack).symm
  | decimal => exact (hcomplete _ stack).symm
  | blank => rfl
  | closing bracket => rfl
  | stray => rfl

theorem close_shift (options : Options) (distance : Nat) (bracket closing : Bracket)
    (items : List Value) (stack : List Frame) (token : Token) :
    close options bracket closing items stack (token.shift distance) =
      (close options bracket closing items stack token).shift distance := by
  unfold close
  split
  · rfl
  · rw [complete_shift]

theorem step_shift (options : Options) (distance : Nat) (pending : Pending) (token : Token) :
    step options pending (token.shift distance) = (step options pending token).shift distance := by
  cases pending with
  | expression stack => exact begin_shift options distance stack token
  | opened bracket stack =>
      simp only [step, Token.shift]
      split
      · exact close_shift options distance bracket _ [] stack token
      · exact begin_shift options distance _ token
  | afterItem bracket items stack =>
      simp only [step, Token.shift]
      split
      · exact close_shift options distance bracket _ items stack token
      · rfl
      · rfl

theorem resume_shift (options : Options) (distance endOffset : Nat) (pending : Pending)
    (tokens : List Token) :
    resume options (distance + endOffset) pending (tokens.map (Token.shift distance)) =
      (resume options endOffset pending tokens).shift distance := by
  induction tokens generalizing pending with
  | nil => rfl
  | cons token tokens ih =>
      simp only [List.map_cons, resume, step_shift]
      cases step options pending token with
      | more next => exact ih next
      | done value => rfl
      | refused cause => rfl
      | failed stop => rfl

/-- Whether a token at fault is left in place: one that is not what an expression or a separator can
be. Any other one is taken before it turns out to be at fault. -/
def Misreading.leavesToken : Misreading → Bool
  | unexpected _ .expression => true
  | unexpected _ .blankOrClosing => true
  | _ => false

/-- What a step says about the token it stops at: it is the one at fault, and it is left in place
just when the cause is of that kind. -/
inductive Places (token : Token) : Step → Prop
  | more (next : Pending) : Places token (.more next)
  | done (value : Value) : Places token (.done value)
  | refused {cause : Misreading} : cause.leavesToken = true → Places token (.refused cause)
  | misread {cause : Misreading} : cause.leavesToken = false →
      Places token (.failed (.misread cause token.offset))
  | tooDeep : Places token (.failed .tooDeep)
  | defect (mistake : Defect) : Places token (.failed (.defect mistake))

theorem places_complete (value : Value) (stack : List Frame) (token : Token) :
    Places token (complete value stack) := by
  rcases complete_cases value stack with ⟨next, hnext, -⟩ | ⟨result, hresult⟩
  · rw [hnext]
    exact .more next
  · rw [hresult]
    exact .done result

theorem places_begin (options : Options) (stack : List Frame) (token : Token) :
    Places token (begin options stack token) := by
  unfold begin
  repeat' split
  all_goals first
    | exact places_complete _ stack token
    | exact .refused rfl
    | exact .misread rfl
    | exact .more _
    | exact .tooDeep
    | exact .defect _

theorem places_close (options : Options) (bracket closing : Bracket) (items : List Value)
    (stack : List Frame) (token : Token) :
    Places token (close options bracket closing items stack token) := by
  unfold close
  split
  · exact .misread rfl
  · exact places_complete _ stack token

theorem places_step (options : Options) (pending : Pending) (token : Token) :
    Places token (step options pending token) := by
  have hsteps := step_steps options pending token
  generalize step options pending token = step at hsteps
  cases hsteps with
  | begins => exact places_begin options pending.frames token
  | closes _ _ => exact places_close options _ _ _ _ token
  | separates _ => exact .more _
  | refuses => exact .refused rfl

section
variable {options : Options} {endOffset offset : Nat} {pending : Pending} {tokens : List Token}
  {cause : Misreading}

theorem resume_misread
    (h : (resume options endOffset pending tokens).outcome = .error (.misread cause offset)) :
    ∃ index, offset = offsetAt endOffset tokens index ∧
      (resume options endOffset pending tokens).rest =
        tokens.drop (if cause.leavesToken then index else index + 1) ∧
      (if cause.leavesToken then index else index + 1) ≤ tokens.length := by
  induction tokens generalizing pending with
  | nil =>
      simp only [resume, Except.error.injEq, Stop.misread.injEq] at h
      obtain ⟨rfl, rfl⟩ := h
      have hleaves : (Misreading.unexpected .endOfInput pending.expected).leavesToken = true := by
        cases pending <;> rfl
      exact ⟨0, rfl, List.drop_nil.symm, by simp [hleaves]⟩
  | cons token tokens ih =>
      have hplaces := places_step options pending token
      simp only [resume] at h ⊢
      generalize step options pending token = next at hplaces h ⊢
      cases hplaces with
      | more next =>
          -- The token is taken, so the index of the fault is one further from here.
          obtain ⟨index, hoffset, hrest, hindex⟩ := ih h
          refine ⟨index + 1, by rw [offsetAt_succ, hoffset], ?_, ?_⟩
          · rw [hrest]
            split <;> rfl
          · rw [List.length_cons]
            split at hindex <;> simp_all
      | done value => simp at h
      | refused hleaves =>
          simp only [Except.error.injEq, Stop.misread.injEq] at h
          obtain ⟨rfl, rfl⟩ := h
          exact ⟨0, rfl, by simp [hleaves], by simp [hleaves]⟩
      | misread hleaves =>
          simp only [Except.error.injEq, Stop.misread.injEq] at h
          obtain ⟨rfl, rfl⟩ := h
          exact ⟨0, rfl, by simp [hleaves], by simp [hleaves]⟩
      | tooDeep => simp at h
      | defect mistake => simp at h

end

namespace Stream

/-- That a stream stands at the token of an index of its source, or at the end. -/
structure StandsAt (stream : Stream) (options : Options) (source : List Char) (index : Nat) :
    Prop where
  source_eq : stream.source = source
  options_eq : stream.options = options
  index_le : index ≤ (Token.lex source).length
  tokens_eq : stream.tokens = (Token.lex source).drop index

/-- What comes at an index of a source. -/
def upcomingAt (source : List Char) (index : Nat) : Upcoming :=
  (Token.lex source)[index]?.elim (.ending source.length) .token

/-- What can be asked of a stream. -/
inductive Call
  | peek
  | advance
  | read

def after (stream : Stream) : Call → Stream
  | .peek => stream.peek.2
  | .advance => stream.advance.2
  | .read => stream.readExpression.2

/-- What a reading from the token of an index on answers and the index it comes to, beside what is
read from the text that starts there. -/
inductive ReadsFrom (options : Options) (source : List Char) (index : Nat) :
    Outcome Value → Nat → Prop
  | value {value : Value} {last : Nat} :
      read options (textFrom source index) = .ok value → index < last →
      Derives options.strict (((Token.lex source).drop index).take (last - index)) value →
        ReadsFrom options source index (.ok value) last
  | misread {cause : Misreading} {offset skipped : Nat} :
      (reading options (textFrom source index)).outcome = .error (.misread cause offset) →
      read options (textFrom source index) =
        .error (.failure (cause.failure (textFrom source index) offset)) →
      startAt source (index + skipped) = startAt source index + offset →
        ReadsFrom options source index
          (.error (.failure (cause.failure source (startAt source index + offset))))
          (index + if cause.leavesToken then skipped else skipped + 1)
  | tooDeep {last : Nat} :
      read options (textFrom source index) = .error (.failure .tooDeep) → index ≤ last →
        ReadsFrom options source index (.error (.failure .tooDeep)) last

section
variable {stream : Stream} {options : Options} {source : List Char} {index : Nat}

theorem standsAt_ofSource (options : Options) (source : List Char) :
    (ofSource options source).StandsAt options source 0 where
  source_eq := rfl
  options_eq := rfl
  index_le := Nat.zero_le _
  tokens_eq := tokens_ofSource options source

theorem StandsAt.leaves {later : Stream} {tokens : List Token} {last : Nat}
    (h : stream.StandsAt options source index) (hleaves : stream.Leaves later tokens)
    (hlast : last ≤ (Token.lex source).length) (htokens : tokens = (Token.lex source).drop last) :
    later.StandsAt options source last where
  source_eq := hleaves.source_eq.trans h.source_eq
  options_eq := hleaves.options_eq.trans h.options_eq
  index_le := hlast
  tokens_eq := hleaves.tokens_eq.trans htokens

theorem StandsAt.token_or_end (h : stream.StandsAt options source index) :
    (∃ token, (Token.lex source)[index]? = some token ∧ index < (Token.lex source).length ∧
      stream.tokens = token :: (Token.lex source).drop (index + 1)) ∨
    (Token.lex source)[index]? = none ∧ index = (Token.lex source).length ∧
      stream.tokens = [] := by
  by_cases hindex : index < (Token.lex source).length
  · refine .inl ⟨_, List.getElem?_eq_getElem hindex, hindex, ?_⟩
    rw [h.tokens_eq, List.drop_eq_getElem_cons hindex]
  · have hend : index = (Token.lex source).length := by
      have := h.index_le
      omega
    refine .inr ⟨List.getElem?_eq_none (Nat.le_of_eq hend.symm), hend, ?_⟩
    rw [h.tokens_eq, hend, List.drop_length]

theorem StandsAt.peek (h : stream.StandsAt options source index) :
    stream.peek.1 = upcomingAt source index ∧ stream.peek.2.StandsAt options source index := by
  rcases h.token_or_end with ⟨token, htoken, hindex, htokens⟩ | ⟨hnone, hend, htokens⟩
  · obtain ⟨later, hpeek, hleaves⟩ := peek_of_cons htokens
    rw [hpeek]
    refine ⟨by simp [upcomingAt, htoken], h.leaves hleaves h.index_le ?_⟩
    rw [← htokens, h.tokens_eq]
  · rw [peek_of_nil htokens, h.source_eq]
    exact ⟨by simp [upcomingAt, hnone], h⟩

theorem StandsAt.advance (h : stream.StandsAt options source index) :
    stream.advance.1 = upcomingAt source index ∧
      stream.advance.2.StandsAt options source (min (index + 1) (Token.lex source).length) := by
  rcases h.token_or_end with ⟨token, htoken, hindex, htokens⟩ | ⟨hnone, hend, htokens⟩
  · obtain ⟨later, hadvance, hleaves⟩ := advance_of_cons htokens
    rw [hadvance, Nat.min_eq_left hindex]
    exact ⟨by simp [upcomingAt, htoken], h.leaves hleaves hindex rfl⟩
  · rw [advance_of_nil htokens, h.source_eq, Nat.min_eq_right (by omega), ← hend]
    exact ⟨by simp [upcomingAt, hnone], h⟩

/-- Reading the tokens from an index on comes to what reading the text from there on does, but for
the places of faults. -/
theorem resume_textFrom (options : Options) (source : List Char) (index : Nat) :
    resume options source.length (.expression []) ((Token.lex source).drop index) =
      (reading options (textFrom source index)).shift (startAt source index) := by
  obtain ⟨hlength, htokens⟩ := lex_textFrom source index
  rw [hlength, htokens, resume_shift, reading]

theorem StandsAt.reading (h : stream.StandsAt options source index) :
    let run := resume options source.length (.expression []) ((Token.lex source).drop index)
    stream.readExpression.1 = run.outcome.mapError (Stop.fault source) ∧
      stream.Leaves stream.readExpression.2 run.rest := by
  obtain ⟨houtcome, hrest⟩ := readOn_eq h.tokens_eq (.expression [])
  rw [h.source_eq, h.options_eq] at houtcome hrest
  refine ⟨?_, hrest⟩
  rw [readExpression, h.source_eq]
  exact congrArg (Except.mapError (Stop.fault source)) houtcome

theorem StandsAt.taken {later : Stream} {taken rest : List Token}
    (h : stream.StandsAt options source index) (hleaves : stream.Leaves later rest)
    (hsplit : taken ++ rest = (Token.lex source).drop index) :
    later.StandsAt options source (index + taken.length) := by
  refine h.leaves hleaves ?_ ?_
  · have hlength := congrArg List.length hsplit
    have hindex := h.index_le
    rw [List.length_append, List.length_drop] at hlength
    omega
  · rw [← List.drop_drop, ← hsplit, List.drop_left]

theorem StandsAt.readExpression (h : stream.StandsAt options source index) :
    ∃ last, ReadsFrom options source index stream.readExpression.1 last ∧
      stream.readExpression.2.StandsAt options source last := by
  -- The tokens from here on read as the text from here on does, shifted. So the fresh reading of
  -- that text decides what is answered, and the run over the tokens where the stream comes to.
  obtain ⟨hanswer, hleaves⟩ := h.reading
  have hgenuine : ∀ token ∈ (Token.lex source).drop index, token.Genuine := fun _ htoken =>
    Token.genuine_of_mem_lex (List.mem_of_mem_drop htoken)
  have hshift := resume_textFrom options source index
  cases hfresh : (Reader.reading options (textFrom source index)).outcome with
  | ok value =>
      have hrun : (resume options source.length (.expression [])
          ((Token.lex source).drop index)).outcome = .ok value := by
        rw [hshift, Reading.shift, hfresh]
        rfl
      obtain ⟨taken, hsplit, hcompleted⟩ := resume_ok hgenuine hrun
      have hderives := completedBy_expression_iff.mp hcompleted
      have htaken : taken ≠ [] := by
        rintro rfl
        exact not_derives_nil hderives
      refine ⟨index + taken.length, ?_, h.taken hleaves hsplit.symm⟩
      rw [hanswer, hrun]
      refine .value (read_of_ok hfresh) ?_ ?_
      · exact Nat.lt_add_of_pos_right (List.length_pos_iff.mpr htaken)
      · rw [Nat.add_sub_cancel_left, hsplit, List.take_left]
        exact hderives
  | error stop =>
      have hrun : (resume options source.length (.expression [])
          ((Token.lex source).drop index)).outcome =
            .error (stop.shift (startAt source index)) := by
        rw [hshift, Reading.shift, hfresh]
        rfl
      have hread := read_of_error hfresh
      cases stop with
      | misread cause offset =>
          obtain ⟨skipped, hoffset, hrest, hskipped⟩ := resume_misread hrun
          refine ⟨index + if cause.leavesToken then skipped else skipped + 1, ?_, ?_⟩
          · rw [hanswer, hrun]
            refine .misread hfresh hread ?_
            rw [startAt, ← offsetAt_drop, ← hoffset]
          · refine h.leaves hleaves ?_ (by rw [hrest, List.drop_drop])
            have hindex := h.index_le
            rw [List.length_drop] at hskipped
            omega
      | tooDeep =>
          obtain ⟨taken, hsplit⟩ := resume_taken options source.length (.expression [])
            ((Token.lex source).drop index)
          refine ⟨index + taken.length, ?_, h.taken hleaves hsplit⟩
          rw [hanswer, hrun]
          exact .tooDeep hread (Nat.le_add_right _ _)
      | defect mistake =>
          rcases resume_error hgenuine hrun with hstop | ⟨cause, place, hstop, -⟩
          · cases hstop
          · cases hstop

theorem StandsAt.after (h : stream.StandsAt options source index) (call : Call) :
    ∃ next, (stream.after call).StandsAt options source next := by
  cases call with
  | peek => exact ⟨_, h.peek.2⟩
  | advance => exact ⟨_, h.advance.2⟩
  | read =>
      obtain ⟨last, -, hlast⟩ := h.readExpression
      exact ⟨last, hlast⟩

theorem exists_standsAt (calls : List Call) (h : ∃ index, stream.StandsAt options source index) :
    ∃ index, (calls.foldl Stream.after stream).StandsAt options source index := by
  induction calls generalizing stream with
  | nil => exact h
  | cons call calls ih =>
      obtain ⟨index, h⟩ := h
      exact ih (h.after call)

/-- A stream starts at the first token of its source. Whatever was asked of it, it stands at one of
the tokens or at the end. To look at what comes leaves it there, to take it moves it on by one, and
at the end neither does anything. To read an expression gives what is read from the text that starts
there, with the places of faults in the whole source, and moves it on past the expression or to the
fault. -/
theorem standsAt_after (options : Options) (source : List Char) :
    (ofSource options source).StandsAt options source 0 ∧
      ∀ calls : List Call,
        let stream := calls.foldl after (ofSource options source)
        ∃ index, stream.StandsAt options source index ∧
          (stream.peek.1 = upcomingAt source index ∧
            stream.peek.2.StandsAt options source index) ∧
          (stream.advance.1 = upcomingAt source index ∧
            stream.advance.2.StandsAt options source
              (min (index + 1) (Token.lex source).length)) ∧
          ∃ last, ReadsFrom options source index stream.readExpression.1 last ∧
            stream.readExpression.2.StandsAt options source last := by
  refine ⟨standsAt_ofSource options source, fun calls => ?_⟩
  obtain ⟨index, h⟩ := exists_standsAt calls ⟨0, standsAt_ofSource options source⟩
  exact ⟨index, h, h.peek, h.advance, h.readExpression⟩

end

end Stream

end Reader

end SmallLisp
