import SmallLisp.Reader.Stream

namespace SmallLisp.Reader.Stream

/-- Whether a stream is the same as another one but for the tokens that it has left. -/
structure Leaves (stream later : Stream) (tokens : List Token) : Prop where
  source_eq : later.source = stream.source
  options_eq : later.options = stream.options
  tokens_eq : later.tokens = tokens

theorem Leaves.trans {stream later last : Stream} {tokens others : List Token}
    (h : stream.Leaves later tokens) (hlast : later.Leaves last others) :
    stream.Leaves last others where
  source_eq := hlast.source_eq.trans h.source_eq
  options_eq := hlast.options_eq.trans h.options_eq
  tokens_eq := hlast.tokens_eq

theorem tokens_ofSource (options : Options) (source : List Char) :
    (ofSource options source).tokens = Token.lex source :=
  rfl

section
variable {stream : Stream} {token : Token} {rest : List Token}

theorem cut_of_nil (huncut : stream.uncut = []) :
    stream.cut = (.ending stream.source.length, stream) := by
  unfold cut
  rw [huncut]

theorem cut_of_cons (hlex : Token.lexFrom stream.offset stream.uncut = token :: rest) :
    ∃ later, stream.cut = (.token token, later) ∧ later.source = stream.source ∧
      later.options = stream.options ∧ later.ahead = stream.ahead ∧
        Token.lexFrom later.offset later.uncut = rest := by
  unfold cut
  split
  · rename_i huncut
    simp [huncut, Token.lexFrom] at hlex
  · rename_i c cs huncut
    rw [huncut, Token.lexFrom] at hlex
    obtain ⟨rfl, rfl⟩ := List.cons.inj hlex
    exact ⟨_, rfl, rfl, rfl, rfl, rfl⟩

theorem tokens_eq_nil (h : stream.tokens = []) : stream.ahead = none ∧ stream.uncut = [] := by
  obtain ⟨hahead, hlex⟩ := List.append_eq_nil_iff.mp h
  refine ⟨Option.toList_eq_nil_iff.mp hahead, ?_⟩
  cases huncut : stream.uncut with
  | nil => rfl
  | cons c cs => simp [huncut, Token.lexFrom] at hlex

theorem peek_of_nil (h : stream.tokens = []) :
    stream.peek = (.ending stream.source.length, stream) := by
  obtain ⟨hahead, huncut⟩ := tokens_eq_nil h
  simp [peek, hahead, cut_of_nil huncut]

theorem advance_of_nil (h : stream.tokens = []) :
    stream.advance = (.ending stream.source.length, stream) := by
  obtain ⟨hahead, huncut⟩ := tokens_eq_nil h
  simp [advance, hahead, cut_of_nil huncut]

theorem advance_of_cons (h : stream.tokens = token :: rest) :
    ∃ later, stream.advance = (.token token, later) ∧ stream.Leaves later rest := by
  cases hahead : stream.ahead with
  | some kept =>
      simp only [tokens, hahead, Option.toList_some, List.singleton_append, List.cons.injEq] at h
      obtain ⟨rfl, hrest⟩ := h
      exact ⟨{ stream with ahead := none }, by simp [advance, hahead], rfl, rfl, hrest⟩
  | none =>
      simp only [tokens, hahead, Option.toList_none, List.nil_append] at h
      obtain ⟨later, hcut, hsource, hoptions, hlater, hlex⟩ := cut_of_cons h
      refine ⟨later, by simp [advance, hahead, hcut], hsource, hoptions, ?_⟩
      simp [tokens, hlater, hahead, hlex]

theorem peek_of_cons (h : stream.tokens = token :: rest) :
    ∃ later, stream.peek = (.token token, later) ∧ stream.Leaves later (token :: rest) := by
  cases hahead : stream.ahead with
  | some kept =>
      obtain rfl : kept = token := by
        simp only [tokens, hahead, Option.toList_some, List.singleton_append, List.cons.injEq] at h
        exact h.1
      exact ⟨stream, by simp [peek, hahead], rfl, rfl, h⟩
  | none =>
      simp only [tokens, hahead, Option.toList_none, List.nil_append] at h
      obtain ⟨later, hcut, hsource, hoptions, -, hlex⟩ := cut_of_cons h
      refine ⟨{ later with ahead := some token }, by simp [peek, hahead, hcut], hsource, hoptions,
        ?_⟩
      simp [tokens, hlex]

theorem readOn_of_ending {later : Stream} {offset : Nat} (h : stream.peek = (.ending offset, later))
    (pending : Pending) :
    stream.readOn pending =
      (.error (.misread (.unexpected .endOfInput pending.expected) offset), later) := by
  rw [readOn]
  split
  · rename_i heq
    obtain ⟨hoffset, rfl⟩ := Prod.mk.inj (heq.symm.trans h)
    rw [Upcoming.ending.inj hoffset]
  · rename_i heq
    simp [h] at heq

theorem readOn_of_token {later : Stream} (h : stream.peek = (.token token, later))
    (pending : Pending) :
    stream.readOn pending = match step stream.options pending token with
      | .more next => later.advance.2.readOn next
      | .done value => (.ok value, later.advance.2)
      | .refused cause => (.error (.misread cause token.offset), later)
      | .failed stop => (.error stop, later.advance.2) := by
  rw [readOn]
  split
  · rename_i heq
    simp [h] at heq
  · rename_i heq
    obtain ⟨htoken, rfl⟩ := Prod.mk.inj (heq.symm.trans h)
    obtain rfl := Upcoming.token.inj htoken
    rfl

end

/-- The reading of a stream is that of its tokens. -/
theorem readOn_eq {stream : Stream} {tokens : List Token} (h : stream.tokens = tokens)
    (pending : Pending) :
    (stream.readOn pending).1 =
        (resume stream.options stream.source.length pending tokens).outcome ∧
      stream.Leaves (stream.readOn pending).2
        (resume stream.options stream.source.length pending tokens).rest := by
  induction tokens generalizing stream pending with
  | nil =>
      rw [readOn_of_ending (peek_of_nil h)]
      exact ⟨rfl, rfl, rfl, h⟩
  | cons token tokens ih =>
      obtain ⟨seen, hpeek, hseen⟩ := peek_of_cons h
      obtain ⟨later, hadvance, hlater⟩ := advance_of_cons hseen.tokens_eq
      have hleaves := hseen.trans hlater
      rw [readOn_of_token hpeek, hadvance]
      simp only [resume]
      cases step stream.options pending token with
      | more next =>
          obtain ⟨houtcome, hrest⟩ := ih hleaves.tokens_eq next
          rw [hleaves.source_eq, hleaves.options_eq] at houtcome hrest
          exact ⟨houtcome, hleaves.trans hrest⟩
      | done value => exact ⟨rfl, hleaves⟩
      | refused cause => exact ⟨rfl, hseen⟩
      | failed stop => exact ⟨rfl, hleaves⟩

end SmallLisp.Reader.Stream
