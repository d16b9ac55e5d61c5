import SmallLisp.Proofs.Grammar

/-!
What a reading that is part way through still demands: the tokens that complete it. One step of the
reader takes the first token off what is demanded, so a reading goes on exactly as long as some
tokens can complete it.
-/

namespace SmallLisp.Reader

variable {strict : Bool}

/-- The tokens that end a list whose items so far are held latest first, where `outer` says what the
value of the list has to be followed by. -/
def Ends (strict : Bool) (bracket : Bracket) (items : List Value)
    (outer : Value → List Token → Value → Prop) (tokens : List Token) (result : Value) : Prop :=
  ∃ more values closer closing rest, tokens = more ++ closer :: rest ∧
    Further (Derives strict) more values ∧ closer.kind = .closing closing ∧
      Pairs strict bracket closing ∧ outer (.list (items.reverse ++ values)) rest result

/-- The tokens that close all open forms, once a value is put into the innermost of them. -/
def Closes (strict : Bool) : List Frame → Value → List Token → Value → Prop
  | [], value, tokens, result => tokens = [] ∧ result = value
  | .quoted :: stack, value, tokens, result =>
      Closes strict stack value.quotation tokens result
  | .list bracket items :: stack, value, tokens, result =>
      Ends strict bracket (value :: items) (Closes strict stack) tokens result

/-- The tokens that start with an expression and then close all open forms. -/
def Starts (strict : Bool) (stack : List Frame) (tokens : List Token) (result : Value) : Prop :=
  ∃ first rest value, tokens = first ++ rest ∧ Derives strict first value ∧
    Closes strict stack value rest result

/-- The tokens that complete what the reader waits for, and the expression that it is then. -/
def Pending.CompletedBy (strict : Bool) : Pending → List Token → Value → Prop
  | .expression stack, tokens, result => Starts strict stack tokens result
  | .opened bracket stack, tokens, result =>
      (∃ closer closing rest, tokens = closer :: rest ∧ closer.kind = .closing closing ∧
        Pairs strict bracket closing ∧ Closes strict stack (.list []) rest result) ∨
      Starts strict (.list bracket [] :: stack) tokens result
  | .afterItem bracket items stack, tokens, result =>
      Ends strict bracket items (Closes strict stack) tokens result

/-- The tokens that can follow a step. -/
def Step.CompletedBy (strict : Bool) : Step → List Token → Value → Prop
  | .more pending, tokens, result => pending.CompletedBy strict tokens result
  | .done value, tokens, result => tokens = [] ∧ result = value
  | .refused _, _, _ => False
  | .failed _, _, _ => False

theorem complete_completedBy (stack : List Frame) (value : Value) (tokens : List Token)
    (result : Value) :
    (complete value stack).CompletedBy strict tokens result ↔
      Closes strict stack value tokens result := by
  induction stack generalizing value with
  | nil => rfl
  | cons frame stack ih =>
      cases frame with
      | quoted => exact ih value.quotation
      | list bracket items => rfl

theorem complete_ne_failed (stack : List Frame) (value : Value) (stop : Stop) :
    complete value stack ≠ .failed stop := by
  induction stack generalizing value with
  | nil => simp [complete]
  | cons frame stack ih =>
      cases frame with
      | quoted => exact ih value.quotation
      | list bracket items => simp [complete]

theorem starts_cons_iff {stack : List Frame} {token : Token} {tokens : List Token}
    {result : Value} :
    Starts strict stack (token :: tokens) result ↔
      ∃ first rest value, tokens = first ++ rest ∧ Derives strict (token :: first) value ∧
        Closes strict stack value rest result := by
  constructor
  · rintro ⟨first, rest, value, htokens, hfirst, hrest⟩
    cases first with
    | nil => exact absurd hfirst not_derives_nil
    | cons head first =>
        obtain ⟨rfl, rfl⟩ := List.cons.inj htokens
        exact ⟨first, rest, value, rfl, hfirst, hrest⟩
  · rintro ⟨first, rest, value, rfl, hfirst, hrest⟩
    exact ⟨token :: first, rest, value, rfl, hfirst, hrest⟩

theorem starts_leaf_iff {stack : List Frame} {token : Token} {tokens : List Token}
    {value result : Value} (h : Leaf token value) :
    Starts strict stack (token :: tokens) result ↔ Closes strict stack value tokens result := by
  rw [starts_cons_iff]
  constructor
  · rintro ⟨first, rest, other, rfl, hfirst, hrest⟩
    obtain ⟨rfl, rfl⟩ := (derives_leaf_iff h).mp hfirst
    exact hrest
  · intro hrest
    exact ⟨[], tokens, value, rfl, .leaf h, hrest⟩

theorem starts_quote_iff {stack : List Frame} {mark : Token} {tokens : List Token}
    {result : Value} (hmark : mark.kind = .quote) :
    Starts strict stack (mark :: tokens) result ↔
      Starts strict (.quoted :: stack) tokens result := by
  rw [starts_cons_iff]
  constructor
  · rintro ⟨first, rest, value, rfl, hfirst, hrest⟩
    obtain ⟨inner, hinner, rfl⟩ := (derives_quote_iff hmark).mp hfirst
    exact ⟨first, rest, inner, rfl, hinner, hrest⟩
  · rintro ⟨first, rest, inner, rfl, hinner, hrest⟩
    exact ⟨first, rest, inner.quotation, rfl, .quotation hmark hinner, hrest⟩

theorem starts_opening_iff {stack : List Frame} {opener : Token} {tokens : List Token}
    {bracket : Bracket} {result : Value} (hopener : opener.kind = .opening bracket) :
    Starts strict stack (opener :: tokens) result ↔
      (Pending.opened bracket stack).CompletedBy strict tokens result := by
  rw [starts_cons_iff]
  constructor
  · rintro ⟨first, rest, value, rfl, hfirst, hrest⟩
    cases hfirst with
    | leaf hleaf => exact absurd hopener (hleaf.kind_ne.2.1 bracket)
    | quotation hmark _ => simp [hmark] at hopener
    | empty hopener' hcloser hpairs =>
        obtain rfl := TokenKind.opening.inj (hopener.symm.trans hopener')
        exact .inl ⟨_, _, rest, rfl, hcloser, hpairs, hrest⟩
    | list hopener' hitem hmore hcloser hpairs =>
        obtain rfl := TokenKind.opening.inj (hopener.symm.trans hopener')
        exact .inr ⟨_, _, _, by simp, hitem, _, _, _, _, rest, rfl, hmore, hcloser, hpairs, hrest⟩
  · rintro (⟨closer, closing, rest, rfl, hcloser, hpairs, hrest⟩ |
      ⟨first, _, value, rfl, hitem, more, values, closer, closing, rest, rfl, hmore, hcloser,
        hpairs, hrest⟩)
    · exact ⟨[closer], rest, _, rfl, .empty hopener hcloser hpairs, hrest⟩
    · exact ⟨_, rest, _, by simp, .list hopener hitem hmore hcloser hpairs, hrest⟩

theorem Starts.startsExpression {stack : List Frame} {token : Token} {tokens : List Token}
    {result : Value} (h : Starts strict stack (token :: tokens) result) :
    StartsExpression token := by
  obtain ⟨first, rest, value, rfl, hfirst, -⟩ := starts_cons_iff.mp h
  exact hfirst.startsExpression

/-- What a token does where an expression has to start. -/
inductive Begins (options : Options) (stack : List Frame) (token : Token) : Step → Prop
  | leaf {value : Value} : Leaf token value → Begins options stack token (complete value stack)
  | quote : token.kind = .quote → stack.length < options.levels →
      Begins options stack token (.more (.expression (.quoted :: stack)))
  | opening {bracket : Bracket} : token.kind = .opening bracket →
      stack.length < options.levels → Begins options stack token (.more (.opened bracket stack))
  | tooDeep : token.kind = .quote ∨ (∃ bracket, token.kind = .opening bracket) →
      options.levels ≤ stack.length → Begins options stack token (.failed .tooDeep)
  | refused {cause : Misreading} : ¬ StartsExpression token →
      Begins options stack token (.refused cause)
  | misread {cause : Misreading} : ¬ StartsExpression token →
      Begins options stack token (.failed (.misread cause token.offset))

theorem begin_begins (options : Options) (stack : List Frame) {token : Token}
    (hgenuine : token.Genuine) : Begins options stack token (begin options stack token) := by
  by_cases hstarts : StartsExpression token
  · rcases hstarts with ⟨value, hleaf⟩ | hmark | ⟨bracket, hopener⟩
    · rw [begin_of_leaf options stack hleaf]
      exact .leaf hleaf
    · by_cases hlevels : stack.length < options.levels
      · simpa [begin, hmark, hlevels] using .quote hmark hlevels
      · simpa [begin, hmark, hlevels] using .tooDeep (.inl hmark) (Nat.le_of_not_lt hlevels)
    · by_cases hlevels : stack.length < options.levels
      · simpa [begin, hopener, hlevels] using .opening hopener hlevels
      · simpa [begin, hopener, hlevels] using
          .tooDeep (.inr ⟨bracket, hopener⟩) (Nat.le_of_not_lt hlevels)
  have hleaf (value : Value) : ¬ Leaf token value := fun h => hstarts (.inl ⟨value, h⟩)
  cases hkind : token.kind with
  | blank => simpa [begin, hkind] using .refused hstarts
  | opening bracket => exact absurd (.inr (.inr ⟨bracket, hkind⟩)) hstarts
  | closing bracket => simpa [begin, hkind] using .refused hstarts
  | quote => exact absurd (.inr (.inl hkind)) hstarts
  | text =>
      rw [Token.Genuine, hkind] at hgenuine
      obtain ⟨body, content, htext, hencodes⟩ := hgenuine
      exact absurd (.text hkind htext hencodes.decode_eq) (hleaf _)
  | character =>
      rw [Token.Genuine, hkind] at hgenuine
      obtain ⟨name, htext, hne, hletters⟩ := hgenuine
      have hchar : characterOf? name = none := by
        unfold characterOf?
        split
        · rename_i c
          exact absurd (.letter hkind htext (hletters c (by simp))) (hleaf _)
        · apply Option.eq_none_iff_forall_ne_some.mpr
          intro c hc
          exact hleaf _ (.named hkind htext hc)
      simpa [begin, hkind, htext, hchar] using .misread hstarts
  | decimal => exact absurd (.decimal hkind) (hleaf _)
  | integer =>
      have hlength : ¬ token.text.length ≤ Text.digitLimit := fun hlength =>
        hleaf _ (.integer hkind hlength)
      simpa [begin, hkind, hlength] using .misread hstarts
  | atom =>
      by_cases htrue : token.text = ['#', 't']
      · exact absurd (.truth hkind htrue) (hleaf _)
      by_cases hfalse : token.text = ['#', 'f']
      · exact absurd (.falsity hkind hfalse) (hleaf _)
      exact absurd (.symbol hkind htrue hfalse) (hleaf _)
  | stray => simpa [begin, hkind] using .refused hstarts

/-- The forms that are open, the innermost first. -/
def Pending.frames : Pending → List Frame
  | expression stack => stack
  | opened bracket stack => .list bracket [] :: stack
  | afterItem bracket items stack => .list bracket items :: stack

/-- What a token does, whatever the reader waits for. -/
inductive Steps (options : Options) (pending : Pending) (token : Token) : Step → Prop
  | begins : Steps options pending token (begin options pending.frames token)
  | closes {bracket closing : Bracket} {items : List Value} {stack : List Frame} :
      pending.frames = .list bracket items :: stack → token.kind = .closing closing →
        Steps options pending token (close options bracket closing items stack token)
  | separates : token.kind = .blank →
      Steps options pending token (.more (.expression pending.frames))
  | refuses :
      Steps options pending token (.refused (.unexpected (.ofToken token) .blankOrClosing))

theorem step_steps (options : Options) (pending : Pending) (token : Token) :
    Steps options pending token (step options pending token) := by
  cases pending with
  | expression stack => exact .begins
  | opened bracket stack =>
      simp only [step]
      split
      · rename_i closing hkind
        exact .closes rfl hkind
      · exact .begins
  | afterItem bracket items stack =>
      simp only [step]
      split
      · rename_i closing hkind
        exact .closes rfl hkind
      · rename_i hkind
        exact .separates hkind
      · exact .refuses

theorem begin_completedBy_iff {options : Options} {stack : List Frame} {token : Token}
    {tokens : List Token} {result : Value} (hgenuine : token.Genuine)
    (hshallow : begin options stack token ≠ .failed .tooDeep) :
    (begin options stack token).CompletedBy options.strict tokens result ↔
      Starts options.strict stack (token :: tokens) result := by
  have hbegins := begin_begins options stack hgenuine
  generalize begin options stack token = step at hbegins hshallow ⊢
  cases hbegins with
  | leaf hleaf => rw [complete_completedBy, starts_leaf_iff hleaf]
  | quote hmark _ => exact (starts_quote_iff hmark).symm
  | opening hopener _ => exact (starts_opening_iff hopener).symm
  | tooDeep _ _ => exact absurd rfl hshallow
  | refused hstarts => exact (iff_false_right fun h => hstarts h.startsExpression).mpr id
  | misread hstarts => exact (iff_false_right fun h => hstarts h.startsExpression).mpr id

theorem close_completedBy_iff {options : Options} {bracket closing : Bracket} {items : List Value}
    {stack : List Frame} {closer : Token} {tokens : List Token} {result : Value} :
    (close options bracket closing items stack closer).CompletedBy options.strict tokens result ↔
      Pairs options.strict bracket closing ∧
        Closes options.strict stack (.list items.reverse) tokens result := by
  unfold close
  split
  · rename_i hmismatch
    simp [Step.CompletedBy, Pairs, hmismatch]
  · rename_i hmatch
    rw [complete_completedBy]
    simp_all [Pairs]

theorem ends_closing_iff {bracket closing : Bracket} {items : List Value}
    {outer : Value → List Token → Value → Prop} {closer : Token} {tokens : List Token}
    {result : Value} (hcloser : closer.kind = .closing closing) :
    Ends strict bracket items outer (closer :: tokens) result ↔
      Pairs strict bracket closing ∧ outer (.list items.reverse) tokens result := by
  constructor
  · rintro ⟨more, values, last, closing', rest, htokens, hmore, hlast, hpairs, hrest⟩
    cases hmore with
    | none =>
        obtain ⟨rfl, rfl⟩ := List.cons.inj htokens
        obtain rfl := TokenKind.closing.inj (hcloser.symm.trans hlast)
        exact ⟨hpairs, by simpa using hrest⟩
    | next hblank _ _ =>
        obtain ⟨rfl, -⟩ := List.cons.inj htokens
        simp [hcloser] at hblank
  · rintro ⟨hpairs, hrest⟩
    exact ⟨[], [], closer, closing, tokens, rfl, .none, hcloser, hpairs, by simpa using hrest⟩

theorem ends_blank_iff {bracket : Bracket} {items : List Value} {stack : List Frame}
    {blank : Token} {tokens : List Token} {result : Value} (hblank : blank.kind = .blank) :
    Ends strict bracket items (Closes strict stack) (blank :: tokens) result ↔
      Starts strict (.list bracket items :: stack) tokens result := by
  constructor
  · rintro ⟨more, values, closer, closing, rest, htokens, hmore, hcloser, hpairs, hrest⟩
    cases hmore with
    | none =>
        obtain ⟨rfl, -⟩ := List.cons.inj htokens
        simp [hblank] at hcloser
    | next _ hitem hmore =>
        obtain ⟨rfl, rfl⟩ := List.cons.inj htokens
        exact ⟨_, _, _, by simp, hitem, _, _, closer, closing, rest, rfl, hmore, hcloser, hpairs,
          by simpa using hrest⟩
  · rintro ⟨first, _, value, rfl, hitem, more, values, closer, closing, rest, rfl, hmore, hcloser,
      hpairs, hrest⟩
    exact ⟨_, _, closer, closing, rest, by simp, .next hblank hitem hmore, hcloser, hpairs,
      by simpa using hrest⟩

theorem Ends.kind {bracket : Bracket} {items : List Value}
    {outer : Value → List Token → Value → Prop} {token : Token} {tokens : List Token}
    {result : Value} (h : Ends strict bracket items outer (token :: tokens) result) :
    token.kind = .blank ∨ ∃ closing, token.kind = .closing closing := by
  obtain ⟨more, values, closer, closing, rest, htokens, hmore, hcloser, -⟩ := h
  cases hmore with
  | none =>
      obtain ⟨rfl, -⟩ := List.cons.inj htokens
      exact .inr ⟨closing, hcloser⟩
  | next hblank _ _ =>
      obtain ⟨rfl, -⟩ := List.cons.inj htokens
      exact .inl hblank

theorem opened_closing_iff {bracket closing : Bracket} {stack : List Frame} {closer : Token}
    {tokens : List Token} {result : Value} (hcloser : closer.kind = .closing closing) :
    (Pending.opened bracket stack).CompletedBy strict (closer :: tokens) result ↔
      Pairs strict bracket closing ∧ Closes strict stack (.list []) tokens result := by
  constructor
  · rintro (⟨last, closing', rest, htokens, hlast, hpairs, hrest⟩ | h)
    · obtain ⟨rfl, rfl⟩ := List.cons.inj htokens
      obtain rfl := TokenKind.closing.inj (hcloser.symm.trans hlast)
      exact ⟨hpairs, hrest⟩
    · exact absurd h.startsExpression (not_startsExpression_closing hcloser)
  · rintro ⟨hpairs, hrest⟩
    exact .inl ⟨closer, closing, tokens, rfl, hcloser, hpairs, hrest⟩

theorem opened_not_closing_iff {bracket : Bracket} {stack : List Frame} {token : Token}
    {tokens : List Token} {result : Value} (hcloser : ∀ closing, token.kind ≠ .closing closing) :
    (Pending.opened bracket stack).CompletedBy strict (token :: tokens) result ↔
      Starts strict (.list bracket [] :: stack) (token :: tokens) result := by
  constructor
  · rintro (⟨closer, closing, rest, htokens, hkind, -⟩ | h)
    · obtain ⟨rfl, -⟩ := List.cons.inj htokens
      exact absurd hkind (hcloser closing)
    · exact h
  · exact .inr

theorem step_opened_of_closing {options : Options} {bracket closing : Bracket}
    {stack : List Frame} {closer : Token} (hcloser : closer.kind = .closing closing) :
    step options (.opened bracket stack) closer =
      close options bracket closing [] stack closer := by
  simp [step, hcloser]

theorem step_opened_of_not_closing {options : Options} {bracket : Bracket} {stack : List Frame}
    {token : Token} (hcloser : ∀ closing, token.kind ≠ .closing closing) :
    step options (.opened bracket stack) token =
      begin options (.list bracket [] :: stack) token := by
  simp only [step]

/-- The reader's step takes the first token off what is demanded. -/
theorem step_completedBy_iff {options : Options} {pending : Pending} {token : Token}
    {tokens : List Token} {result : Value} (hgenuine : token.Genuine)
    (hshallow : step options pending token ≠ .failed .tooDeep) :
    (step options pending token).CompletedBy options.strict tokens result ↔
      pending.CompletedBy options.strict (token :: tokens) result := by
  cases pending with
  | expression stack => exact begin_completedBy_iff hgenuine hshallow
  | opened bracket stack =>
      by_cases hcloser : ∃ closing, token.kind = .closing closing
      · obtain ⟨closing, hcloser⟩ := hcloser
        rw [step_opened_of_closing hcloser, close_completedBy_iff, opened_closing_iff hcloser]
        rfl
      · have hcloser := not_exists.mp hcloser
        rw [step_opened_of_not_closing hcloser] at hshallow ⊢
        rw [begin_completedBy_iff hgenuine hshallow, opened_not_closing_iff hcloser]
  | afterItem bracket items stack =>
      simp only [Pending.CompletedBy]
      cases hkind : token.kind with
      | closing closing =>
          rw [ends_closing_iff hkind]
          simp only [step, hkind]
          exact close_completedBy_iff
      | blank =>
          rw [ends_blank_iff hkind]
          simp [step, hkind, Step.CompletedBy, Pending.CompletedBy]
      | _ =>
          have hends : ¬ Ends options.strict bracket items (Closes options.strict stack)
              (token :: tokens) result := fun h => by simpa [hkind] using h.kind
          simp [step, hkind, Step.CompletedBy, hends]

theorem not_completedBy_nil (pending : Pending) (result : Value) :
    ¬ pending.CompletedBy strict [] result := by
  have hstarts (stack : List Frame) : ¬ Starts strict stack [] result := by
    rintro ⟨first, rest, value, htokens, hfirst, -⟩
    obtain ⟨rfl, rfl⟩ := List.nil_eq_append_iff.mp htokens
    exact not_derives_nil hfirst
  cases pending with
  | expression stack => exact hstarts stack
  | opened bracket stack =>
      rintro (⟨closer, closing, rest, htokens, -⟩ | h)
      · simp at htokens
      · exact hstarts _ h
  | afterItem bracket items stack =>
      rintro ⟨more, values, closer, closing, rest, htokens, -⟩
      simp at htokens

/-- The token of a closing bracket. -/
def closingToken (bracket : Bracket) : Token :=
  { kind := .closing bracket, text := [bracket.closing], offset := 0 }

theorem genuine_closingToken (bracket : Bracket) : (closingToken bracket).Genuine :=
  rfl

variable (strict) in
theorem exists_closes (stack : List Frame) (value : Value) :
    ∃ tokens result, (∀ token ∈ tokens, token.Genuine) ∧
      Closes strict stack value tokens result := by
  induction stack generalizing value with
  | nil => exact ⟨[], value, by simp, rfl, rfl⟩
  | cons frame stack ih =>
      cases frame with
      | quoted => exact ih value.quotation
      | list bracket items =>
          obtain ⟨tokens, result, hgenuine, hcloses⟩ := ih (.list (value :: items).reverse)
          refine ⟨closingToken bracket :: tokens, result, ?_, ?_⟩
          · simpa [genuine_closingToken] using hgenuine
          · exact (ends_closing_iff rfl).mpr ⟨fun _ => rfl, hcloses⟩

/-- Whatever the reader waits for, some tokens complete it: an atom where an expression is missing,
and a bracket for every list that is open. -/
theorem exists_completedBy (pending : Pending) :
    ∃ tokens result, tokens ≠ [] ∧ (∀ token ∈ tokens, token.Genuine) ∧
      pending.CompletedBy strict tokens result := by
  cases pending with
  | expression stack =>
      let atom : Token := { kind := .atom, text := ['x'], offset := 0 }
      have hatom : Leaf atom (.symbol (String.ofList atom.text)) :=
        .symbol rfl (by decide) (by decide)
      obtain ⟨tokens, result, hgenuine, hcloses⟩ :=
        exists_closes strict stack (.symbol (String.ofList atom.text))
      refine ⟨atom :: tokens, result, by simp, ?_, (starts_leaf_iff hatom).mpr hcloses⟩
      have : atom.Genuine := ⟨'x', [], rfl, by decide, by simp⟩
      simpa [this] using hgenuine
  | opened bracket stack =>
      obtain ⟨tokens, result, hgenuine, hcloses⟩ :=
        exists_closes strict stack (.list [])
      refine ⟨closingToken bracket :: tokens, result, by simp, ?_, ?_⟩
      · simpa [genuine_closingToken] using hgenuine
      · exact (opened_closing_iff rfl).mpr ⟨fun _ => rfl, hcloses⟩
  | afterItem bracket items stack =>
      obtain ⟨tokens, result, hgenuine, hcloses⟩ :=
        exists_closes strict stack (.list items.reverse)
      refine ⟨closingToken bracket :: tokens, result, by simp, ?_, ?_⟩
      · simpa [genuine_closingToken] using hgenuine
      · exact (ends_closing_iff rfl).mpr ⟨fun _ => rfl, hcloses⟩

theorem Closes.depth_le {stack : List Frame} {value result : Value} {tokens : List Token}
    (h : Closes strict stack value tokens result) :
    value.depth + stack.length ≤ result.depth := by
  induction stack generalizing value tokens with
  | nil =>
      obtain ⟨-, rfl⟩ := h
      simp
  | cons frame stack ih =>
      cases frame with
      | quoted =>
          have hdepth := ih h
          simp only [Value.depth_quotation, List.length_cons] at hdepth ⊢
          omega
      | list bracket items =>
          obtain ⟨more, values, closer, closing, rest, -, -, -, -, hrest⟩ := h
          have hdepth := ih hrest
          have hvalue : value.depth < (Value.list ((value :: items).reverse ++ values)).depth :=
            Value.depth_lt_of_mem (by simp)
          rw [List.length_cons]
          omega

theorem Derives.depth_pos {token : Token} {tokens : List Token} {value : Value}
    (h : Derives strict (token :: tokens) value)
    (hkind : token.kind = .quote ∨ ∃ bracket, token.kind = .opening bracket) :
    0 < value.depth := by
  cases h with
  | leaf hleaf =>
      rcases hkind with hkind | ⟨bracket, hkind⟩
      · exact absurd hkind hleaf.kind_ne.1
      · exact absurd hkind (hleaf.kind_ne.2.1 bracket)
  | quotation _ _ => simp
  | empty _ _ _ => simp
  | list _ _ _ _ _ => simp

theorem begin_tooDeep {options : Options} {stack : List Frame} {token : Token}
    {tokens : List Token} {result : Value} (hgenuine : token.Genuine)
    (hdeep : begin options stack token = .failed .tooDeep)
    (h : Starts options.strict stack (token :: tokens) result) : options.levels < result.depth := by
  obtain ⟨first, rest, value, rfl, hfirst, hrest⟩ := starts_cons_iff.mp h
  have hdepth := hrest.depth_le
  have hbegins := begin_begins options stack hgenuine
  generalize begin options stack token = step at hbegins hdeep
  cases hbegins with
  | leaf _ => exact absurd hdeep (complete_ne_failed stack _ _)
  | tooDeep hkind hlevels =>
      have hpositive := hfirst.depth_pos hkind
      omega
  | _ => simp at hdeep

theorem step_tooDeep {options : Options} {pending : Pending} {token : Token}
    {tokens : List Token} {result : Value} (hgenuine : token.Genuine)
    (hdeep : step options pending token = .failed .tooDeep)
    (h : pending.CompletedBy options.strict (token :: tokens) result) :
    options.levels < result.depth := by
  have hclose (bracket closing : Bracket) (items : List Value) (stack : List Frame) :
      close options bracket closing items stack token ≠ .failed .tooDeep := by
    unfold close
    split
    · simp
    · exact complete_ne_failed stack _ _
  cases pending with
  | expression stack => exact begin_tooDeep hgenuine hdeep h
  | opened bracket stack =>
      by_cases hcloser : ∃ closing, token.kind = .closing closing
      · obtain ⟨closing, hcloser⟩ := hcloser
        rw [step_opened_of_closing hcloser] at hdeep
        exact absurd hdeep (hclose bracket closing [] stack)
      · have hcloser := not_exists.mp hcloser
        rw [step_opened_of_not_closing hcloser] at hdeep
        exact begin_tooDeep hgenuine hdeep ((opened_not_closing_iff hcloser).mp h)
  | afterItem bracket items stack =>
      simp only [step] at hdeep
      split at hdeep
      · exact absurd hdeep (hclose bracket _ items stack)
      · simp at hdeep
      · simp at hdeep

end SmallLisp.Reader
