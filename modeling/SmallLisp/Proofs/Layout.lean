import SmallLisp.Proofs.Cursor
import SmallLisp.Proofs.Place
import SmallLisp.Proofs.Separation

namespace SmallLisp

open Text

/-- The kind of a token once all brackets are round. -/
def TokenKind.rounded : TokenKind → TokenKind
  | opening _ => opening .round
  | closing _ => closing .round
  | kind => kind

namespace Token

/-- The text of a token in plain layout: one space for a blank, and round brackets. -/
def plain (token : Token) : List Char :=
  match token.kind with
  | .blank => [' ']
  | .opening _ => [Bracket.round.opening]
  | .closing _ => [Bracket.round.closing]
  | _ => token.text

/-- A source in plain layout. -/
def relaid (source : List Char) : List Char :=
  (lex source).flatMap plain

def plainAt (offset : Nat) (token : Token) : Token :=
  { kind := token.kind.rounded, text := token.plain, offset }

def plainFrom : Nat → List Token → List Token
  | _, [] => []
  | offset, token :: tokens =>
      token.plainAt offset :: plainFrom (offset + token.plain.length) tokens

/-- Whether two characters separate tokens alike: both are blanks, or both are brackets or quotes,
but none that a text literal starts with. -/
structure Interchangeable (c d : Char) : Prop where
  first : isDelimiter c
  second : isDelimiter d
  first_ne : c ≠ '"'
  second_ne : d ≠ '"'
  blank : isBlank c = isBlank d

/-- A text with some separators exchanged for others. -/
inductive Exchanged : List Char → List Char → Prop
  | nil : Exchanged [] []
  | kept (c : Char) {rest other : List Char} :
      Exchanged rest other → Exchanged (c :: rest) (c :: other)
  | separator {run rest other : List Char} {c : Char} : run ≠ [] →
      (∀ d ∈ run, Interchangeable c d) → Exchanged rest other →
        Exchanged (run ++ rest) (c :: other)

theorem Exchanged.append (cs : List Char) {rest other : List Char} (h : Exchanged rest other) :
    Exchanged (cs ++ rest) (cs ++ other) := by
  induction cs with
  | nil => exact h
  | cons c cs ih => exact .kept c ih

theorem isDelimiter_opening (bracket : Bracket) : isDelimiter bracket.opening := by
  cases bracket <;> decide

theorem isDelimiter_closing (bracket : Bracket) : isDelimiter bracket.closing := by
  cases bracket <;> decide

theorem exchanged_plain {tokens : List Token} (h : ∀ token ∈ tokens, token.Genuine) :
    Exchanged (tokens.flatMap text) (tokens.flatMap plain) := by
  induction tokens with
  | nil => exact .nil
  | cons token tokens ih =>
      obtain ⟨hgenuine, htokens⟩ := List.forall_mem_cons.mp h
      obtain ⟨kind, cs, offset⟩ := token
      rw [List.flatMap_cons, List.flatMap_cons]
      cases kind with
      | blank =>
          refine .separator hgenuine.1 (fun d hd => ?_) (ih htokens)
          have hblank := hgenuine.2 d hd
          refine ⟨by decide, by simp [isDelimiter, hblank], by decide, ?_, ?_⟩
          · rintro rfl
            exact absurd hblank (by decide)
          · rw [hblank]
            decide
      | opening bracket =>
          obtain rfl := hgenuine
          refine .separator (List.cons_ne_nil _ _) (fun d hd => ?_) (ih htokens)
          obtain rfl := List.mem_singleton.mp hd
          exact ⟨isDelimiter_opening _, isDelimiter_opening _, by decide,
            by cases bracket <;> decide, by cases bracket <;> decide⟩
      | closing bracket =>
          obtain rfl := hgenuine
          refine .separator (List.cons_ne_nil _ _) (fun d hd => ?_) (ih htokens)
          obtain rfl := List.mem_singleton.mp hd
          exact ⟨isDelimiter_closing _, isDelimiter_closing _, by decide,
            by cases bracket <;> decide, by cases bracket <;> decide⟩
      | _ => exact (ih htokens).append cs

section
variable {rest other : List Char}

theorem Breaks.exchanged {p : Char → Bool} (h : Breaks p rest) (hexchanged : Exchanged rest other)
    (hp : ∀ c d, Interchangeable c d → p c = p d) : Breaks p other := by
  cases hexchanged with
  | nil => exact breaks_nil p
  | kept c _ => exact breaks_cons.mpr (breaks_cons.mp h)
  | @separator run rest other c hne hrun _ =>
      obtain ⟨d, run, rfl⟩ := List.exists_cons_of_ne_nil hne
      rw [List.cons_append, breaks_cons] at h
      rw [breaks_cons, hp c d (hrun d (List.mem_cons_self ..)), h]

theorem BreaksAfter.exchanged {mark : Char} {p : Char → Bool} (h : BreaksAfter mark p rest)
    (hexchanged : Exchanged rest other) (hmark : isDelimiter mark = false)
    (hp : ∀ c d, Interchangeable c d → p c = p d) : BreaksAfter mark p other := by
  rintro c tail rfl
  cases hexchanged with
  | @kept _ rest _ htail =>
      have hbreaks : Breaks p rest := by
        cases rest with
        | nil => exact breaks_nil p
        | cons d rest => exact breaks_cons.mpr (h d rest rfl)
      exact breaks_cons.mp (hbreaks.exchanged htail hp)
  | separator hne hrun _ =>
      obtain ⟨d, hd⟩ := List.exists_mem_of_ne_nil _ hne
      have hfirst := (hrun d hd).first
      rw [hmark] at hfirst
      cases hfirst

end

theorem lookup_delimiter {c : Char} (hc : isDelimiter c) (hne : c ≠ '"') :
    Escape.table.lookup c = none := by
  apply List.lookup_eq_none_iff.mpr
  have htable : ∀ entry ∈ Escape.table, entry.1 = '"' ∨ isDelimiter entry.1 = false := by
    decide +kernel
  intro entry hentry
  rw [bne_iff_ne]
  rintro rfl
  rcases htable entry hentry with hquote | hdelimiter
  · exact hne hquote
  · rw [hdelimiter] at hc
    cases hc

theorem encodes_append_separators {run body content : List Char} {c : Char}
    (hrun : ∀ d ∈ run, Interchangeable c d) (hbody : Escape.Encodes body content) :
    Escape.Encodes (run ++ body) (run ++ content) := by
  induction run with
  | nil => exact hbody
  | cons d run ih =>
      obtain ⟨hd, hrun⟩ := List.forall_mem_cons.mp hrun
      exact .plain hd.second_ne (delimiter_classes hd.second).2.2.2.2 (ih hrun)

theorem exists_encodes_of_exchanged {rest body content after : List Char}
    (hencodes : Escape.Encodes body content) (h : Exchanged rest (body ++ '"' :: after)) :
    ∃ body content after, rest = body ++ '"' :: after ∧ Escape.Encodes body content := by
  -- Exchanging separators neither opens nor closes the literal that a text is the rest of.
  induction hencodes generalizing rest with
  | nil =>
      cases h with
      | kept _ _ => exact ⟨[], [], _, rfl, .nil⟩
      | separator hne hrun _ =>
          obtain ⟨d, hd⟩ := List.exists_mem_of_ne_nil _ hne
          exact absurd rfl (hrun d hd).first_ne
  | @plain c body content hquote hbackslash _ ih =>
      cases h with
      | kept _ hrest =>
          obtain ⟨body, content, after, rfl, hbody⟩ := ih hrest
          exact ⟨c :: body, c :: content, after, rfl, .plain hquote hbackslash hbody⟩
      | @separator run _ _ _ _ hrun hrest =>
          obtain ⟨body, content, after, rfl, hbody⟩ := ih hrest
          refine ⟨run ++ body, run ++ content, after, by rw [List.append_assoc], ?_⟩
          exact encodes_append_separators hrun hbody
  | @escape mark c body content hmark _ ih =>
      cases h with
      | kept _ htail =>
          cases htail with
          | kept _ hrest =>
              obtain ⟨body, content, after, rfl, hbody⟩ := ih hrest
              exact ⟨'\\' :: mark :: body, c :: content, after, rfl, .escape hmark hbody⟩
          | separator hne hrun _ =>
              obtain ⟨d, hd⟩ := List.exists_mem_of_ne_nil _ hne
              rw [lookup_delimiter (hrun d hd).first (hrun d hd).first_ne] at hmark
              cases hmark
      | separator hne hrun _ =>
          obtain ⟨d, hd⟩ := List.exists_mem_of_ne_nil _ hne
          exact absurd (hrun d hd).first (by decide)

theorem takeLiteral?_exchanged {rest other : List Char} (h : takeLiteral? rest = none)
    (hexchanged : Exchanged rest other) : takeLiteral? other = none := by
  apply Option.eq_none_iff_forall_ne_some.mpr
  rintro ⟨tail, after⟩ htail
  obtain ⟨body, content, rfl, hencodes⟩ := encodes_of_takeLiteral? htail
  obtain rfl := takeLiteral?_append htail
  rw [List.append_assoc] at hexchanged
  obtain ⟨body, content, after, rfl, hbody⟩ := exists_encodes_of_exchanged hencodes hexchanged
  rw [takeLiteral?_of_encodes hbody] at h
  cases h

theorem plain_fits {token : Token} (h : token.Genuine) : token.kind.rounded.Fits token.plain := by
  obtain ⟨kind, cs, offset⟩ := token
  cases kind with
  | blank => exact fits_space
  | opening bracket => rfl
  | closing bracket => rfl
  | _ => exact h

/-- A token ends where it did when separators after it are exchanged, and so does its plain form. -/
theorem endsBefore_exchanged {token : Token} {rest other : List Char}
    (h : token.kind.EndsBefore token.text rest) (hexchanged : Exchanged rest other) :
    token.kind.rounded.EndsBefore token.plain other := by
  have hletter (c d : Char) (hcd : Interchangeable c d) : isLetter c = isLetter d := by
    rw [(delimiter_classes hcd.first).1, (delimiter_classes hcd.second).1]
  have hdigit (c d : Char) (hcd : Interchangeable c d) : isDigit c = isDigit d := by
    rw [(delimiter_classes hcd.first).2.1, (delimiter_classes hcd.second).2.1]
  have hatom (c d : Char) (hcd : Interchangeable c d) : continuesAtom c = continuesAtom d := by
    rw [continuesAtom_of_isDelimiter hcd.first, continuesAtom_of_isDelimiter hcd.second]
  obtain ⟨kind, cs, offset⟩ := token
  cases kind with
  | blank => exact Breaks.exchanged h hexchanged fun c d hcd => hcd.blank
  | character => exact Breaks.exchanged h hexchanged hletter
  | decimal => exact Breaks.exchanged h hexchanged hdigit
  | integer =>
      exact ⟨h.1.exchanged hexchanged hdigit, h.2.exchanged hexchanged (by decide) hdigit⟩
  | atom =>
      refine ⟨h.1.exchanged hexchanged hatom, fun hmark => ?_⟩
      exact (h.2 hmark).exchanged hexchanged (by decide) hletter
  | stray => exact h.imp_right fun hopen => ⟨hopen.1, takeLiteral?_exchanged hopen.2 hexchanged⟩
  | _ => trivial

theorem lexFrom_plain (place offset : Nat) (source : List Char) :
    lexFrom place ((lexFrom offset source).flatMap plain) =
      plainFrom place (lexFrom offset source) := by
  fun_induction lexFrom offset source generalizing place with
  | case1 offset => rw [List.flatMap_nil, lexFrom, plainFrom]
  | case2 offset c cs next ih =>
      have hgenuine : ∀ token ∈ lexFrom (offset + next.text.length) next.rest, token.Genuine :=
        fun _ => genuine_of_mem_lexFrom
      have hexchanged := exchanged_plain hgenuine
      rw [flatMap_text_lexFrom] at hexchanged
      -- The text after the token is exchanged for plain text, which ends the token where it ended.
      rw [List.flatMap_cons, plainFrom, ← ih]
      exact lexFrom_eq_cons_iff.mpr ⟨_, rfl, rfl, plain_fits (lexeme_fits c cs),
        endsBefore_exchanged (endsBefore_lexeme c cs) hexchanged, rfl⟩

theorem kind_plainFrom (offset : Nat) (tokens : List Token) :
    (plainFrom offset tokens).map kind = tokens.map fun token => token.kind.rounded := by
  induction tokens generalizing offset with
  | nil => rfl
  | cons token tokens ih =>
      rw [plainFrom, List.map_cons, List.map_cons, ih]
      rfl

end Token

namespace Reader

def Frame.rounded : Frame → Frame
  | quoted => quoted
  | list _ items => list .round items

def Pending.rounded : Pending → Pending
  | expression stack => expression (stack.map Frame.rounded)
  | opened _ stack => opened .round (stack.map Frame.rounded)
  | afterItem _ items stack => afterItem .round items (stack.map Frame.rounded)

/-- How a step on a plain token goes, given how one on the token itself does: the same way, but with
round brackets, and with another reason and another place if it does not go on. -/
inductive Step.Rounds (offset place : Nat) : Step → Step → Prop
  | more (next : Pending) : Rounds offset place (.more next) (.more next.rounded)
  | done (value : Value) : Rounds offset place (.done value) (.done value)
  | refused (cause other : Misreading) : Rounds offset place (.refused cause) (.refused other)
  | misread (cause other : Misreading) :
      Rounds offset place (.failed (.misread cause offset)) (.failed (.misread other place))
  | tooDeep : Rounds offset place (.failed .tooDeep) (.failed .tooDeep)
  | defect (mistake : Defect) :
      Rounds offset place (.failed (.defect mistake)) (.failed (.defect mistake))

section
variable (strict : Bool) (levels place : Nat)

theorem complete_rounded (offset : Nat) (value : Value) (stack : List Frame) :
    (complete value stack).Rounds offset place (complete value (stack.map Frame.rounded)) := by
  induction stack generalizing value with
  | nil => exact .done value
  | cons frame stack ih =>
      cases frame with
      | quoted => exact ih value.quotation
      | list bracket items => exact .more (.afterItem bracket (value :: items) stack)

theorem begin_rounded (stack : List Frame) (token : Token) :
    (begin { strict := false, levels } stack token).Rounds token.offset place
      (begin { strict, levels } (stack.map Frame.rounded) (token.plainAt place)) := by
  have hcomplete (value : Value) := complete_rounded place token.offset value stack
  have hlength : (stack.map Frame.rounded).length = stack.length := List.length_map _
  obtain ⟨kind, cs, offset⟩ := token
  cases kind with
  | atom => exact hcomplete _
  | decimal => exact hcomplete _
  | text =>
      simp only [begin, Token.plainAt, Token.plain, TokenKind.rounded]
      split
      · exact hcomplete _
      · exact .defect _
  | character =>
      simp only [begin, Token.plainAt, Token.plain, TokenKind.rounded]
      split
      · exact hcomplete _
      · exact .misread _ _
  | integer =>
      have hplain : Token.plainAt place { kind := .integer, text := cs, offset } =
          { kind := .integer, text := cs, offset := place } := rfl
      rw [hplain]
      simp only [begin]
      split
      · exact hcomplete _
      · exact .misread _ _
  | quote =>
      simp only [begin, Token.plainAt, TokenKind.rounded, hlength]
      split
      · exact .more (.expression (.quoted :: stack))
      · exact .tooDeep
  | opening bracket =>
      simp only [begin, Token.plainAt, TokenKind.rounded, hlength]
      split
      · exact .more (.opened bracket stack)
      · exact .tooDeep
  | blank => exact .refused _ _
  | closing bracket => exact .refused _ _
  | stray => exact .refused _ _

theorem close_rounded (bracket closing : Bracket) (items : List Value) (stack : List Frame)
    (token other : Token) :
    (close { strict := false, levels } bracket closing items stack token).Rounds token.offset place
      (close { strict, levels } .round .round items (stack.map Frame.rounded) other) := by
  -- The bracket is not checked in one mode, and is the right one in the other.
  simp only [close, Bool.false_eq_true, false_and, ne_eq, not_true_eq_false, and_false, ↓reduceIte]
  exact complete_rounded place token.offset _ stack

theorem step_rounded (pending : Pending) (token : Token) :
    (step { strict := false, levels } pending token).Rounds token.offset place
      (step { strict, levels } pending.rounded (token.plainAt place)) := by
  cases pending with
  | expression stack => exact begin_rounded strict levels place stack token
  | opened bracket stack =>
      obtain ⟨kind, cs, offset⟩ := token
      cases kind with
      | closing closing => exact close_rounded strict levels place bracket closing [] stack _ _
      | _ => exact begin_rounded strict levels place (.list bracket [] :: stack) _
  | afterItem bracket items stack =>
      obtain ⟨kind, cs, offset⟩ := token
      cases kind with
      | closing closing => exact close_rounded strict levels place bracket closing items stack _ _
      | blank => exact .more (.expression (.list bracket items :: stack))
      | _ => exact .refused _ _

end

/-- How a reading of plain tokens ends, given how one of the tokens themselves does: with the same
value, or in a fault of the token with the same index. -/
inductive Relocated (endOffset endPlace : Nat) (tokens others : List Token) :
    Except Stop Value → Except Stop Value → Prop
  | ok (value : Value) : Relocated endOffset endPlace tokens others (.ok value) (.ok value)
  | misread (index : Nat) (cause other : Misreading) : index ≤ tokens.length →
      Relocated endOffset endPlace tokens others
        (.error (.misread cause (offsetAt endOffset tokens index)))
        (.error (.misread other (offsetAt endPlace others index)))
  | tooDeep : Relocated endOffset endPlace tokens others (.error .tooDeep) (.error .tooDeep)
  | defect (mistake : Defect) :
      Relocated endOffset endPlace tokens others (.error (.defect mistake))
        (.error (.defect mistake))

theorem Relocated.cons {endOffset endPlace : Nat} {tokens others : List Token}
    {outcome result : Except Stop Value}
    (h : Relocated endOffset endPlace tokens others outcome result) (token other : Token) :
    Relocated endOffset endPlace (token :: tokens) (other :: others) outcome result := by
  cases h with
  | ok value => exact .ok value
  | misread index cause reason hwithin =>
      exact .misread (index + 1) cause reason (Nat.succ_le_succ hwithin)
  | tooDeep => exact .tooDeep
  | defect mistake => exact .defect mistake

theorem Relocated.of_ok {endOffset endPlace : Nat} {tokens others : List Token} {value : Value}
    {result : Except Stop Value}
    (h : Relocated endOffset endPlace tokens others (.ok value) result) : result = .ok value := by
  cases h with
  | ok _ => rfl

theorem Relocated.of_misread {endOffset endPlace : Nat} {tokens others : List Token}
    {cause : Misreading} {offset : Nat} {result : Except Stop Value}
    (h : Relocated endOffset endPlace tokens others (.error (.misread cause offset)) result) :
    ∃ index other, index ≤ tokens.length ∧ offset = offsetAt endOffset tokens index ∧
      result = .error (.misread other (offsetAt endPlace others index)) := by
  cases h with
  | misread index _ other hwithin => exact ⟨index, other, hwithin, rfl, rfl⟩

theorem resume_rounded (strict : Bool) (levels endOffset endPlace place : Nat) (pending : Pending)
    (tokens : List Token) :
    Relocated endOffset endPlace tokens (Token.plainFrom place tokens)
      (resume { strict := false, levels } endOffset pending tokens).outcome
      (resume { strict, levels } endPlace pending.rounded
        (Token.plainFrom place tokens)).outcome := by
  induction tokens generalizing pending place with
  | nil => exact .misread 0 _ _ (Nat.le_refl 0)
  | cons token tokens ih =>
      have hstep := step_rounded strict levels place pending token
      simp only [Token.plainFrom, resume]
      -- The two runs stay in step, their open forms alike but for the brackets.
      generalize step { strict := false, levels } pending token = lax at hstep
      generalize step { strict, levels } pending.rounded (token.plainAt place) = other at hstep
      cases hstep with
      | more next => exact (ih _ next).cons _ _
      | done value => exact .ok value
      | refused cause other => exact .misread 0 _ _ (Nat.zero_le _)
      | misread cause other => exact .misread 0 _ _ (Nat.zero_le _)
      | tooDeep => exact .tooDeep
      | defect mistake => exact .defect mistake

theorem reading_relaid (strict : Bool) (levels : Nat) (source : List Char) :
    Relocated source.length (Token.relaid source).length (Token.lex source)
      (Token.lex (Token.relaid source)) (reading { strict := false, levels } source).outcome
      (reading { strict, levels } (Token.relaid source)).outcome := by
  have hlex : Token.lex (Token.relaid source) = Token.plainFrom 0 (Token.lex source) :=
    Token.lexFrom_plain 0 0 source
  rw [reading, reading, hlex]
  exact resume_rounded strict levels _ _ 0 (.expression []) (Token.lex source)

/-- Whether an outcome is a fault of a source at the token of an index, or at its end for the index
after the last token. -/
def FaultAt (source : List Char) (index : Nat) (outcome : Outcome Value) : Prop :=
  let place := Text.position source (startAt source index)
  index ≤ (Token.lex source).length ∧
    ∃ details, outcome = .fail (.unreadable details (some place.line) (some place.column))

section
variable {options : Options} {source : List Char} {index : Nat} {outcome : Outcome Value}

theorem FaultAt.unique {other : Nat} (h : FaultAt source index outcome)
    (hother : FaultAt source other outcome) : index = other := by
  -- No two tokens stand at the same place, so a fault is at one of them.
  obtain ⟨hwithin, details, houtcome⟩ := h
  obtain ⟨hwithin', details', houtcome'⟩ := hother
  have hfailure := Fault.failure.inj (Except.error.inj (houtcome.symm.trans houtcome'))
  simp only [Failure.unreadable.injEq, Option.some.injEq, Int.natCast_inj] at hfailure
  obtain ⟨-, hline, hcolumn⟩ := hfailure
  apply startAt_injective hwithin hwithin'
  apply Text.position_injective (startAt_le source index) (startAt_le source other)
  rw [Text.Position.mk.injEq]
  exact ⟨hline, hcolumn⟩

theorem faultAt_of_misread {cause : Misreading} (hwithin : index ≤ (Token.lex source).length)
    (h : (reading options source).outcome = .error (.misread cause (startAt source index))) :
    FaultAt source index (read options source) :=
  ⟨hwithin, _, read_of_error h⟩

end

theorem kind_relaid (source : List Char) :
    (Token.lex (Token.relaid source)).map Token.kind =
      (Token.lex source).map fun token => token.kind.rounded := by
  rw [Token.relaid, Token.lex, Token.lex, Token.lexFrom_plain, Token.kind_plainFrom]

section
variable {levels : Nat} {source : List Char}

theorem exists_faultAt {details : String} {line column : Option Int}
    (h : read { strict := false, levels } source = .fail (.unreadable details line column)) :
    ∃ index, FaultAt source index (read { strict := false, levels } source) := by
  obtain ⟨cause, offset, houtcome⟩ := misread_of_unreadable h
  have hrelocated := reading_relaid false levels source
  rw [houtcome] at hrelocated
  obtain ⟨index, -, hwithin, rfl, -⟩ := hrelocated.of_misread
  exact ⟨index, faultAt_of_misread hwithin houtcome⟩

theorem faultAt_relaid {index : Nat} (strict : Bool)
    (h : FaultAt source index (read { strict := false, levels } source)) :
    FaultAt (Token.relaid source) index (read { strict, levels } (Token.relaid source)) := by
  obtain ⟨-, details, hread⟩ := id h
  obtain ⟨cause, offset, houtcome⟩ := misread_of_unreadable hread
  have hrelocated := reading_relaid strict levels source
  rw [houtcome] at hrelocated
  obtain ⟨other, _, hwithin, rfl, hresult⟩ := hrelocated.of_misread
  obtain rfl := h.unique (faultAt_of_misread hwithin houtcome)
  have hlength := congrArg List.length (kind_relaid source)
  rw [List.length_map, List.length_map] at hlength
  exact faultAt_of_misread (hlength ▸ hwithin) hresult

theorem read_relaid {value : Value} (strict : Bool)
    (h : read { strict := false, levels } source = .ok value) :
    read { strict, levels } (Token.relaid source) = .ok value := by
  have hrelocated := reading_relaid strict levels source
  rw [read_ok_iff.mp h] at hrelocated
  exact read_of_ok hrelocated.of_ok

end

/-- Neither blanks nor the kinds of brackets matter when brackets need not match: in plain layout a
source has tokens of the same kinds, reads as the same value in either mode, and does not read
because of the same token. -/
theorem layout_irrelevant (levels : Nat) (source : List Char) :
    let lax : Options := { strict := false, levels }
    let plain := Token.relaid source
    (Token.lex plain).map Token.kind =
      (Token.lex source).map (fun token => token.kind.rounded) ∧
    (∀ value, read lax source = .ok value → ∀ strict, read { strict, levels } plain = .ok value) ∧
    (∀ details line column, read lax source = .fail (.unreadable details line column) →
      ∃ index, FaultAt source index (read lax source)) ∧
    ∀ index, FaultAt source index (read lax source) →
      ∀ strict, FaultAt plain index (read { strict, levels } plain) := by
  refine ⟨kind_relaid source, ?_, ?_, ?_⟩
  · intro value h strict
    exact read_relaid strict h
  · intro details line column h
    exact exists_faultAt h
  · intro index h strict
    exact faultAt_relaid strict h

theorem layout_irrelevant_brackets :
    (∀ strict, read { strict, levels := 2 } "(1 'x)".toList =
      .ok (.list [.integer 1, (Value.symbol "x").quotation])) ∧
    FaultAt "\x7b1\n \"]".toList 3 (read { strict := false, levels := 2 } "\x7b1\n \"]".toList) ∧
    ∀ strict, FaultAt "(1 \")".toList 3 (read { strict, levels := 2 } "(1 \")".toList) := by
  have hlist : Token.lex "[1\t\t'x)".toList =
      [{ kind := .opening .square, text := ['['], offset := 0 },
        { kind := .integer, text := ['1'], offset := 1 },
        { kind := .blank, text := ['\t', '\t'], offset := 2 },
        { kind := .quote, text := ['\''], offset := 4 },
        { kind := .atom, text := ['x'], offset := 5 },
        { kind := .closing .round, text := [')'], offset := 6 }] := by
    decide +kernel
  have hunclosed : Token.lex "\x7b1\n \"]".toList =
      [{ kind := .opening .curly, text := ['\x7b'], offset := 0 },
        { kind := .integer, text := ['1'], offset := 1 },
        { kind := .blank, text := ['\n', ' '], offset := 2 },
        { kind := .stray, text := ['"'], offset := 4 },
        { kind := .closing .square, text := [']'], offset := 5 }] := by
    decide +kernel
  have hplain : Token.relaid "[1\t\t'x)".toList = "(1 'x)".toList := by
    rw [Token.relaid, hlist]
    rfl
  have hopen : Token.relaid "\x7b1\n \"]".toList = "(1 \")".toList := by
    rw [Token.relaid, hunclosed]
    rfl
  have hread : read { strict := false, levels := 2 } "[1\t\t'x)".toList =
      .ok (.list [.integer 1, (Value.symbol "x").quotation]) := by
    rw [read_eq, reading, hlist]
    rfl
  have hfault : FaultAt "\x7b1\n \"]".toList 3
      (read { strict := false, levels := 2 } "\x7b1\n \"]".toList) := by
    have houtcome : (reading { strict := false, levels := 2 } "\x7b1\n \"]".toList).outcome =
        .error (.misread (.unexpected .malformedText .expression)
          (startAt "\x7b1\n \"]".toList 3)) := by
      rw [reading, startAt, hunclosed]
      rfl
    refine faultAt_of_misread ?_ houtcome
    rw [hunclosed]
    decide
  have hvalue := (layout_irrelevant 2 "[1\t\t'x)".toList).2.1 _ hread
  have hindex := (layout_irrelevant 2 "\x7b1\n \"]".toList).2.2.2 3 hfault
  rw [hplain] at hvalue
  rw [hopen] at hindex
  exact ⟨hvalue, hfault, hindex⟩

end Reader

end SmallLisp
