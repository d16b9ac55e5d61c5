import SmallLisp.Proofs.Acceptance
import SmallLisp.Proofs.Spelling

namespace SmallLisp

open Token (lexFrom Delimited)
open Reader (Derives Further Leaf)

/-- Whether a text starts with something that is no blank. -/
def Visible (cs : List Char) : Prop :=
  ∃ c tail, cs = c :: tail ∧ Text.isBlank c = false

namespace Value

/-- A leaf of a kind that the reader makes. -/
def FromSource : Value → Prop
  | integer number => 0 ≤ number ∧ WithinDigits number
  | symbol name => TokenKind.atom.Fits name.toList ∧ name ≠ "#t" ∧ name ≠ "#f"
  | character char => Text.isLetter char ∨ CharacterName.IsNamed char
  | absent => False
  | _ => True

/-- A leaf that holds nothing a literal would have to escape. -/
def Unescaped : Value → Prop
  | text content => '"' ∉ content.toList ∧ '\\' ∉ content.toList
  | _ => True

/-- A value that its text reads back as. -/
def Readable (value : Value) : Prop :=
  value.EveryLeaf fun leaf => leaf.FromSource ∧ leaf.Unescaped

@[simp] theorem readable_boolean {truth : Bool} : (boolean truth).Readable := by
  simp only [Readable, EveryLeaf]
  exact ⟨trivial, trivial⟩

@[simp] theorem readable_integer {number : Int} :
    (integer number).Readable ↔ 0 ≤ number ∧ WithinDigits number := by
  simp only [Readable, EveryLeaf]
  exact and_iff_left trivial

@[simp] theorem readable_text {content : String} :
    (text content).Readable ↔ '"' ∉ content.toList ∧ '\\' ∉ content.toList := by
  simp only [Readable, EveryLeaf]
  exact and_iff_right trivial

@[simp] theorem readable_symbol {name : String} :
    (symbol name).Readable ↔
      TokenKind.atom.Fits name.toList ∧ name ≠ "#t" ∧ name ≠ "#f" := by
  simp only [Readable, EveryLeaf]
  exact and_iff_left trivial

@[simp] theorem readable_character {char : Char} :
    (character char).Readable ↔ Text.isLetter char ∨ CharacterName.IsNamed char := by
  simp only [Readable, EveryLeaf]
  exact and_iff_left trivial

@[simp] theorem readable_list {items : List Value} :
    (list items).Readable ↔ ∀ item ∈ items, item.Readable := by
  simp [Readable]

theorem Readable.fromSource {value : Value} (h : value.Readable) : value.FromSource := by
  cases value with
  | list items => trivial
  | _ =>
      simp only [Readable, EveryLeaf] at h
      exact h.1

/-- A leaf that is no decimal number. -/
def Exact (leaf : Value) : Prop :=
  ∀ number, leaf ≠ decimal number

theorem fromSource_of_leaf {token : Token} {value : Value} (h : Leaf token value)
    (hgenuine : token.Genuine) : value.FromSource := by
  cases h with
  | symbol hkind htrue hfalse =>
      rw [Token.Genuine, hkind] at hgenuine
      refine ⟨by simpa using hgenuine, ?_, ?_⟩
      · rintro heq
        exact htrue (by simpa using congrArg String.toList heq)
      · rintro heq
        exact hfalse (by simpa using congrArg String.toList heq)
  | letter _ _ hletter => exact .inl hletter
  | named _ _ hname => exact .inr (CharacterName.named_of_char? hname)
  | integer hkind hlength =>
      rw [Token.Genuine, hkind] at hgenuine
      exact ⟨Int.natCast_nonneg _, withinDigits_decimalValue hgenuine.2 hlength⟩
  | _ => trivial

theorem fromSource_of_derives {strict : Bool} {offset : Nat} {source : List Char}
    {tokens : List Token} {value : Value} (h : Derives strict tokens value)
    (htokens : ∀ token ∈ tokens, token ∈ lexFrom offset source) : value.FromSource := by
  cases h with
  | @leaf token _ hleaf =>
      exact fromSource_of_leaf hleaf (Token.genuine_of_mem_lexFrom (htokens token (by simp)))
  | _ => trivial

theorem fromSource_of_lexFrom {strict : Bool} {offset : Nat} {source : List Char}
    {tokens after : List Token} {value : Value} (hlex : lexFrom offset source = tokens ++ after)
    (h : Derives strict tokens value) : value.FromSource :=
  fromSource_of_derives h fun _ htoken => hlex ▸ List.mem_append_left after htoken

theorem visible_chars {value : Value} {levels : Nat} {cs : List Char} (hsource : value.FromSource)
    (hexact : value.EveryLeaf Exact) (hchars : value.chars levels = .ok cs) : Visible cs := by
  cases value with
  | boolean truth =>
      rw [chars_boolean, Except.ok.injEq] at hchars
      exact ⟨_, _, hchars.symm, by decide⟩
  | integer number =>
      obtain ⟨hnonneg, hwithin⟩ := hsource
      obtain ⟨n, rfl⟩ := Int.eq_ofNat_of_zero_le hnonneg
      rw [chars_integer, integerText_of_within hwithin, Except.ok.injEq] at hchars
      obtain ⟨hne, hdigits⟩ := Text.fits_toDigits n
      obtain ⟨c, tail, htail⟩ := List.exists_cons_of_ne_nil hne
      refine ⟨c, tail, ?_, ?_⟩
      · rw [← hchars, ← htail]
        exact Nat.toList_repr
      · exact (Token.not_delimiter_parts (Token.isDelimiter_of_continuesAtom
          (Token.continuesAtom_of_isDigit (hdigits c (by simp [htail]))))).1
  | decimal number =>
      simp only [EveryLeaf] at hexact
      exact absurd rfl (hexact number)
  | text content =>
      rw [chars_text, Except.ok.injEq] at hchars
      exact ⟨_, _, hchars.symm, by decide⟩
  | symbol name =>
      rw [chars_symbol, Except.ok.injEq] at hchars
      obtain ⟨⟨c, tail, hname, hc, -⟩, -⟩ := hsource
      refine ⟨c, tail, by rw [← hchars, hname], ?_⟩
      exact (Token.not_delimiter_parts (Token.isDelimiter_of_continuesAtom
        (Token.continuesAtom_of_startsAtom hc))).1
  | character char =>
      rw [chars_character, Except.ok.injEq] at hchars
      exact ⟨_, _, hchars.symm, by decide⟩
  | list items =>
      obtain ⟨_, _, _, _, rfl⟩ := chars_list_ok_iff.mp hchars
      exact ⟨_, _, rfl, by decide⟩
  | absent => exact hsource.elim

end Value

/-- Whether a text is cut into tokens of a value, whatever delimited text comes after it. -/
structure Spelled (strict : Bool) (value : Value) (cs : List Char) : Prop where
  visible : Visible cs
  tokens : ∀ offset rest, Delimited rest → ∃ tokens later,
    lexFrom offset (cs ++ rest) = tokens ++ lexFrom later rest ∧ Derives strict tokens value

section
variable {strict : Bool} {offset : Nat} {cs rest : List Char}

/-- Only one cut of a text gives the value it spells, so what comes after it is left. -/
theorem Spelled.after_eq {value : Value} {tokens after : List Token}
    (h : Spelled strict value cs) (hrest : Delimited rest)
    (hlex : lexFrom offset (cs ++ rest) = tokens ++ after)
    (hderives : Derives strict tokens value) :
    ∃ later, after = lexFrom later rest := by
  obtain ⟨others, later, hothers, hvalue⟩ := h.tokens offset rest hrest
  have hsame := Derives.unique (fun _ => Token.genuine_of_mem_lexFrom)
    ⟨after, hlex.symm⟩ ⟨_, hothers.symm⟩ hderives hvalue
  obtain ⟨rfl, -⟩ := hsame
  exact ⟨later, List.append_cancel_left (hlex.symm.trans hothers)⟩

theorem intercalate_cons (part : List Char) (parts : List (List Char)) :
    [' '].intercalate (part :: parts) = part ++ parts.flatMap (' ' :: ·) := by
  induction parts generalizing part with
  | nil => simp [List.intercalate]
  | cons other parts ih => 
      rw [List.intercalate_cons_cons, ih]
      simp

theorem delimited_following (parts : List (List Char)) (hrest : Delimited rest) :
    Delimited (parts.flatMap (' ' :: ·) ++ rest) := by
  cases parts with
  | nil => exact hrest
  | cons part parts => exact (by decide : Token.isDelimiter ' ' = true)

theorem lexFrom_space (h : Visible cs) :
    lexFrom offset (' ' :: (cs ++ rest)) =
      { kind := .blank, text := [' '], offset } :: lexFrom (offset + 1) (cs ++ rest) := by
  obtain ⟨c, tail, rfl, hc⟩ := h
  exact Token.lexFrom_blank Token.fits_space (Token.breaks_cons.mpr hc)

theorem lexFrom_following {parts : List (List Char)} {items : List Value}
    (hparts : List.Forall₂ (Spelled strict) items parts) (hrest : Delimited rest) (offset : Nat) :
    ∃ tokens later,
      lexFrom offset (parts.flatMap (' ' :: ·) ++ rest) = tokens ++ lexFrom later rest ∧
        Further (Derives strict) tokens items := by
  induction hparts generalizing offset with
  | nil => exact ⟨[], offset, rfl, .none⟩
  | @cons item part items parts hpart _ ih =>
      obtain ⟨tokens, between, hlex, hitem⟩ :=
        hpart.tokens (offset + 1) _ (delimited_following parts hrest)
      obtain ⟨more, later, hmore, hitems⟩ := ih between
      let blank : Token := { kind := .blank, text := [' '], offset }
      have hblank : blank.kind = .blank := rfl
      refine ⟨_, later, ?_, .next hblank hitem hitems⟩
      rw [List.flatMap_cons, List.cons_append, List.cons_append, List.append_assoc,
        lexFrom_space hpart.visible, hlex, hmore, List.cons_append, List.append_assoc]

theorem delimited_closing (rest : List Char) : Delimited (')' :: rest) :=
  (by decide : Token.isDelimiter ')' = true)

theorem lexFrom_list (parts : List (List Char)) :
    lexFrom offset ('(' :: ([' '].intercalate parts ++ [')']) ++ rest) =
      { kind := .opening .round, text := ['('], offset } ::
        lexFrom (offset + 1) ([' '].intercalate parts ++ ')' :: rest) := by
  have hopening : '(' = Bracket.round.opening := rfl
  rw [hopening, List.cons_append, Token.lexFrom_opening, List.append_assoc, List.singleton_append]

theorem spelled_list {parts : List (List Char)} {items : List Value}
    (hparts : List.Forall₂ (Spelled strict) items parts) :
    Spelled strict (.list items) ('(' :: ([' '].intercalate parts ++ [')'])) := by
  refine ⟨⟨_, _, rfl, by decide⟩, fun offset rest hrest => ?_⟩
  have hclosing (offset : Nat) : lexFrom offset (')' :: rest) =
      { kind := .closing .round, text := [')'], offset } :: lexFrom (offset + 1) rest :=
    Token.lexFrom_closing .round
  let opener : Token := { kind := .opening .round, text := ['('], offset }
  have hopener : opener.kind = .opening .round := rfl
  rw [lexFrom_list]
  cases hparts with
  | nil =>
      let closer : Token := { kind := .closing .round, text := [')'], offset := offset + 1 }
      have hcloser : closer.kind = .closing .round := rfl
      refine ⟨_, offset + 2, ?_, .empty hopener hcloser fun _ => rfl⟩
      exact congrArg (opener :: ·) (hclosing (offset + 1))
  | @cons item part items parts hpart hparts =>
      obtain ⟨tokens, between, hlex, hitem⟩ :=
        hpart.tokens (offset + 1) _ (delimited_following parts (delimited_closing rest))
      obtain ⟨more, last, hmore, hitems⟩ :=
        lexFrom_following hparts (delimited_closing rest) between
      let closer : Token := { kind := .closing .round, text := [')'], offset := last }
      have hcloser : closer.kind = .closing .round := rfl
      refine ⟨_, last + 1, ?_, .list hopener hitem hitems hcloser fun _ => rfl⟩
      rw [intercalate_cons, List.append_assoc, hlex, hmore, hclosing]
      simp [opener, closer]

end

theorem spelled_of_leaf {strict : Bool} (kind : TokenKind) {cs : List Char} {value : Value}
    (hvisible : Visible cs) (hfits : kind.Fits cs) (hblank : kind ≠ .blank) (hstray : kind ≠ .stray)
    (hleaf : ∀ offset, Leaf { kind, text := cs, offset } value) : Spelled strict value cs := by
  refine ⟨hvisible, fun offset rest hrest => ?_⟩
  have hends := Token.endsBefore_of_delimited hblank hstray hrest cs
  exact ⟨[_], _, Token.lexFrom_of_endsBefore hfits hends, .leaf (hleaf offset)⟩

namespace Value

theorem fits_mark {c : Char} (h : Token.continuesAtom c) : TokenKind.atom.Fits ['#', c] :=
  ⟨'#', [c], rfl, by decide, List.forall_mem_singleton.mpr h⟩

theorem spelled_of_readable {strict : Bool} {value : Value} {levels : Nat} {cs : List Char}
    (hreadable : value.Readable) (hexact : value.EveryLeaf Exact)
    (hchars : value.chars levels = .ok cs) : Spelled strict value cs := by
  induction value generalizing levels cs with
  | boolean truth =>
      have hvisible := visible_chars hreadable.fromSource hexact hchars
      rw [chars_boolean, Except.ok.injEq] at hchars
      subst hchars
      cases truth with
      | false =>
          have hfits : TokenKind.atom.Fits ['#', 'f'] := fits_mark (by decide)
          exact spelled_of_leaf .atom hvisible hfits nofun nofun fun _ => .falsity rfl rfl
      | true =>
          have hfits : TokenKind.atom.Fits ['#', 't'] := fits_mark (by decide)
          exact spelled_of_leaf .atom hvisible hfits nofun nofun fun _ => .truth rfl rfl
  | integer number =>
      have hvisible := visible_chars hreadable.fromSource hexact hchars
      obtain ⟨hnonneg, hwithin⟩ := readable_integer.mp hreadable
      obtain ⟨n, rfl⟩ := Int.eq_ofNat_of_zero_le hnonneg
      rw [chars_integer, integerText_of_within hwithin, Except.ok.injEq] at hchars
      have htext : Nat.toDigits 10 n = cs := Nat.toList_repr.symm.trans hchars
      subst htext
      refine spelled_of_leaf .integer hvisible (Text.fits_toDigits n) nofun nofun ?_
      intro offset
      have hleaf : Leaf { kind := .integer, text := Nat.toDigits 10 n, offset }
          (.integer (Text.decimalValue (Nat.toDigits 10 n))) :=
        .integer rfl (length_toDigits_of_within hwithin)
      rwa [Text.decimalValue_toDigits] at hleaf
  | decimal number =>
      simp only [EveryLeaf] at hexact
      exact absurd rfl (hexact number)
  | text content =>
      have hvisible := visible_chars hreadable.fromSource hexact hchars
      obtain ⟨hquote, hescape⟩ := readable_text.mp hreadable
      have hencodes := Escape.encodes_self hquote hescape
      rw [chars_text, Except.ok.injEq] at hchars
      subst hchars
      have hfits : TokenKind.text.Fits ('"' :: content.toList ++ ['"']) := ⟨_, _, rfl, hencodes⟩
      refine spelled_of_leaf .text hvisible hfits nofun nofun ?_
      intro offset
      have hleaf : Leaf { kind := .text, text := '"' :: content.toList ++ ['"'], offset }
          (.text (String.ofList content.toList)) := .text rfl rfl hencodes.decode_eq
      rwa [String.ofList_toList] at hleaf
  | symbol name =>
      have hvisible := visible_chars hreadable.fromSource hexact hchars
      obtain ⟨hfits, htrue, hfalse⟩ := readable_symbol.mp hreadable
      rw [chars_symbol, Except.ok.injEq] at hchars
      subst hchars
      refine spelled_of_leaf .atom hvisible hfits nofun nofun ?_
      intro offset
      have hleaf : Leaf { kind := .atom, text := name.toList, offset }
          (.symbol (String.ofList name.toList)) :=
        .symbol rfl (fun heq => htrue (String.toList_inj.mp heq))
          fun heq => hfalse (String.toList_inj.mp heq)
      rwa [String.ofList_toList] at hleaf
  | character char =>
      have hvisible := visible_chars hreadable.fromSource hexact hchars
      rw [chars_character, Except.ok.injEq] at hchars
      subst hchars
      rcases readable_character.mp hreadable with hletter | hnamed
      · rw [CharacterName.spelling_of_letter hletter] at hvisible ⊢
        have hfits : TokenKind.character.Fits ['#', '\\', char] :=
          ⟨[char], rfl, nofun, List.forall_mem_singleton.mpr hletter⟩
        exact spelled_of_leaf .character hvisible hfits nofun nofun
          fun _ => .letter rfl rfl hletter
      · obtain ⟨hletters, hne, hchar⟩ := CharacterName.spelling_of_named hnamed
        have hfits : TokenKind.character.Fits ('#' :: '\\' :: CharacterName.spelling char) :=
          ⟨_, rfl, hne, hletters⟩
        exact spelled_of_leaf .character hvisible hfits nofun nofun
          fun _ => .named rfl rfl hchar
  | list items ih =>
      rw [readable_list] at hreadable
      simp only [EveryLeaf] at hexact
      obtain ⟨below, parts, -, hparts, rfl⟩ := chars_list_ok_iff.mp hchars
      have hitems : ∀ item ∈ items, ∀ part, item.chars below = .ok part →
          Spelled strict item part := fun item hitem part =>
        ih item hitem (hreadable item hitem) (hexact item hitem)
      have hspelled := (List.forall₂_and_left items parts).mpr ⟨hitems, hparts⟩
      exact spelled_list (hspelled.imp fun item part h => h.1 part h.2)
  | absent => exact hreadable.fromSource.elim

/-- Whether a value is readable as soon as its text is cut into tokens of it. -/
def ReadsBack (strict : Bool) (levels : Nat) (value : Value) : Prop :=
  ∀ cs offset rest tokens after, value.chars levels = .ok cs → Delimited rest →
    lexFrom offset (cs ++ rest) = tokens ++ after → Derives strict tokens value → value.Readable

section
variable {strict : Bool} {levels offset : Nat} {rest : List Char} {tokens after : List Token}

theorem ReadsBack.item {item : Value} {part : List Char} (h : ReadsBack strict levels item)
    (hexact : item.EveryLeaf Exact) (hpart : item.chars levels = .ok part)
    (hrest : Delimited rest) (hlex : lexFrom offset (part ++ rest) = tokens ++ after)
    (hderives : Derives strict tokens item) :
    item.Readable ∧ ∃ later, after = lexFrom later rest := by
  have hreadable := h part offset rest tokens after hpart hrest hlex hderives
  exact ⟨hreadable, (spelled_of_readable hreadable hexact hpart).after_eq hrest hlex hderives⟩

theorem readable_of_further {items : List Value} {parts : List (List Char)}
    (hparts : List.Forall₂ (fun item part => item.chars levels = .ok part) items parts)
    (hexact : ∀ item ∈ items, item.EveryLeaf Exact)
    (hback : ∀ item ∈ items, ReadsBack strict levels item) (hrest : Delimited rest)
    (hlex : lexFrom offset (parts.flatMap (' ' :: ·) ++ rest) = tokens ++ after)
    (hfurther : Further (Derives strict) tokens items) : ∀ item ∈ items, item.Readable := by
  induction hparts generalizing offset tokens with
  | nil => simp
  | @cons item part items parts hpart _ ih =>
      cases hfurther with
      | @next blank taken more _ _ _ hitem hitems =>
          rw [List.forall_mem_cons] at hexact hback
          have htaken : ∀ token ∈ taken, token ∈ lexFrom offset _ := fun token htoken => by
            rw [hlex]
            simp [htoken]
          have hsource := fromSource_of_derives hitem htaken
          have hvisible := visible_chars hsource hexact.1 hpart
          rw [List.flatMap_cons, List.cons_append, List.cons_append, List.append_assoc,
            lexFrom_space hvisible, List.cons_append, List.append_assoc] at hlex
          obtain ⟨-, hlex⟩ := List.cons.inj hlex
          obtain ⟨hreadable, later, hafter⟩ := hback.1.item hexact.1 hpart
            (delimited_following parts hrest) hlex hitem
          have hothers := ih hexact.2 hback.2 hafter.symm hitems
          exact List.forall_mem_cons.mpr ⟨hreadable, hothers⟩

theorem readable_of_derives_list {items : List Value} {parts : List (List Char)}
    (hparts : List.Forall₂ (fun item part => item.chars levels = .ok part) items parts)
    (hexact : ∀ item ∈ items, item.EveryLeaf Exact)
    (hback : ∀ item ∈ items, ReadsBack strict levels item)
    (hlex : lexFrom offset ('(' :: ([' '].intercalate parts ++ [')']) ++ rest) = tokens ++ after)
    (hderives : Derives strict tokens (.list items)) : ∀ item ∈ items, item.Readable := by
  rw [lexFrom_list] at hlex
  generalize hvalue : list items = value at hderives
  cases hderives with
  | leaf hleaf =>
      subst hvalue
      cases hleaf
  | quotation hmark _ =>
      obtain ⟨rfl, -⟩ := List.cons.inj hlex
      simp at hmark
  | empty _ _ _ =>
      obtain rfl := Value.list.inj hvalue
      simp
  | @list opener closer _ _ taken more first others _ hfirst hfurther _ _ =>
      obtain rfl := Value.list.inj hvalue
      cases hparts with
      | @cons _ part _ parts hpart hparts =>
          rw [List.forall_mem_cons] at hexact hback
          rw [intercalate_cons, List.append_assoc, List.cons_append, List.append_assoc,
            List.append_assoc] at hlex
          obtain ⟨-, hlex⟩ := List.cons.inj hlex
          have hfollowing := delimited_following parts (delimited_closing rest)
          obtain ⟨hreadable, later, hafter⟩ :=
            hback.1.item hexact.1 hpart hfollowing hlex hfirst
          have hothers := readable_of_further hparts hexact.2 hback.2 (delimited_closing rest)
            hafter.symm hfurther
          exact List.forall_mem_cons.mpr ⟨hreadable, hothers⟩

end

theorem readable_of_derives_text {strict : Bool} {content : String} {offset : Nat}
    {rest : List Char} {tokens after : List Token}
    (hlex : lexFrom offset ('"' :: content.toList ++ ['"'] ++ rest) = tokens ++ after)
    (hderives : Derives strict tokens (.text content)) : (text content).Readable := by
  cases hderives with
  | @leaf token _ hleaf =>
      cases hleaf with
      | @text body content hkind htext hdecode =>
          have hgenuine : token.Genuine := Token.genuine_of_mem_lexFrom (by rw [hlex]; simp)
          rw [Token.Genuine, hkind, htext] at hgenuine
          obtain ⟨inside, meaning, hinside, hencodes⟩ := hgenuine
          obtain rfl : body = inside := by simpa using hinside
          obtain rfl : meaning = content := Except.ok.inj (hencodes.decode_eq.symm.trans hdecode)
          obtain ⟨tail, htail, -⟩ := Token.lexFrom_eq_cons_iff.mp hlex
          simp only [htext, String.toList_ofList, List.cons_append, List.append_assoc,
            List.cons.injEq, true_and] at htail
          rw [readable_text, String.toList_ofList]
          exact hencodes.plain_of_eq htail.symm

theorem readsBack {strict : Bool} {value : Value} (hexact : value.EveryLeaf Exact) (levels : Nat) :
    ReadsBack strict levels value := by
  induction value generalizing levels with
  | text content =>
      intro cs offset rest tokens after hchars _ hlex hderives
      rw [chars_text, Except.ok.injEq] at hchars
      subst hchars
      exact readable_of_derives_text hlex hderives
  | list items ih =>
      intro cs offset rest tokens after hchars _ hlex hderives
      simp only [EveryLeaf] at hexact
      obtain ⟨below, parts, -, hparts, rfl⟩ := chars_list_ok_iff.mp hchars
      rw [readable_list]
      exact readable_of_derives_list hparts hexact
        (fun item hitem => ih item hitem (hexact item hitem) below) hlex hderives
  | boolean truth =>
      intro cs offset rest tokens after _ _ _ _
      exact readable_boolean
  | decimal number =>
      simp only [EveryLeaf] at hexact
      exact absurd rfl (hexact number)
  | integer number =>
      intro cs offset rest tokens after _ _ hlex hderives
      exact readable_integer.mpr (fromSource_of_lexFrom hlex hderives)
  | symbol name =>
      intro cs offset rest tokens after _ _ hlex hderives
      exact readable_symbol.mpr (fromSource_of_lexFrom hlex hderives)
  | character char =>
      intro cs offset rest tokens after _ _ hlex hderives
      exact readable_character.mpr (fromSource_of_lexFrom hlex hderives)
  | absent =>
      intro cs offset rest tokens after _ _ hlex hderives
      exact (fromSource_of_lexFrom hlex hderives).elim

end Value

/-- A value reads back from its text exactly when it is readable. -/
theorem read_render_iff (value : Value) (levels : Nat) (hwhole : value.WellFormed)
    (hexact : value.EveryLeaf Value.Exact) (hshort : value.EveryLeaf Value.Short)
    (hdepth : value.depth ≤ levels) :
    ∃ source, value.render levels = .ok source ∧ ∀ strict,
      Reader.read { strict, levels } source.toList = .ok value ↔ value.Readable := by
  obtain ⟨cs, hchars⟩ := Value.exists_chars hwhole hshort hdepth
  refine ⟨String.ofList cs, by rw [Value.render, hchars]; rfl, fun strict => ?_⟩
  rw [String.toList_ofList]
  have hsource : Token.lex cs = lexFrom 0 (cs ++ []) := by
    rw [List.append_nil, Token.lex]
  constructor
  · intro hread
    obtain ⟨tokens, ⟨after, hlex⟩, hderives⟩ := Reader.derives_of_read hread
    exact Value.readsBack hexact levels cs 0 [] tokens after hchars trivial
      (hsource.symm.trans hlex.symm) hderives
  · intro hreadable
    obtain ⟨tokens, later, hlex, hderives⟩ :=
      (Value.spelled_of_readable hreadable hexact hchars).tokens 0 [] trivial
    have hprefix : tokens <+: Token.lex cs := ⟨_, (hsource.trans hlex).symm⟩
    rcases Reader.read_of_derives { strict, levels } hprefix hderives with
      ⟨hread, -⟩ | ⟨-, hdeep⟩
    · exact hread
    · exact absurd hdepth (Nat.not_le.mpr hdeep)

theorem not_read_render_escape :
    ∃ source, (Value.list [.symbol "+", .text "\\n", .integer 7]).render 100 = .ok source ∧
      ∀ strict, Reader.read { strict, levels := 100 } source.toList ≠
        .ok (.list [.symbol "+", .text "\\n", .integer 7]) := by
  have hseven : WithinDigits 7 :=
    (withinDigits_decimalValue (List.forall_mem_singleton.mpr (by decide)) (by decide) :
      WithinDigits (Text.decimalValue ['7']))
  obtain ⟨source, hrender, hread⟩ := read_render_iff (.list [.symbol "+", .text "\\n", .integer 7])
    100 (by simp [Value.WellFormed]) (by simp [Value.Exact]) (by simp [Value.Short, hseven])
    (by simp [Value.greatestDepth])
  exact ⟨source, hrender, fun strict h => by simpa using (hread strict).mp h⟩

end SmallLisp
