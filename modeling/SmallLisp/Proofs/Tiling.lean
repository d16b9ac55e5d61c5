import Mathlib.Data.List.Chain
import SmallLisp.Proofs.Cursor
import SmallLisp.Proofs.Trailing

namespace SmallLisp

open Text Token

namespace TokenKind

/-- Whether a text starts with a token of a kind, whatever other kinds it starts with. -/
def Starts (kind : TokenKind) (source : List Char) : Prop :=
  ∃ cs, kind.Fits cs ∧ cs <+: source

/-- Whether a text is the longest of a kind that another text starts with. -/
structure Longest (kind : TokenKind) (cs source : List Char) : Prop where
  fits : kind.Fits cs
  prefixed : cs <+: source
  length_le : ∀ other, kind.Fits other → other <+: source → other.length ≤ cs.length

/-- The place of a kind among those that are tried one after another. -/
def rank : TokenKind → Nat
  | blank => 0
  | opening _ => 1
  | closing _ => 2
  | quote => 3
  | text => 4
  | character => 5
  | decimal => 6
  | integer => 7
  | atom => 8
  | stray => 9

/-- Whether a token of one kind would go on through a token of another one after it. -/
def RunsInto : TokenKind → TokenKind → Prop
  | blank, blank | integer, integer | integer, decimal => True
  | atom, atom | atom, integer | atom, decimal => True
  | _, _ => False

theorem rank_le (kind : TokenKind) : kind.rank ≤ stray.rank := by
  cases kind <;> simp [rank]

theorem eq_stray_of_rank_le {kind : TokenKind} (h : stray.rank ≤ kind.rank) : kind = stray := by
  cases kind <;> simp_all [rank]

section
variable {kind : TokenKind} {c : Char} {cs more rest : List Char}

theorem countP_decimal (h : decimal.Fits cs) : cs.countP (fun c => !isDigit c) = 1 := by
  obtain ⟨whole, fraction, rfl, -, -, hdigits⟩ := h
  have hzero (digits : List Char) (hmem : digits ⊆ whole ++ fraction) :
      digits.countP (fun c => !isDigit c) = 0 := by
    rw [List.countP_eq_zero]
    intro c hc
    simp [hdigits c (hmem hc)]
  rw [List.countP_append, List.countP_cons, hzero whole (List.subset_append_left _ _),
    hzero fraction (List.subset_append_right _ _)]
  rfl

theorem EndsBefore.not_fits_append (h : kind.EndsBefore cs (more ++ rest)) (hmore : more ≠ [])
    (hfits : kind.Fits cs) : ¬ kind.Fits (cs ++ more) := by
  obtain ⟨d, more, rfl⟩ := List.exists_cons_of_ne_nil hmore
  have hbreaks {p : Char → Bool} (hends : Breaks p (d :: more ++ rest)) (hd : p d) : False := by
    rw [breaks_cons.mp hends] at hd
    cases hd
  intro hlonger
  cases kind with
  | blank => exact hbreaks h (hlonger.2 d (by simp))
  | opening bracket =>
      obtain rfl := hfits
      simp [Fits] at hlonger
  | closing bracket =>
      obtain rfl := hfits
      simp [Fits] at hlonger
  | quote =>
      obtain rfl := hfits
      simp [Fits] at hlonger
  | text =>
      obtain ⟨body, content, rfl, hbody⟩ := hfits
      obtain ⟨other, meaning, hother, hencodes⟩ := hlonger
      have hshort := takeLiteral?_of_encodes hbody (d :: more)
      have hlong := takeLiteral?_of_encodes hencodes []
      simp only [List.cons_append, List.append_assoc, List.nil_append, List.cons.injEq,
        true_and] at hother
      rw [hother, hlong] at hshort
      simp at hshort
  | character =>
      obtain ⟨name, rfl, -, -⟩ := hfits
      obtain ⟨other, hother, -, hletters⟩ := hlonger
      simp only [List.cons_append, List.cons.injEq, true_and] at hother
      exact hbreaks h (hletters d (by simp [← hother]))
  | decimal =>
      have hcount := countP_decimal hlonger
      rw [List.countP_append, countP_decimal hfits, List.countP_cons] at hcount
      cases hd : isDigit d with
      | true => exact hbreaks h hd
      | false => simp [hd] at hcount
  | integer => exact hbreaks h.1 (hlonger.2 d (by simp))
  | atom =>
      obtain ⟨first, tail, rfl, -, -⟩ := hfits
      obtain ⟨other, further, hother, -, hcontinues⟩ := hlonger
      obtain ⟨-, hfurther⟩ := List.cons.inj hother
      exact hbreaks h.1 (hcontinues d (by simp [← hfurther]))
  | stray =>
      obtain ⟨first, rfl⟩ := hfits
      obtain ⟨other, hother⟩ := hlonger
      simp at hother

theorem EndsBefore.longest (h : kind.EndsBefore cs rest) (hfits : kind.Fits cs) :
    kind.Longest cs (cs ++ rest) := by
  refine ⟨hfits, List.prefix_append _ _, fun other hother hprefix => ?_⟩
  apply Nat.le_of_not_lt
  intro hlength
  have hcs : cs <+: other :=
    List.prefix_of_prefix_length_le (List.prefix_append _ _) hprefix (by omega)
  obtain ⟨more, rfl⟩ := hcs
  obtain ⟨after, rfl⟩ := (List.prefix_append_right_inj cs).mp hprefix
  refine h.not_fits_append ?_ hfits hother
  rintro rfl
  simp at hlength

theorem Fits.ne_nil (h : kind.Fits cs) : cs ≠ [] := by
  by_cases hstray : kind = stray
  · subst hstray
    obtain ⟨c, rfl⟩ := h
    exact List.cons_ne_nil c []
  · obtain ⟨c, tail, rfl, -⟩ := h.exists_head hstray
    exact List.cons_ne_nil c tail

theorem Fits.exists_blank (h : blank.Fits cs) : ∃ c tail, cs = c :: tail ∧ isBlank c := by
  obtain ⟨c, tail, rfl⟩ := List.exists_cons_of_ne_nil h.1
  exact ⟨c, tail, rfl, h.2 c (by simp)⟩

theorem Fits.exists_digit (h : kind.Fits cs) (hkind : kind = integer ∨ kind = decimal) :
    ∃ c tail, cs = c :: tail ∧ isDigit c := by
  rcases hkind with rfl | rfl
  · obtain ⟨c, tail, rfl⟩ := List.exists_cons_of_ne_nil h.1
    exact ⟨c, tail, rfl, h.2 c (by simp)⟩
  · obtain ⟨whole, fraction, rfl, hwhole, -, hdigits⟩ := h
    obtain ⟨c, whole, rfl⟩ := List.exists_cons_of_ne_nil hwhole
    exact ⟨c, _, rfl, hdigits c (by simp)⟩

/-- A token ends before one that it would go on through. -/
theorem EndsBefore.not_runsInto {next : TokenKind} {other : List Char}
    (h : kind.EndsBefore cs (other ++ rest)) (hother : next.Fits other) : ¬ kind.RunsInto next := by
  have hdigit (hnext : next = integer ∨ next = decimal) {p : Char → Bool}
      (hp : ∀ c, isDigit c → p c) : ¬ Breaks p (other ++ rest) := by
    obtain ⟨c, tail, rfl, hc⟩ := hother.exists_digit hnext
    simp [hp c hc]
  intro hruns
  cases kind with
  | blank =>
      cases next with
      | blank =>
          obtain ⟨c, tail, rfl, hc⟩ := hother.exists_blank
          exact absurd (breaks_cons.mp h) (by simp [hc])
      | _ => exact hruns
  | integer =>
      cases next with
      | integer => exact hdigit (.inl rfl) (fun _ hc => hc) h.1
      | decimal => exact hdigit (.inr rfl) (fun _ hc => hc) h.1
      | _ => exact hruns
  | atom =>
      cases next with
      | atom =>
          obtain ⟨c, tail, rfl, hc, -⟩ := hother
          have hbreaks := breaks_cons.mp h.1
          rw [continuesAtom_of_startsAtom hc] at hbreaks
          cases hbreaks
      | integer => exact hdigit (.inl rfl) (fun _ => continuesAtom_of_isDigit) h.1
      | decimal => exact hdigit (.inr rfl) (fun _ => continuesAtom_of_isDigit) h.1
      | _ => exact hruns
  | _ => exact hruns

end

end TokenKind

namespace Token

section
variable {kind : TokenKind} {c : Char}

theorem lexeme_of_isDigit (h : isDigit c) (cs : List Char) :
    (lexeme c cs).kind = .decimal ∨
      (lexeme c cs).kind = .integer ∧ BreaksAfter '.' isDigit (cs.dropWhile isDigit) := by
  cases hfraction : takeFraction? (cs.dropWhile isDigit) with
  | some fraction => exact .inl (by rw [lexeme_decimal h hfraction]; rfl)
  | none =>
      refine .inr ⟨?_, takeFraction?_eq_none_iff.mp hfraction⟩
      rw [lexeme_integer h hfraction]
      rfl

theorem lexeme_of_startsAtom (h : startsAtom c) (cs : List Char) :
    (lexeme c cs).kind = .character ∨
      (lexeme c cs).kind = .atom ∧ (c = '#' → BreaksAfter '\\' isLetter cs) := by
  by_cases hname : c = '#' ∧ (takeName? cs).isSome
  · obtain ⟨rfl, hsome⟩ := hname
    obtain ⟨tail, htail⟩ := Option.isSome_iff_exists.mp hsome
    exact .inl (by rw [lexeme_character htail]; rfl)
  · have hnone : c = '#' → takeName? cs = none := by simpa using hname
    refine .inr ⟨?_, fun hmark => takeName?_eq_none_iff.mp (hnone hmark)⟩
    rw [lexeme_atom h hnone]
    rfl

theorem rank_lexeme_le {cs : List Char} (h : kind.Starts (c :: cs)) :
    (lexeme c cs).kind.rank ≤ kind.rank := by
  obtain ⟨text, hfits, rest, hsource⟩ := h
  cases kind with
  | blank =>
      obtain ⟨d, tail, rfl, hd⟩ := hfits.exists_blank
      obtain ⟨rfl, -⟩ := List.cons.inj hsource
      rw [lexeme_blank hd]
      exact Nat.le_refl _
  | opening bracket =>
      obtain rfl := hfits
      obtain ⟨rfl, -⟩ := List.cons.inj hsource
      rw [lexeme_opening]
      exact Nat.le_refl _
  | closing bracket =>
      obtain rfl := hfits
      obtain ⟨rfl, -⟩ := List.cons.inj hsource
      rw [lexeme_closing]
      exact Nat.le_refl _
  | quote =>
      obtain rfl := hfits
      obtain ⟨rfl, -⟩ := List.cons.inj hsource
      exact Nat.le_refl _
  | text =>
      obtain ⟨body, content, rfl, hencodes⟩ := hfits
      rw [List.cons_append, List.append_assoc] at hsource
      obtain ⟨rfl, rfl⟩ := List.cons.inj hsource
      have hliteral := takeLiteral?_of_encodes hencodes rest
      exact Nat.le_of_eq (congrArg (fun lexeme => lexeme.kind.rank) (lexeme_text hliteral))
  | character =>
      obtain ⟨name, rfl, hne, hletters⟩ := hfits
      obtain ⟨d, name, rfl⟩ := List.exists_cons_of_ne_nil hne
      obtain ⟨rfl, rfl⟩ := List.cons.inj hsource
      have hmark : startsAtom '#' := by decide
      rcases lexeme_of_startsAtom hmark ('\\' :: d :: name ++ rest) with hkind | ⟨-, hbreaks⟩
      · exact Nat.le_of_eq (congrArg TokenKind.rank hkind)
      · have hd := hbreaks rfl d _ rfl
        rw [hletters d (by simp)] at hd
        cases hd
  | decimal =>
      obtain ⟨whole, fraction, rfl, hwhole, hfraction, hdigits⟩ := hfits
      obtain ⟨d, whole, rfl⟩ := List.exists_cons_of_ne_nil hwhole
      obtain ⟨e, fraction, rfl⟩ := List.exists_cons_of_ne_nil hfraction
      rw [List.append_assoc, List.cons_append] at hsource
      obtain ⟨rfl, rfl⟩ := List.cons.inj hsource
      have hpoint : Breaks isDigit ('.' :: e :: fraction ++ rest) := breaks_cons.mpr (by decide)
      have hrun : ∀ c ∈ whole, isDigit c := fun c hc => hdigits c (by simp [hc])
      obtain ⟨-, hdrop⟩ := span_breaks hrun hpoint
      rcases lexeme_of_isDigit (hdigits d (by simp)) (whole ++ ('.' :: e :: fraction ++ rest)) with
        hkind | ⟨-, hbreaks⟩
      · exact Nat.le_of_eq (congrArg TokenKind.rank hkind)
      · rw [hdrop] at hbreaks
        have he := hbreaks e _ rfl
        rw [hdigits e (by simp)] at he
        cases he
  | integer =>
      obtain ⟨d, tail, rfl, hdigit⟩ := hfits.exists_digit (.inl rfl)
      obtain ⟨rfl, -⟩ := List.cons.inj hsource
      rcases lexeme_of_isDigit hdigit cs with hkind | ⟨hkind, -⟩
      · simp [hkind, TokenKind.rank]
      · exact Nat.le_of_eq (congrArg TokenKind.rank hkind)
  | atom =>
      obtain ⟨d, tail, rfl, hstarts, -⟩ := hfits
      obtain ⟨rfl, -⟩ := List.cons.inj hsource
      rcases lexeme_of_startsAtom hstarts cs with hkind | ⟨hkind, -⟩
      · simp [hkind, TokenKind.rank]
      · exact Nat.le_of_eq (congrArg TokenKind.rank hkind)
  | stray => exact TokenKind.rank_le _

end

section
variable {source : List Char} {index : Nat} {token : Token}

/-- What holds of the token of an index in a source: where it starts, what is cut from there on, and
what it is by itself. -/
structure Tile (source : List Char) (index : Nat) (token : Token) : Prop where
  text_ne_nil : token.text ≠ []
  offset_eq : token.offset = (((lex source).take index).flatMap text).length
  drop_eq : (lex source).drop index =
    (lex (source.drop token.offset)).map (shift token.offset)
  alone : lex token.text = [{ token with offset := 0 }]
  longest : token.kind.Longest token.text (source.drop token.offset)
  first : ∀ kind : TokenKind, kind.Starts (source.drop token.offset) →
    token.kind.rank ≤ kind.rank
  /-- A stray character starts nothing else, so a stray quote starts no literal. -/
  stray : token.kind = .stray → (∃ c, token.text = [c]) ∧
    ∀ kind : TokenKind, kind.Starts (source.drop token.offset) → kind = .stray

theorem exists_around (h : (lex source)[index]? = some token) :
    ∃ rest, source = ((lex source).take index).flatMap text ++ (token.text ++ rest) ∧
      token.offset = (((lex source).take index).flatMap text).length ∧ token.Genuine ∧
        token.kind.EndsBefore token.text rest ∧
          (lex source).drop index = lexFrom token.offset (token.text ++ rest) := by
  obtain ⟨before, after, hsource, -, hdrop⟩ := Reader.exists_lexFrom_drop 0 source index
  rw [Nat.zero_add] at hdrop
  have hbefore : ((lex source).take index).flatMap text = before := by
    have hafter : ((lex source).drop index).flatMap text = after := by
      rw [lex, hdrop, flatMap_text_lexFrom]
    have hwhole := flatMap_text_lexFrom 0 source
    rw [← lex, ← List.take_append_drop index (lex source), List.flatMap_append, hafter] at hwhole
    exact List.append_cancel_right (hwhole.trans hsource)
  obtain ⟨tokens, htokens⟩ : ∃ tokens, (lex source).drop index = token :: tokens := by
    obtain ⟨hindex, htoken⟩ := List.getElem?_eq_some_iff.mp h
    exact ⟨_, htoken ▸ List.drop_eq_getElem_cons hindex⟩
  have hcut := hdrop.symm.trans htokens
  obtain ⟨rest, rfl, hoffset, hgenuine, hends, -⟩ := lexFrom_eq_cons_iff.mp hcut
  rw [hbefore]
  exact ⟨rest, hsource, hoffset, hgenuine, hends, hoffset ▸ hdrop⟩

theorem kind_lexeme {c : Char} {cs rest : List Char} (hsource : token.text ++ rest = c :: cs)
    (hgenuine : token.Genuine) (hends : token.kind.EndsBefore token.text rest) :
    (lexeme c cs).kind = token.kind := by
  have hcut : lexFrom 0 (token.text ++ rest) = _ := lexFrom_of_endsBefore hgenuine hends
  rw [hsource, lexFrom_cons] at hcut
  exact congrArg Token.kind (List.cons.inj hcut).1

theorem tile_of_getElem? (h : (lex source)[index]? = some token) : Tile source index token := by
  obtain ⟨rest, hsource, hoffset, hgenuine, hends, hdrop⟩ := exists_around h
  have hfrom : source.drop token.offset = token.text ++ rest := by
    rw [hsource, hoffset, List.drop_left]
  have hfirst : ∀ kind : TokenKind, kind.Starts (token.text ++ rest) →
      token.kind.rank ≤ kind.rank := by
    intro kind hkind
    obtain ⟨c, cs, hcs⟩ := List.exists_cons_of_ne_nil
      (List.append_ne_nil_of_left_ne_nil hgenuine.ne_nil rest)
    rw [← kind_lexeme hcs hgenuine hends]
    exact rank_lexeme_le (hcs ▸ hkind)
  have hbefore : token.kind.EndsBefore token.text ([] ++ rest) := hends
  have halone : lexFrom 0 (token.text ++ []) = _ :=
    lexFrom_of_endsBefore hgenuine hbefore.of_append
  refine ⟨hgenuine.ne_nil, hoffset, ?_, ?_, hfrom ▸ hends.longest hgenuine, hfrom ▸ hfirst, ?_⟩
  · rw [hdrop, hfrom, lexFrom_eq_shift]
  · rw [lex, ← List.append_nil token.text, halone, List.append_nil, lexFrom]
  · intro hstray
    rw [Genuine, hstray] at hgenuine
    rw [hfrom]
    refine ⟨hgenuine, fun kind hkind => ?_⟩
    have hrank := hfirst kind hkind
    rw [hstray] at hrank
    exact TokenKind.eq_stray_of_rank_le hrank

theorem isChain_lexFrom (offset : Nat) (source : List Char) :
    (lexFrom offset source).IsChain fun token next => ¬ token.kind.RunsInto next.kind := by
  generalize htokens : lexFrom offset source = tokens
  induction tokens generalizing offset source with
  | nil => exact .nil
  | cons token tokens ih =>
      obtain ⟨rest, rfl, -, -, hends, hrest⟩ := lexFrom_eq_cons_iff.mp htokens
      have hchain := ih _ rest hrest.symm
      cases tokens with
      | nil => exact .singleton token
      | cons next tokens =>
          obtain ⟨after, rfl, -, hnext, -⟩ := lexFrom_eq_cons_iff.mp hrest.symm
          exact .cons_cons (hends.not_runsInto hnext) hchain

end

/-- The tokens of a source are its pieces in order, each with the offset where it starts. Each is
the longest text there of the first kind that matches, is cut the same from there on and by itself,
and does not go on through the next one. -/
theorem lex_tiles (source : List Char) :
    (lex source).flatMap text = source ∧
      (∀ (index : Nat) (token : Token), (lex source)[index]? = some token →
        Tile source index token) ∧
      (lex source).IsChain fun token next => ¬ token.kind.RunsInto next.kind := by
  refine ⟨flatMap_text_lexFrom 0 source, ?_, isChain_lexFrom 0 source⟩
  intro index token htoken
  exact tile_of_getElem? htoken

theorem lex_tiles_open_quote :
    Tile "1.5#\\a\"b".toList 2 { kind := .stray, text := ['"'], offset := 6 } ∧
      ¬ TokenKind.text.Starts ("1.5#\\a\"b".toList.drop 6) := by
  have hquote : (lex "1.5#\\a\"b".toList)[2]? =
      some { kind := .stray, text := ['"'], offset := 6 } := by
    decide +kernel
  have htile := (lex_tiles "1.5#\\a\"b".toList).2.1 2 _ hquote
  refine ⟨htile, fun htext => ?_⟩
  cases (htile.stray rfl).2 .text htext

end Token

end SmallLisp
