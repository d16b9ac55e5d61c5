import SmallLisp.Proofs.Descent
import SmallLisp.Proofs.Separation

namespace SmallLisp

open Text

namespace Token

section
variable {mark : Char} {p : Char → Bool} {rest more : List Char}

theorem Breaks.of_append (h : Breaks p (rest ++ more)) : Breaks p rest := by
  cases rest with
  | nil => simp
  | cons c rest => simpa using h

theorem Breaks.append (h : Breaks p rest) (hmore : Breaks p more) : Breaks p (rest ++ more) := by
  cases rest with
  | nil => exact hmore
  | cons c rest => simpa using h

theorem BreaksAfter.of_append (h : BreaksAfter mark p (rest ++ more)) :
    BreaksAfter mark p rest := by
  rintro c tail rfl
  exact h c _ rfl

theorem BreaksAfter.append_delimited (h : BreaksAfter mark p rest) (hmore : Delimited more)
    (hmark : isDelimiter mark = false) (hp : ∀ c, isDelimiter c → p c = false) :
    BreaksAfter mark p (rest ++ more) := by
  intro c tail heq
  cases rest with
  | nil => exact breaksAfter_of_delimited hmore hmark p c tail heq
  | cons d rest =>
      obtain ⟨rfl, htail⟩ := List.cons.inj heq
      cases rest with
      | nil =>
          obtain rfl := htail
          exact hp c hmore
      | cons e rest =>
          obtain ⟨rfl, -⟩ := List.cons.inj htail
          exact h e rest rfl

theorem takeLiteral?_of_append (h : takeLiteral? (rest ++ more) = none) :
    takeLiteral? rest = none := by
  apply Option.eq_none_iff_forall_ne_some.mpr
  rintro ⟨tail, after⟩ htail
  obtain ⟨body, content, rfl, hencodes⟩ := encodes_of_takeLiteral? htail
  obtain rfl := takeLiteral?_append htail
  simp [takeLiteral?_of_encodes hencodes] at h

end

end Token

open Token

namespace TokenKind

variable {kind : TokenKind} {cs rest more : List Char}

theorem EndsBefore.of_append (h : kind.EndsBefore cs (rest ++ more)) : kind.EndsBefore cs rest := by
  cases kind with
  | blank => exact Breaks.of_append h
  | character => exact Breaks.of_append h
  | decimal => exact Breaks.of_append h
  | integer => exact ⟨h.1.of_append, h.2.of_append⟩
  | atom => exact ⟨h.1.of_append, fun hmark => (h.2 hmark).of_append⟩
  | stray => exact h.imp_right fun hopen => ⟨hopen.1, takeLiteral?_of_append hopen.2⟩
  | _ => trivial

theorem EndsBefore.append_delimited (h : kind.EndsBefore cs rest) (hblank : kind ≠ .blank)
    (hstray : kind ≠ .stray) (hmore : Delimited more) : kind.EndsBefore cs (rest ++ more) := by
  have hends := endsBefore_of_delimited hblank hstray hmore cs
  cases kind with
  | blank => exact absurd rfl hblank
  | stray => exact absurd rfl hstray
  | character => exact Breaks.append h hends
  | decimal => exact Breaks.append h hends
  | integer =>
      refine ⟨h.1.append hends.1, h.2.append_delimited hmore (by decide) fun c hc => ?_⟩
      exact (delimiter_classes hc).2.1
  | atom =>
      refine ⟨h.1.append hends.1, fun hmark => ?_⟩
      exact (h.2 hmark).append_delimited hmore (by decide) fun c hc => (delimiter_classes hc).1
  | _ => trivial

theorem EndsBefore.of_head {c : Char} (h : kind.EndsBefore cs (c :: rest)) (hstray : kind ≠ .stray)
    (hpoint : c ≠ '.') (hbackslash : c ≠ '\\') (more : List Char) :
    kind.EndsBefore cs (c :: more) := by
  have hbreaks {p : Char → Bool} (h : Breaks p (c :: rest)) : Breaks p (c :: more) :=
    breaks_cons.mpr (breaks_cons.mp h)
  cases kind with
  | stray => exact absurd rfl hstray
  | blank => exact hbreaks h
  | character => exact hbreaks h
  | decimal => exact hbreaks h
  | integer =>
      refine ⟨hbreaks h.1, ?_⟩
      rintro d tail ⟨⟩
      exact absurd rfl hpoint
  | atom =>
      refine ⟨hbreaks h.1, fun _ => ?_⟩
      rintro d tail ⟨⟩
      exact absurd rfl hbackslash
  | _ => trivial

theorem Fits.exists_head (h : kind.Fits cs) (hstray : kind ≠ .stray) :
    ∃ c tail, cs = c :: tail ∧ c ≠ '.' ∧ c ≠ '\\' := by
  have hclass {c : Char} (hc : isDelimiter c ∨ continuesAtom c) : c ≠ '.' ∧ c ≠ '\\' := by
    constructor
    · rintro rfl
      exact absurd hc (by decide)
    · rintro rfl
      exact absurd hc (by decide)
  cases kind with
  | stray => exact absurd rfl hstray
  | blank =>
      obtain ⟨c, tail, rfl⟩ := List.exists_cons_of_ne_nil h.1
      exact ⟨c, tail, rfl, hclass (.inl (by simp [isDelimiter, h.2 c]))⟩
  | opening bracket => exact ⟨_, _, h, by cases bracket <;> decide⟩
  | closing bracket => exact ⟨_, _, h, by cases bracket <;> decide⟩
  | quote => exact ⟨_, _, h, by decide⟩
  | text =>
      obtain ⟨body, content, rfl, -⟩ := h
      exact ⟨_, _, rfl, by decide⟩
  | character =>
      obtain ⟨name, rfl, -⟩ := h
      exact ⟨_, _, rfl, by decide⟩
  | decimal =>
      obtain ⟨whole, fraction, rfl, hwhole, -, hdigits⟩ := h
      obtain ⟨c, whole, rfl⟩ := List.exists_cons_of_ne_nil hwhole
      exact ⟨c, _, rfl, hclass (.inr (continuesAtom_of_isDigit (hdigits c (by simp))))⟩
  | integer =>
      obtain ⟨c, tail, rfl⟩ := List.exists_cons_of_ne_nil h.1
      exact ⟨c, tail, rfl, hclass (.inr (continuesAtom_of_isDigit (h.2 c (by simp))))⟩
  | atom =>
      obtain ⟨c, tail, rfl, hc, -⟩ := h
      exact ⟨c, tail, rfl, hclass (.inr (continuesAtom_of_startsAtom hc))⟩

theorem Fits.last_not_blank (h : kind.Fits cs) (hblank : kind ≠ .blank) (hstray : kind ≠ .stray) :
    ∀ c ∈ cs.getLast?, isBlank c = false := by
  have hclass {c : Char} (hc : continuesAtom c) : isBlank c = false :=
    (not_delimiter_parts (isDelimiter_of_continuesAtom hc)).1
  intro c hc
  cases kind with
  | stray => exact absurd rfl hstray
  | blank => exact absurd rfl hblank
  | opening bracket =>
      obtain rfl := h
      obtain rfl := Option.some.inj hc
      cases bracket <;> decide
  | closing bracket =>
      obtain rfl := h
      obtain rfl := Option.some.inj hc
      cases bracket <;> decide
  | quote =>
      obtain rfl := h
      obtain rfl := Option.some.inj hc
      decide
  | text =>
      obtain ⟨body, content, rfl, -⟩ := h
      obtain rfl : '"' = c := by simpa [List.getLast?_cons] using hc
      decide
  | character =>
      obtain ⟨name, rfl, hne, hname⟩ := h
      have hmem : c ∈ name := by
        rw [List.getLast?_cons_cons, List.getLast?_cons_of_ne_nil hne] at hc
        exact List.mem_of_getLast? hc
      exact hclass (by simp [continuesAtom, startsAtom, hname c hmem])
  | decimal =>
      obtain ⟨whole, fraction, rfl, -, -, hdigits⟩ := h
      have hdigit := fun hmem => hclass (continuesAtom_of_isDigit (hdigits c hmem))
      rcases List.mem_append.mp (List.mem_of_getLast? hc) with hmem | hmem
      · exact hdigit (List.mem_append_left _ hmem)
      · rcases List.mem_cons.mp hmem with rfl | hmem
        · decide
        · exact hdigit (List.mem_append_right _ hmem)
  | integer => exact hclass (continuesAtom_of_isDigit (h.2 c (List.mem_of_getLast? hc)))
  | atom =>
      obtain ⟨d, tail, rfl, hd, htail⟩ := h
      rcases List.mem_cons.mp (List.mem_of_getLast? hc) with rfl | hmem
      · exact hclass (continuesAtom_of_startsAtom hd)
      · exact hclass (htail c hmem)

end TokenKind

namespace Token

section
variable {offset : Nat} {source rest more : List Char} {taken : List Token}

theorem exists_rest_of_taken (h : taken <+: lexFrom offset source) :
    ∃ rest, source = taken.flatMap text ++ rest := by
  induction taken generalizing offset source with
  | nil => exact ⟨source, rfl⟩
  | cons token taken ih =>
      obtain ⟨others, hlex⟩ := h
      obtain ⟨rest, rfl, -, -, -, hrest⟩ := lexFrom_eq_cons_iff.mp hlex.symm
      obtain ⟨last, rfl⟩ := ih ⟨others, hrest⟩
      exact ⟨last, by rw [List.flatMap_cons, List.append_assoc]⟩

theorem prefix_lexFrom_of_append
    (h : taken <+: lexFrom offset (taken.flatMap text ++ (rest ++ more))) :
    taken <+: lexFrom offset (taken.flatMap text ++ rest) := by
  induction taken generalizing offset with
  | nil => exact List.nil_prefix
  | cons token taken ih =>
      obtain ⟨others, hlex⟩ := h
      obtain ⟨after, hsource, hoffset, hgenuine, hends, hafter⟩ := lexFrom_eq_cons_iff.mp hlex.symm
      rw [List.flatMap_cons, List.append_assoc] at hsource ⊢
      obtain rfl := List.append_cancel_left hsource
      obtain ⟨others, hothers⟩ := ih ⟨others, hafter⟩
      rw [← List.append_assoc] at hends
      refine ⟨others, (lexFrom_eq_cons_iff.mpr ⟨_, rfl, hoffset, hgenuine, ?_, hothers⟩).symm⟩
      exact hends.of_append

/-- Tokens none of which is a stray character are cut off the same way when there is more text after
them, as long as that does not go on with the last of them. -/
theorem prefix_lexFrom_append (h : taken <+: lexFrom offset source)
    (hstray : ∀ token ∈ taken, token.kind ≠ .stray)
    (hlast : ∀ token ∈ taken.getLast?, ∀ rest, token.kind.EndsBefore token.text rest →
      token.kind.EndsBefore token.text (rest ++ more)) :
    taken <+: lexFrom offset (source ++ more) := by
  induction taken generalizing offset source with
  | nil => exact List.nil_prefix
  | cons token taken ih =>
      obtain ⟨others, hlex⟩ := h
      obtain ⟨rest, rfl, hoffset, hgenuine, hends, hrest⟩ := lexFrom_eq_cons_iff.mp hlex.symm
      obtain ⟨htoken, htaken⟩ := List.forall_mem_cons.mp hstray
      cases taken with
      | nil =>
          have hmore := hlast token rfl rest hends
          refine ⟨lexFrom (offset + token.text.length) (rest ++ more), ?_⟩
          exact (lexFrom_eq_cons_iff.mpr
            ⟨_, List.append_assoc _ _ _, hoffset, hgenuine, hmore, rfl⟩).symm
      | cons next taken =>
          obtain ⟨after, rfl, -, hnext, -, -⟩ := lexFrom_eq_cons_iff.mp hrest.symm
          obtain ⟨c, tail, htext, hpoint, hbackslash⟩ :=
            TokenKind.Fits.exists_head hnext (htaken next (by simp))
          have hmore : token.kind.EndsBefore token.text (next.text ++ after ++ more) := by
            rw [htext] at hends ⊢
            exact hends.of_head htoken hpoint hbackslash _
          rw [List.getLast?_cons_cons] at hlast
          obtain ⟨others, hothers⟩ := ih ⟨others, hrest⟩ htaken hlast
          refine ⟨others, ?_⟩
          exact (lexFrom_eq_cons_iff.mpr
            ⟨_, List.append_assoc _ _ _, hoffset, hgenuine, hmore, hothers⟩).symm

theorem lexFrom_eq_append_of_taken (h : taken <+: lexFrom offset (taken.flatMap text ++ rest)) :
    lexFrom offset (taken.flatMap text ++ rest) =
      taken ++ lexFrom (offset + (taken.flatMap text).length) rest := by
  induction taken generalizing offset with
  | nil => rfl
  | cons token taken ih =>
      obtain ⟨others, hlex⟩ := h
      obtain ⟨after, hsource, hoffset, hgenuine, hends, hafter⟩ := lexFrom_eq_cons_iff.mp hlex.symm
      rw [List.flatMap_cons, List.append_assoc] at hsource ⊢
      obtain rfl := List.append_cancel_left hsource
      rw [List.length_append, ← Nat.add_assoc, List.cons_append, ← ih ⟨others, hafter⟩]
      exact lexFrom_eq_cons_iff.mpr ⟨_, rfl, hoffset, hgenuine, hends, rfl⟩

theorem lexFrom_append_delimited (hstray : ∀ token ∈ lexFrom offset source, token.kind ≠ .stray)
    (hblank : ∀ token ∈ (lexFrom offset source).getLast?, token.kind ≠ .blank)
    (hmore : Delimited more) :
    lexFrom offset (source ++ more) =
      lexFrom offset source ++ lexFrom (offset + source.length) more := by
  have hstart : lexFrom offset source <+: lexFrom offset (source ++ more) := by
    refine prefix_lexFrom_append (List.prefix_refl _) hstray fun token htoken rest hends => ?_
    exact hends.append_delimited (hblank token htoken)
      (hstray token (List.mem_of_getLast? htoken)) hmore
  have htexts := flatMap_text_lexFrom offset source
  have hlex : lexFrom offset source <+:
      lexFrom offset ((lexFrom offset source).flatMap text ++ more) := by rwa [htexts]
  have hsplit := lexFrom_eq_append_of_taken hlex
  rwa [htexts] at hsplit

end

end Token

namespace Reader

variable {options : Options} {source : List Char} {value : Value}

theorem read_of_taken {taken : List Token} {other : List Char}
    (h : read options source = .ok value) (hderives : Derives options.strict taken value)
    (htaken : taken <+: Token.lex other) : read options other = .ok value := by
  rcases read_of_derives options htaken hderives with ⟨hread, -⟩ | ⟨-, hdeep⟩
  · exact hread
  · exact absurd (depth_of_read h).2 (Nat.not_le_of_lt hdeep)

theorem delimited_blanks {blanks : List Char} (h : ∀ c ∈ blanks, isBlank c) :
    Token.Delimited blanks := by
  cases blanks with
  | nil => trivial
  | cons c blanks => simp [Token.Delimited, Token.isDelimiter, h c]

theorem exists_rest_before_blanks {taken : List Token} {offset : Nat} {body blanks : List Char}
    (h : taken <+: Token.lexFrom offset (body ++ blanks)) (hblanks : ∀ c ∈ blanks, isBlank c)
    (hstray : ∀ token ∈ taken, token.kind ≠ .stray)
    (hblank : ∀ token ∈ taken.getLast?, token.kind ≠ .blank) :
    ∃ rest, body = taken.flatMap Token.text ++ rest := by
  obtain ⟨rest, hsource⟩ := Token.exists_rest_of_taken h
  rcases List.append_eq_append_iff.mp hsource with ⟨tail, htexts, htail⟩ | ⟨rest, hbody, -⟩
  · -- The texts reach into the blanks by `tail`, so it would hold the last character of a token.
    cases hend : tail.getLast? with
    | none =>
        obtain rfl := List.getLast?_eq_none_iff.mp hend
        exact ⟨[], by simpa using htexts.symm⟩
    | some c =>
        have hmem : c ∈ tail := List.mem_of_getLast? hend
        have hc : isBlank c := hblanks c (htail ▸ List.mem_append_left rest hmem)
        rcases List.eq_nil_or_concat taken with rfl | ⟨init, token, rfl⟩
        · obtain ⟨-, rfl⟩ := List.append_eq_nil_iff.mp htexts.symm
          simp at hend
        · have hgenuine : token.Genuine := Token.genuine_of_mem_lexFrom (h.subset (by simp))
          have hkind := hstray token (by simp)
          obtain ⟨d, others, htext, -⟩ := TokenKind.Fits.exists_head hgenuine hkind
          have hlast : token.text.getLast? = some c := by
            have hends := congrArg List.getLast? htexts
            simpa [List.getLast?_append, hend, htext] using hends
          have hvisible :=
            TokenKind.Fits.last_not_blank hgenuine (hblank token (by simp)) hkind c hlast
          simp [hc] at hvisible
  · exact ⟨rest, hbody⟩

/-- Text after a source does not matter when it is empty or starts with a delimiter, and no text
does when the expression ends with a bracket or a text literal. Blanks at the end of a source can be
taken away. -/
theorem read_append_of_read (h : read options source = .ok value) :
    (∀ more, Token.Delimited more → read options (source ++ more) = .ok value) ∧
    (∀ taken last,
      taken ++ last :: (Stream.ofSource options source).readExpression.2.tokens =
          Token.lex source →
        (last.kind = .text ∨ ∃ bracket, last.kind = .closing bracket) →
          ∀ more, read options (source ++ more) = .ok value) ∧
    ∀ blanks : List Char, (∀ c ∈ blanks, isBlank c) →
      read options (source ++ blanks) = .ok value ∧
        ∀ body, source = body ++ blanks → read options body = .ok value := by
  obtain ⟨taken, htaken, hderives⟩ := derives_of_read h
  have hstray := hderives.kind_ne_stray
  have hblank := hderives.kind_last_ne_blank
  have hdelimited (more : List Char) (hmore : Token.Delimited more) :
      read options (source ++ more) = .ok value := by
    refine read_of_taken h hderives (Token.prefix_lexFrom_append htaken hstray ?_)
    intro token htoken rest hends
    exact hends.append_delimited (hblank token htoken)
      (hstray token (List.mem_of_getLast? htoken)) hmore
  refine ⟨hdelimited, ?_, fun blanks hblanks => ⟨hdelimited blanks (delimited_blanks hblanks), ?_⟩⟩
  · intro before last htokens hkind more
    have hall : taken = before ++ [last] := by
      rcases read_of_derives options htaken hderives with ⟨-, hrest⟩ | ⟨-, hdeep⟩
      · rw [tokens_readExpression, ← hrest, ← List.singleton_append, ← List.append_assoc] at htokens
        exact (List.append_cancel_right htokens).symm
      · exact absurd (depth_of_read h).2 (Nat.not_le_of_lt hdeep)
    refine read_of_taken h hderives (Token.prefix_lexFrom_append htaken hstray ?_)
    intro token htoken rest _
    obtain rfl : last = token := by simpa [hall] using htoken
    rcases hkind with hkind | ⟨bracket, hkind⟩
    · rw [hkind]
      trivial
    · rw [hkind]
      trivial
  · rintro body rfl
    obtain ⟨rest, rfl⟩ := exists_rest_before_blanks htaken hblanks hstray hblank
    rw [List.append_assoc] at htaken
    exact read_of_taken h hderives (Token.prefix_lexFrom_of_append htaken)

theorem read_append_after_bracket :
    read { strict := true, levels := 1 } "(1)".toList = .ok (.list [.integer 1]) ∧
      read { strict := true, levels := 1 } ("(1)".toList ++ "'.5".toList) =
        .ok (.list [.integer 1]) ∧
      read { strict := true, levels := 1 } ("(1)".toList ++ ".5".toList) =
        .ok (.list [.integer 1]) := by
  let before : List Token :=
    [{ kind := .opening .round, text := ['('], offset := 0 },
      { kind := .integer, text := ['1'], offset := 1 }]
  let last : Token := { kind := .closing .round, text := [')'], offset := 2 }
  have hlex : Token.lex "(1)".toList = before ++ [last] := by decide +kernel
  have hread : read { strict := true, levels := 1 } "(1)".toList = .ok (.list [.integer 1]) := by
    rw [read_eq, reading, hlex]
    rfl
  have htokens : before ++ last :: (Stream.ofSource { strict := true, levels := 1 }
      "(1)".toList).readExpression.2.tokens = Token.lex "(1)".toList := by
    rw [tokens_readExpression, reading, hlex]
    rfl
  have happend := read_append_of_read hread
  exact ⟨hread, happend.1 _ (by decide : Token.isDelimiter '\'' = true),
    happend.2.1 before last htokens (.inr ⟨_, rfl⟩) _⟩

end Reader

end SmallLisp
