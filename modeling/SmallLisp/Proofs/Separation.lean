import SmallLisp.Proofs.Lexeme

/-!
Tokens stay apart. Where a token ends depends on its kind and on the one or two characters that
follow; a text is cut into the tokens that end like that and no others. A delimiter ends them all.
-/

namespace SmallLisp

namespace Token

open Text

/-- Whether a character ends every token that does not start with it. -/
def isDelimiter (c : Char) : Bool :=
  isBlank c || (Bracket.ofOpening? c).isSome || (Bracket.ofClosing? c).isSome || c = '\'' || c = '"'

/-- Whether a text is empty or starts with a delimiter. -/
def Delimited : List Char → Prop
  | [] => True
  | c :: _ => isDelimiter c

theorem mem_of_inRanges {ranges : List (Nat × Nat)} {code : Nat} (h : inRanges ranges code) :
    code ∈ ranges.flatMap fun range => List.range' range.1 (range.2 + 1 - range.1) := by
  simp only [inRanges, List.any_eq_true, Bool.and_eq_true, decide_eq_true_eq] at h
  obtain ⟨range, hrange, hlow, hhigh⟩ := h
  refine List.mem_flatMap.mpr ⟨range, hrange, ?_⟩
  rw [List.mem_range'_1]
  omega

/-- The numbers of the delimiters. -/
def delimiterCodes : List Nat :=
  (blankRanges.flatMap fun range => List.range' range.1 (range.2 + 1 - range.1)) ++
    "([\x7b)]\x7d'\"".toList.map Char.toNat

theorem mem_delimiterCodes {c : Char} (h : isDelimiter c) : c.toNat ∈ delimiterCodes := by
  simp only [isDelimiter, Bool.or_eq_true, decide_eq_true_eq, Option.isSome_iff_exists] at h
  rcases h with (((hblank | ⟨bracket, hbracket⟩) | ⟨bracket, hbracket⟩) | rfl) | rfl
  · exact List.mem_append_left _ (mem_of_inRanges hblank)
  · rw [← Bracket.ofOpening?_eq_some_iff.mp hbracket]
    cases bracket <;> decide
  · rw [← Bracket.ofClosing?_eq_some_iff.mp hbracket]
    cases bracket <;> decide
  · decide
  · decide

theorem delimiter_classes {c : Char} (h : isDelimiter c) :
    isLetter c = false ∧ isDigit c = false ∧ c ∉ symbolMarks ∧ c ≠ '.' ∧ c ≠ '\\' := by
  have hcodes : ∀ code ∈ delimiterCodes, isLetter (Char.ofNat code) = false ∧
      isDigit (Char.ofNat code) = false ∧ Char.ofNat code ∉ symbolMarks ∧
        Char.ofNat code ≠ '.' ∧ Char.ofNat code ≠ '\\' := by
    decide +kernel
  simpa using hcodes c.toNat (mem_delimiterCodes h)

theorem continuesAtom_of_isDelimiter {c : Char} (h : isDelimiter c) : continuesAtom c = false := by
  obtain ⟨hletter, hdigit, hmark, -⟩ := delimiter_classes h
  simp [continuesAtom, startsAtom, hletter, hdigit, hmark]

theorem isDelimiter_of_continuesAtom {c : Char} (h : continuesAtom c) : isDelimiter c = false := by
  cases hdelimiter : isDelimiter c with
  | false => rfl
  | true =>
      rw [continuesAtom_of_isDelimiter hdelimiter] at h
      cases h

theorem continuesAtom_of_isDigit {c : Char} (h : isDigit c) : continuesAtom c := by
  simp [continuesAtom, h]

theorem continuesAtom_of_startsAtom {c : Char} (h : startsAtom c) : continuesAtom c := by
  simp [continuesAtom, h]

theorem isDigit_iff {c : Char} : isDigit c ↔ 48 ≤ c.toNat ∧ c.toNat ≤ 57 := by
  simp only [isDigit, Bool.and_eq_true, decide_eq_true_eq, Char.le_def, UInt32.le_iff_toNat_le]
  rfl

theorem isDigit_of_startsAtom {c : Char} (h : startsAtom c) : isDigit c = false := by
  cases hdigit : isDigit c with
  | false => rfl
  | true =>
      have hcodes : ∀ code ∈ List.range' 48 10, startsAtom (Char.ofNat code) = false := by
        decide +kernel
      have hcode : c.toNat ∈ List.range' 48 10 := by
        rw [List.mem_range'_1]
        have hbounds := isDigit_iff.mp hdigit
        omega
      have hstarts := hcodes c.toNat hcode
      rw [Char.ofNat_toNat, h] at hstarts
      exact hstarts

theorem lexFrom_cons (offset : Nat) (c : Char) (cs : List Char) :
    lexFrom offset (c :: cs) =
      { kind := (lexeme c cs).kind, text := (lexeme c cs).text, offset } ::
        lexFrom (offset + (lexeme c cs).text.length) (lexeme c cs).rest := by
  rw [lexFrom]

/-- Whether a run of a class of characters ends where a text starts. -/
def Breaks (p : Char → Bool) (rest : List Char) : Prop :=
  ∀ c ∈ rest.head?, p c = false

/-- Whether a text does not start with a mark and a character of a class after it. -/
def BreaksAfter (mark : Char) (p : Char → Bool) (rest : List Char) : Prop :=
  ∀ c tail, rest = mark :: c :: tail → p c = false

@[simp] theorem breaks_nil (p : Char → Bool) : Breaks p [] := by
  simp [Breaks]

@[simp] theorem breaks_cons {p : Char → Bool} {c : Char} {rest : List Char} :
    Breaks p (c :: rest) ↔ p c = false := by
  simp [Breaks]

theorem breaks_dropWhile (p : Char → Bool) (cs : List Char) : Breaks p (cs.dropWhile p) := by
  intro c hc
  have h := List.head?_dropWhile_not p cs
  rw [hc] at h
  exact h

theorem breaks_of_delimited {p : Char → Bool} {rest : List Char} (hrest : Delimited rest)
    (hp : ∀ c, isDelimiter c → p c = false) : Breaks p rest := by
  cases rest with
  | nil => simp
  | cons c rest => exact breaks_cons.mpr (hp c hrest)

theorem breaksAfter_of_delimited {mark : Char} {rest : List Char} (hrest : Delimited rest)
    (hmark : isDelimiter mark = false) (p : Char → Bool) : BreaksAfter mark p rest := by
  rintro c tail rfl
  exact absurd hrest (by simp [Delimited, hmark])

theorem span_breaks {p : Char → Bool} {run rest : List Char} (hrun : ∀ c ∈ run, p c)
    (hrest : Breaks p rest) :
    (run ++ rest).takeWhile p = run ∧ (run ++ rest).dropWhile p = rest := by
  rw [List.takeWhile_append_of_pos hrun, List.dropWhile_append_of_pos hrun]
  cases rest with
  | nil => simp
  | cons c rest => simp [breaks_cons.mp hrest]

theorem not_delimiter_parts {c : Char} (h : isDelimiter c = false) :
    isBlank c = false ∧ Bracket.ofOpening? c = none ∧ Bracket.ofClosing? c = none ∧ c ≠ '\'' ∧
      c ≠ '"' := by
  simpa [isDelimiter, and_assoc] using h

section
variable {c : Char} {cs rest : List Char} {tail : List Char × List Char}

theorem lexeme_blank (h : isBlank c) : lexeme c cs = .ofRun .blank isBlank c cs := by
  simp [lexeme, h]

theorem lexeme_opening (bracket : Bracket) :
    lexeme bracket.opening cs = .ofTail (.opening bracket) bracket.opening ([], cs) := by
  have hblank : isBlank bracket.opening = false := by cases bracket <;> decide
  simp [lexeme, hblank, Bracket.ofOpening?_eq_some_iff.mpr rfl]

theorem lexeme_closing (bracket : Bracket) :
    lexeme bracket.closing cs = .ofTail (.closing bracket) bracket.closing ([], cs) := by
  have hblank : isBlank bracket.closing = false := by cases bracket <;> decide
  have hopening : Bracket.ofOpening? bracket.closing = none := by cases bracket <;> decide
  simp [lexeme, hblank, hopening, Bracket.ofClosing?_eq_some_iff.mpr rfl]

theorem lexeme_quote : lexeme '\'' cs = .ofTail .quote '\'' ([], cs) :=
  rfl

theorem lexeme_text (h : takeLiteral? cs = some tail) :
    lexeme '"' cs = .ofTail .text '"' tail := by
  have hblank : isBlank '"' = false := by decide
  have hopening : Bracket.ofOpening? '"' = none := by decide
  have hclosing : Bracket.ofClosing? '"' = none := by decide
  simp [lexeme, hblank, hopening, hclosing, h]

theorem lexeme_unclosed (h : takeLiteral? cs = none) :
    lexeme '"' cs = .ofTail .stray '"' ([], cs) := by
  have hblank : isBlank '"' = false := by decide
  have hopening : Bracket.ofOpening? '"' = none := by decide
  have hclosing : Bracket.ofClosing? '"' = none := by decide
  simp [lexeme, hblank, hopening, hclosing, h]

theorem lexeme_stray (hdelimiter : isDelimiter c = false) (hatom : continuesAtom c = false) :
    lexeme c cs = .ofTail .stray c ([], cs) := by
  obtain ⟨hblank, hopening, hclosing, hquote, hdouble⟩ := not_delimiter_parts hdelimiter
  obtain ⟨hstarts, hdigit⟩ := Bool.or_eq_false_iff.mp hatom
  simp [lexeme, hblank, hopening, hclosing, hquote, hdouble, hdigit, hstarts]

theorem lexeme_decimal (h : isDigit c)
    (hfraction : takeFraction? (cs.dropWhile isDigit) = some tail) :
    lexeme c cs = .ofTail .decimal c (cs.takeWhile isDigit ++ tail.1, tail.2) := by
  obtain ⟨hblank, hopening, hclosing, hquote, hdouble⟩ :=
    not_delimiter_parts (isDelimiter_of_continuesAtom (continuesAtom_of_isDigit h))
  simp [lexeme, hblank, hopening, hclosing, hquote, hdouble, h, hfraction]

theorem lexeme_integer (h : isDigit c) (hfraction : takeFraction? (cs.dropWhile isDigit) = none) :
    lexeme c cs = .ofRun .integer isDigit c cs := by
  obtain ⟨hblank, hopening, hclosing, hquote, hdouble⟩ :=
    not_delimiter_parts (isDelimiter_of_continuesAtom (continuesAtom_of_isDigit h))
  simp [lexeme, hblank, hopening, hclosing, hquote, hdouble, h, hfraction]

theorem lexeme_atom (h : startsAtom c) (hname : c = '#' → takeName? cs = none) :
    lexeme c cs = .ofRun .atom continuesAtom c cs := by
  obtain ⟨hblank, hopening, hclosing, hquote, hdouble⟩ :=
    not_delimiter_parts (isDelimiter_of_continuesAtom (continuesAtom_of_startsAtom h))
  have hnone : (if c = '#' then takeName? cs else none) = none := by
    split
    · exact hname ‹_›
    · rfl
  simp [lexeme, hblank, hopening, hclosing, hquote, hdouble, isDigit_of_startsAtom h, h, hnone]

theorem lexeme_character (h : takeName? cs = some tail) :
    lexeme '#' cs = .ofTail .character '#' tail := by
  have hstarts : startsAtom '#' := by decide
  obtain ⟨hblank, hopening, hclosing, hquote, hdouble⟩ :=
    not_delimiter_parts (isDelimiter_of_continuesAtom (continuesAtom_of_startsAtom hstarts))
  simp [lexeme, hblank, hopening, hclosing, isDigit_of_startsAtom hstarts, hstarts, h]

end

section
variable {offset : Nat} {cs rest : List Char}

theorem fits_space : TokenKind.blank.Fits [' '] :=
  ⟨List.cons_ne_nil _ _, List.forall_mem_singleton.mpr (by decide)⟩

theorem lexFrom_blank (hfits : TokenKind.blank.Fits cs) (hends : Breaks isBlank rest) :
    lexFrom offset (cs ++ rest) =
      { kind := .blank, text := cs, offset } :: lexFrom (offset + cs.length) rest := by
  obtain ⟨hne, hrun⟩ := hfits
  obtain ⟨c, cs, rfl⟩ := List.exists_cons_of_ne_nil hne
  obtain ⟨hc, hcs⟩ := List.forall_mem_cons.mp hrun
  obtain ⟨htake, hdrop⟩ := span_breaks hcs hends
  rw [List.cons_append, lexFrom_cons, lexeme_blank hc]
  simp [Lexeme.ofRun, htake, hdrop]

theorem lexFrom_opening (bracket : Bracket) :
    lexFrom offset (bracket.opening :: rest) =
      { kind := .opening bracket, text := [bracket.opening], offset } ::
        lexFrom (offset + 1) rest := by
  rw [lexFrom_cons, lexeme_opening]
  rfl

theorem lexFrom_closing (bracket : Bracket) :
    lexFrom offset (bracket.closing :: rest) =
      { kind := .closing bracket, text := [bracket.closing], offset } ::
        lexFrom (offset + 1) rest := by
  rw [lexFrom_cons, lexeme_closing]
  rfl

theorem lexFrom_quote :
    lexFrom offset ('\'' :: rest) =
      { kind := .quote, text := ['\''], offset } :: lexFrom (offset + 1) rest := by
  rw [lexFrom_cons, lexeme_quote]
  rfl

theorem lexFrom_text (hfits : TokenKind.text.Fits cs) :
    lexFrom offset (cs ++ rest) =
      { kind := .text, text := cs, offset } :: lexFrom (offset + cs.length) rest := by
  obtain ⟨body, content, rfl, hencodes⟩ := hfits
  have hliteral := takeLiteral?_of_encodes hencodes rest
  rw [List.cons_append, List.append_assoc, List.singleton_append, lexFrom_cons,
    lexeme_text hliteral]
  rfl

theorem lexFrom_character (hfits : TokenKind.character.Fits cs) (hends : Breaks isLetter rest) :
    lexFrom offset (cs ++ rest) =
      { kind := .character, text := cs, offset } :: lexFrom (offset + cs.length) rest := by
  obtain ⟨name, rfl, hne, hname⟩ := hfits
  obtain ⟨c, name, rfl⟩ := List.exists_cons_of_ne_nil hne
  obtain ⟨hc, hrun⟩ := List.forall_mem_cons.mp hname
  obtain ⟨htake, hdrop⟩ := span_breaks hrun hends
  have htail : takeName? ('\\' :: c :: name ++ rest) = some ('\\' :: c :: name, rest) := by
    simp [takeName?, hc, htake, hdrop]
  rw [List.cons_append, lexFrom_cons, lexeme_character htail]
  rfl

theorem lexFrom_decimal (hfits : TokenKind.decimal.Fits cs) (hends : Breaks isDigit rest) :
    lexFrom offset (cs ++ rest) =
      { kind := .decimal, text := cs, offset } :: lexFrom (offset + cs.length) rest := by
  obtain ⟨whole, fraction, rfl, hwhole, hfraction, hdigits⟩ := hfits
  obtain ⟨c, whole, rfl⟩ := List.exists_cons_of_ne_nil hwhole
  obtain ⟨d, fraction, rfl⟩ := List.exists_cons_of_ne_nil hfraction
  obtain ⟨hrun, hfractional⟩ := List.forall_mem_append.mp hdigits
  obtain ⟨hc, hrun⟩ := List.forall_mem_cons.mp hrun
  obtain ⟨hd, hfractional⟩ := List.forall_mem_cons.mp hfractional
  have hpoint : Breaks isDigit ('.' :: d :: fraction ++ rest) := breaks_cons.mpr (by decide)
  obtain ⟨htakeWhole, hdropWhole⟩ := span_breaks hrun hpoint
  obtain ⟨htake, hdrop⟩ := span_breaks hfractional hends
  have htail : takeFraction? ((whole ++ ('.' :: d :: fraction ++ rest)).dropWhile isDigit) =
      some ('.' :: d :: fraction, rest) := by
    rw [hdropWhole]
    simp [takeFraction?, hd, htake, hdrop]
  rw [List.append_assoc, List.cons_append, lexFrom_cons, lexeme_decimal hc htail, htakeWhole]
  rfl

theorem takeFraction?_eq_none_iff : takeFraction? rest = none ↔ BreaksAfter '.' isDigit rest := by
  unfold takeFraction?
  split
  · simp [BreaksAfter]
  · rename_i hrest
    simp only [true_iff]
    exact fun c tail heq => absurd heq (hrest c tail)

theorem takeName?_eq_none_iff : takeName? rest = none ↔ BreaksAfter '\\' isLetter rest := by
  unfold takeName?
  split
  · simp [BreaksAfter]
  · rename_i hrest
    simp only [true_iff]
    exact fun c tail heq => absurd heq (hrest c tail)

theorem lexFrom_integer (hfits : TokenKind.integer.Fits cs) (hends : Breaks isDigit rest)
    (hpoint : BreaksAfter '.' isDigit rest) :
    lexFrom offset (cs ++ rest) =
      { kind := .integer, text := cs, offset } :: lexFrom (offset + cs.length) rest := by
  obtain ⟨hne, hdigits⟩ := hfits
  obtain ⟨c, cs, rfl⟩ := List.exists_cons_of_ne_nil hne
  obtain ⟨hc, hrun⟩ := List.forall_mem_cons.mp hdigits
  obtain ⟨htake, hdrop⟩ := span_breaks hrun hends
  have hfraction := takeFraction?_eq_none_iff.mpr hpoint
  rw [← hdrop] at hfraction
  rw [List.cons_append, lexFrom_cons, lexeme_integer hc hfraction]
  simp [Lexeme.ofRun, htake, hdrop]

theorem lexFrom_atom (hfits : TokenKind.atom.Fits cs) (hends : Breaks continuesAtom rest)
    (hmark : cs = ['#'] → BreaksAfter '\\' isLetter rest) :
    lexFrom offset (cs ++ rest) =
      { kind := .atom, text := cs, offset } :: lexFrom (offset + cs.length) rest := by
  obtain ⟨c, tail, rfl, hc, htail⟩ := hfits
  obtain ⟨htake, hdrop⟩ := span_breaks htail hends
  have hname : c = '#' → takeName? (tail ++ rest) = none := by
    rintro rfl
    apply takeName?_eq_none_iff.mpr
    cases tail with
    | nil => exact hmark rfl
    | cons d tail =>
        intro e after heq
        obtain ⟨rfl, -⟩ := List.cons.inj heq
        exact absurd (htail '\\' (by simp)) (by decide)
  rw [List.cons_append, lexFrom_cons, lexeme_atom hc hname]
  simp [Lexeme.ofRun, htake, hdrop]

end

end Token

open Token in
/-- Whether a token of a kind ends after a text of its own: what comes then neither goes on with it
nor makes a token of another kind of it. -/
def TokenKind.EndsBefore : TokenKind → List Char → List Char → Prop
  | blank, _, rest => Breaks Text.isBlank rest
  | character, _, rest => Breaks Text.isLetter rest
  | decimal, _, rest => Breaks Text.isDigit rest
  | integer, _, rest => Breaks Text.isDigit rest ∧ BreaksAfter '.' Text.isDigit rest
  | atom, cs, rest =>
      Breaks continuesAtom rest ∧ (cs = ['#'] → BreaksAfter '\\' Text.isLetter rest)
  | stray, cs, rest =>
      (∀ c ∈ cs, isDelimiter c = false ∧ continuesAtom c = false) ∨
        cs = ['"'] ∧ takeLiteral? rest = none
  | _, _, _ => True

namespace Token

open Text

theorem endsBefore_lexeme (c : Char) (cs : List Char) :
    (lexeme c cs).kind.EndsBefore (lexeme c cs).text (lexeme c cs).rest := by
  unfold lexeme
  split
  · exact breaks_dropWhile _ _
  split
  · trivial
  split
  · trivial
  split
  · trivial
  split
  · rename_i hquote
    split
    · trivial
    · rename_i hnone
      exact .inr ⟨congrArg (fun c => [c]) hquote, hnone⟩
  split
  · dsimp only
    split
    · rename_i fraction rest hfraction
      unfold takeFraction? at hfraction
      split at hfraction
      · split at hfraction
        · obtain ⟨-, rfl⟩ := Prod.mk.inj (Option.some.inj hfraction)
          exact breaks_dropWhile _ _
        · simp at hfraction
      · simp at hfraction
    · rename_i hfraction
      exact ⟨breaks_dropWhile _ _, takeFraction?_eq_none_iff.mp hfraction⟩
  split
  · split
    · rename_i tail htail
      split at htail
      · unfold takeName? at htail
        split at htail
        · split at htail
          · obtain rfl := Option.some.inj htail
            exact breaks_dropWhile _ _
          · simp at htail
        · simp at htail
      · simp at htail
    · rename_i hname
      refine ⟨breaks_dropWhile _ _, fun htext => ?_⟩
      obtain ⟨rfl, htake⟩ := List.cons.inj htext
      have hdrop := List.takeWhile_append_dropWhile (p := continuesAtom) (l := cs)
      rw [htake, List.nil_append] at hdrop
      apply takeName?_eq_none_iff.mp
      simpa [Lexeme.ofRun, hdrop] using hname
  · refine .inl fun d hd => ?_
    obtain rfl := List.mem_singleton.mp hd
    simp_all [isDelimiter, continuesAtom, Option.eq_none_iff_forall_ne_some]

theorem lexFrom_of_endsBefore {kind : TokenKind} {offset : Nat} {cs rest : List Char}
    (hfits : kind.Fits cs) (hends : kind.EndsBefore cs rest) :
    lexFrom offset (cs ++ rest) =
      { kind, text := cs, offset } :: lexFrom (offset + cs.length) rest := by
  cases kind with
  | blank => exact lexFrom_blank hfits hends
  | opening bracket =>
      obtain rfl := hfits
      exact lexFrom_opening bracket
  | closing bracket =>
      obtain rfl := hfits
      exact lexFrom_closing bracket
  | quote =>
      obtain rfl := hfits
      exact lexFrom_quote
  | text => exact lexFrom_text hfits
  | character => exact lexFrom_character hfits hends
  | decimal => exact lexFrom_decimal hfits hends
  | integer => exact lexFrom_integer hfits hends.1 hends.2
  | atom => exact lexFrom_atom hfits hends.1 hends.2
  | stray =>
      obtain ⟨c, rfl⟩ := hfits
      have hlexeme : lexeme c rest = .ofTail .stray c ([], rest) := by
        rcases hends with hclass | ⟨hquote, hnone⟩
        · obtain ⟨hdelimiter, hatom⟩ := hclass c (List.mem_singleton_self c)
          exact lexeme_stray hdelimiter hatom
        · obtain rfl := List.singleton_inj.mp hquote
          exact lexeme_unclosed hnone
      rw [List.singleton_append, lexFrom_cons, hlexeme]
      rfl

/-- A text is cut into a token and others just when it starts with the text of the token, the token
ends there, and the others are cut from what follows. -/
theorem lexFrom_eq_cons_iff {offset : Nat} {source : List Char} {token : Token}
    {tokens : List Token} :
    lexFrom offset source = token :: tokens ↔
      ∃ rest, source = token.text ++ rest ∧ token.offset = offset ∧ token.Genuine ∧
        token.kind.EndsBefore token.text rest ∧
          tokens = lexFrom (offset + token.text.length) rest := by
  constructor
  · intro h
    cases source with
    | nil => simp [lexFrom] at h
    | cons c cs =>
        rw [lexFrom_cons] at h
        obtain ⟨rfl, rfl⟩ := List.cons.inj h
        exact ⟨_, (lexeme_append c cs).symm, rfl, lexeme_fits c cs, endsBefore_lexeme c cs, rfl⟩
  · rintro ⟨rest, rfl, rfl, hgenuine, hends, rfl⟩
    exact lexFrom_of_endsBefore hgenuine hends

theorem endsBefore_of_delimited {kind : TokenKind} {rest : List Char} (hblank : kind ≠ .blank)
    (hstray : kind ≠ .stray) (hrest : Delimited rest) (cs : List Char) :
    kind.EndsBefore cs rest := by
  have hletter : Breaks isLetter rest :=
    breaks_of_delimited hrest fun c hc => (delimiter_classes hc).1
  have hdigit : Breaks isDigit rest :=
    breaks_of_delimited hrest fun c hc => (delimiter_classes hc).2.1
  cases kind with
  | blank => exact absurd rfl hblank
  | stray => exact absurd rfl hstray
  | character => exact hletter
  | decimal => exact hdigit
  | integer => exact ⟨hdigit, breaksAfter_of_delimited hrest (by decide) isDigit⟩
  | atom =>
      constructor
      · exact breaks_of_delimited hrest fun c hc => continuesAtom_of_isDelimiter hc
      · exact fun _ => breaksAfter_of_delimited hrest (by decide) isLetter
  | _ => trivial

end Token

end SmallLisp
