import SmallLisp.Token.Lexer

namespace SmallLisp.Escape

/-- The inside of a literal and the content it stands for. -/
inductive Encodes : List Char → List Char → Prop
  | nil : Encodes [] []
  | plain {c : Char} {body content : List Char} :
      c ≠ '"' → c ≠ '\\' → Encodes body content → Encodes (c :: body) (c :: content)
  | escape {mark c : Char} {body content : List Char} :
      table.lookup mark = some c → Encodes body content →
        Encodes ('\\' :: mark :: body) (c :: content)

theorem decode_cons_of_ne {c : Char} (hc : c ≠ '\\') (rest : List Char) :
    decode (c :: rest) = (decode rest).map (c :: ·) := by
  rw [decode]
  rintro _ _ rfl
  exact absurd rfl hc

theorem Encodes.decode_eq {body content : List Char} (h : Encodes body content) :
    decode body = .ok content := by
  induction h with
  | nil => rfl
  | plain _ hc _ ih => rw [decode_cons_of_ne hc, ih]; rfl
  | escape hmark _ ih => simp only [decode, hmark, ih]; rfl

end SmallLisp.Escape

namespace SmallLisp.Token

open Text Escape

theorem encodes_of_takeLiteral? {cs tail after : List Char}
    (h : takeLiteral? cs = some (tail, after)) :
    ∃ body content, tail = body ++ ['"'] ∧ Encodes body content := by
  fun_induction takeLiteral? cs generalizing tail after with
  | case1 => simp at h
  | case2 rest =>
      simp only [Option.some.injEq, Prod.mk.injEq] at h
      exact ⟨[], [], h.1.symm, .nil⟩
  | case3 mark rest hmark ih =>
      simp only [Option.map_eq_some_iff, Prod.exists, Prod.mk.injEq] at h
      obtain ⟨tail, after, htail, rfl, rfl⟩ := h
      obtain ⟨body, content, rfl, hbody⟩ := ih htail
      obtain ⟨c, hc⟩ := Option.isSome_iff_exists.mp hmark
      exact ⟨_, _, rfl, .escape hc hbody⟩
  | case4 => simp at h
  | case5 => simp at h
  | case6 c rest hquote _ hc ih =>
      simp only [Option.map_eq_some_iff, Prod.exists, Prod.mk.injEq] at h
      obtain ⟨tail, after, htail, rfl, rfl⟩ := h
      obtain ⟨body, content, rfl, hbody⟩ := ih htail
      exact ⟨_, _, rfl, .plain (fun h => hquote h) hc hbody⟩

theorem takeLiteral?_of_encodes {body content : List Char} (h : Encodes body content)
    (after : List Char) : takeLiteral? (body ++ '"' :: after) = some (body ++ ['"'], after) := by
  induction h with
  | nil => rfl
  | plain _ hc _ ih => simp [takeLiteral?, hc, ih]
  | escape hmark _ ih => simp [takeLiteral?, isEscapable, hmark, ih]

end SmallLisp.Token

namespace SmallLisp

open Text Escape

namespace Bracket

theorem ofOpening?_eq_some_iff {c : Char} {bracket : Bracket} :
    ofOpening? c = some bracket ↔ bracket.opening = c := by
  constructor
  · intro h
    simpa using List.find?_some h
  · rintro rfl
    cases bracket <;> rfl

theorem ofClosing?_eq_some_iff {c : Char} {bracket : Bracket} :
    ofClosing? c = some bracket ↔ bracket.closing = c := by
  constructor
  · intro h
    simpa using List.find?_some h
  · rintro rfl
    cases bracket <;> rfl

end Bracket

/-- Whether a text is one that tokens of a kind have. -/
def TokenKind.Fits : TokenKind → List Char → Prop
  | blank, cs => cs ≠ [] ∧ ∀ c ∈ cs, isBlank c
  | opening bracket, cs => cs = [bracket.opening]
  | closing bracket, cs => cs = [bracket.closing]
  | quote, cs => cs = ['\'']
  | text, cs => ∃ body content, cs = '"' :: (body ++ ['"']) ∧ Encodes body content
  | character, cs => ∃ name, cs = '#' :: '\\' :: name ∧ name ≠ [] ∧ ∀ c ∈ name, isLetter c
  | decimal, cs =>
      ∃ whole fraction, cs = whole ++ '.' :: fraction ∧ whole ≠ [] ∧ fraction ≠ [] ∧
        ∀ c ∈ whole ++ fraction, isDigit c
  | integer, cs => cs ≠ [] ∧ ∀ c ∈ cs, isDigit c
  | atom, cs => ∃ first rest, cs = first :: rest ∧ Token.startsAtom first ∧
      ∀ c ∈ rest, Token.continuesAtom c
  | stray, cs => ∃ c, cs = [c]

/-- A token whose text is of its kind. -/
def Token.Genuine (token : Token) : Prop :=
  token.kind.Fits token.text

namespace Token

theorem fits_ofRun {kind : TokenKind} {p : Char → Bool} {c : Char} {cs : List Char}
    (h : ∀ tail : List Char, (∀ d ∈ tail, p d) → kind.Fits (c :: tail)) :
    (Lexeme.ofRun kind p c cs).kind.Fits (Lexeme.ofRun kind p c cs).text :=
  h _ (List.all_eq_true.mp List.all_takeWhile)

theorem takeFraction?_digits {cs body after : List Char}
    (h : takeFraction? cs = some (body, after)) :
    ∃ digits, body = '.' :: digits ∧ digits ≠ [] ∧ ∀ c ∈ digits, isDigit c := by
  unfold takeFraction? at h
  split at h
  · rename_i c rest
    split at h
    · rename_i hc
      simp only [Option.some.injEq, Prod.mk.injEq] at h
      refine ⟨c :: rest.takeWhile isDigit, h.1.symm, by simp, ?_⟩
      simpa [hc] using List.all_eq_true.mp (List.all_takeWhile (p := isDigit) (l := rest))
    · simp at h
  · simp at h

theorem takeName?_letters {cs body after : List Char} (h : takeName? cs = some (body, after)) :
    ∃ name, body = '\\' :: name ∧ name ≠ [] ∧ ∀ c ∈ name, isLetter c := by
  unfold takeName? at h
  split at h
  · rename_i c rest
    split at h
    · rename_i hc
      simp only [Option.some.injEq, Prod.mk.injEq] at h
      refine ⟨c :: rest.takeWhile isLetter, h.1.symm, by simp, ?_⟩
      simpa [hc] using List.all_eq_true.mp (List.all_takeWhile (p := isLetter) (l := rest))
    · simp at h
  · simp at h

theorem lexeme_fits (c : Char) (cs : List Char) :
    (lexeme c cs).kind.Fits (lexeme c cs).text := by
  unfold lexeme
  split
  · rename_i hblank
    apply fits_ofRun
    intro tail htail
    simp_all [TokenKind.Fits]
  split
  · rename_i bracket hbracket
    simp [Lexeme.ofTail, TokenKind.Fits, Bracket.ofOpening?_eq_some_iff.mp hbracket]
  split
  · rename_i bracket hbracket
    simp [Lexeme.ofTail, TokenKind.Fits, Bracket.ofClosing?_eq_some_iff.mp hbracket]
  split
  · rename_i hquote
    simp [Lexeme.ofTail, TokenKind.Fits, hquote]
  split
  · rename_i hquote
    split
    · rename_i tail htail
      obtain ⟨body, content, hbody, hencodes⟩ := encodes_of_takeLiteral? htail
      exact ⟨body, content, by simp [Lexeme.ofTail, hquote, hbody], hencodes⟩
    · exact ⟨c, rfl⟩
  split
  · rename_i hdigit
    dsimp only
    split
    · rename_i fraction rest hfraction
      obtain ⟨digits, rfl, hne, hdigits⟩ := takeFraction?_digits hfraction
      refine ⟨c :: cs.takeWhile isDigit, digits, rfl, by simp, hne, ?_⟩
      have hwhole := List.all_eq_true.mp (List.all_takeWhile (p := isDigit) (l := cs))
      simpa [hdigit] using fun d hd => hd.elim (hwhole d) (hdigits d)
    · apply fits_ofRun
      intro tail htail
      simp_all [TokenKind.Fits]
  split
  · rename_i hstarts
    split
    · rename_i tail htail
      split at htail
      · rename_i hmark
        obtain ⟨name, hname, hne, hletters⟩ := takeName?_letters htail
        exact ⟨name, by simp [Lexeme.ofTail, hmark, hname], hne, hletters⟩
      · simp at htail
    · apply fits_ofRun
      intro tail htail
      exact ⟨c, tail, rfl, hstarts, htail⟩
  · exact ⟨c, rfl⟩

theorem lexeme_length (c : Char) (cs : List Char) :
    (lexeme c cs).text.length + (lexeme c cs).rest.length = (c :: cs).length := by
  rw [← List.length_append, lexeme_append]

theorem flatMap_text_lexFrom (offset : Nat) (source : List Char) :
    (lexFrom offset source).flatMap text = source := by
  fun_induction lexFrom offset source with
  | case1 => rfl
  | case2 offset c cs next ih =>
      rw [List.flatMap_cons, ih]
      exact lexeme_append c cs

theorem le_of_mem_offsets {offset other : Nat} {source : List Char}
    (h : other ∈ (lexFrom offset source).map Token.offset ++ [offset + source.length]) :
    offset ≤ other := by
  fun_induction lexFrom offset source with
  | case1 offset =>
      simp only [List.map_nil, List.nil_append, List.mem_singleton] at h
      omega
  | case2 offset c cs next ih =>
      have hlength : next.text.length + next.rest.length = (c :: cs).length := lexeme_length c cs
      rw [List.map_cons, List.cons_append, List.mem_cons] at h
      rcases h with rfl | h
      · exact Nat.le_refl _
      · have hnext : offset + next.text.length ≤ other := by
          apply ih
          rwa [Nat.add_assoc, hlength]
        omega

theorem offsets_pairwise (offset : Nat) (source : List Char) :
    ((lexFrom offset source).map Token.offset ++ [offset + source.length]).Pairwise (· < ·) := by
  fun_induction lexFrom offset source with
  | case1 offset => simp
  | case2 offset c cs next ih =>
      have hlength : next.text.length + next.rest.length = (c :: cs).length := lexeme_length c cs
      have hrest : next.rest.length < (c :: cs).length := lexeme_rest_length c cs
      rw [Nat.add_assoc, hlength] at ih
      rw [List.map_cons, List.cons_append, List.pairwise_cons]
      refine ⟨?_, ih⟩
      intro other hother
      have hnext : offset + next.text.length ≤ other := by
        apply le_of_mem_offsets
        rwa [Nat.add_assoc, hlength]
      show offset < other
      omega

theorem genuine_of_mem_lexFrom {offset : Nat} {source : List Char} {token : Token}
    (h : token ∈ lexFrom offset source) : token.Genuine := by
  fun_induction lexFrom offset source with
  | case1 => simp at h
  | case2 offset c cs next ih =>
      rcases List.mem_cons.mp h with rfl | h
      · exact lexeme_fits c cs
      · exact ih h

theorem genuine_of_mem_lex {source : List Char} {token : Token} (h : token ∈ lex source) :
    token.Genuine :=
  genuine_of_mem_lexFrom h

end Token

end SmallLisp
