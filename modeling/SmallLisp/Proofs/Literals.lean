import SmallLisp.Proofs.RoundTrip

namespace SmallLisp

namespace Escape

/-- Whether the last character of a text is a backslash that belongs to no escape. -/
def EndsAlone (body : List Char) : Prop :=
  ∃ before content, body = before ++ ['\\'] ∧ Encodes before content

theorem Encodes.not_endsAlone {body content : List Char} (h : Encodes body content) :
    ¬ EndsAlone body := by
  rintro ⟨before, meaning, rfl, hbefore⟩
  induction hbefore generalizing content with
  | nil =>
      cases h with
      | plain _ hbackslash _ => exact hbackslash rfl
  | @plain c before _ _ hbackslash _ ih =>
      rw [List.cons_append] at h
      generalize before ++ ['\\'] = rest at h ih
      cases h with
      | plain _ _ hrest => exact ih hrest
      | escape _ _ => exact hbackslash rfl
  | @escape mark _ before _ _ _ ih =>
      rw [List.cons_append, List.cons_append] at h
      generalize before ++ ['\\'] = rest at h ih
      cases h with
      | plain _ hbackslash _ => exact hbackslash rfl
      | escape _ hrest => exact ih hrest

/-- The literal with a text between its quotes. -/
def literal (body : List Char) : List Char :=
  '"' :: (body ++ ['"'])

end Escape

open Escape (Encodes literal)

/-- The text of a literal without its quotes. -/
def Token.inside (token : Token) : List Char :=
  (token.text.drop 1).dropLast

theorem Token.inside_of_literal {token : Token} {body : List Char} (h : token.text = literal body) :
    token.inside = body := by
  simp [inside, h, literal]

theorem Token.lex_literal {body content : List Char} (h : Encodes body content) :
    lex (literal body) = [{ kind := .text, text := literal body, offset := 0 }] := by
  have hfits : TokenKind.text.Fits (literal body) := ⟨body, content, rfl, h⟩
  have hlex : lexFrom 0 (literal body ++ []) = _ := lexFrom_text hfits
  rw [lex, ← List.append_nil (literal body), hlex, List.append_nil, lexFrom]

theorem Reader.read_literal {body : List Char} {content : String}
    (h : Encodes body content.toList) (options : Options) :
    read options (literal body) = .ok (.text content) := by
  have hleaf : Leaf { kind := .text, text := literal body, offset := 0 }
      (.text (String.ofList content.toList)) := .text rfl rfl h.decode_eq
  rw [String.ofList_toList] at hleaf
  have hprefix : [{ kind := .text, text := literal body, offset := 0 }] <+:
      Token.lex (literal body) :=
    ⟨[], by rw [Token.lex_literal h, List.append_nil]⟩
  rcases read_of_derives options hprefix (.leaf hleaf) with ⟨hread, -⟩ | ⟨-, hdeep⟩
  · exact hread
  · simp at hdeep

/-- Every way to write a text between double quotes is one token, which reads as the text. What
stands between the quotes of any token of this kind is a way to write the text that it is decoded
to, with no backslash left alone at its end. -/
theorem literals_decode :
    (∀ (body : List Char) (content : String), Encodes body content.toList →
      Token.lex (literal body) = [{ kind := .text, text := literal body, offset := 0 }] ∧
        ∀ options, Reader.read options (literal body) = .ok (.text content)) ∧
    ∀ (source : List Char), ∀ token ∈ Token.lex source, token.kind = .text →
      token.text = literal token.inside ∧ ¬ Escape.EndsAlone token.inside ∧
        ∃ content, Escape.decode token.inside = .ok content ∧ Encodes token.inside content := by
  constructor
  · intro body content hencodes
    exact ⟨Token.lex_literal hencodes, Reader.read_literal hencodes⟩
  · intro source token htoken hkind
    have hgenuine := Token.genuine_of_mem_lex htoken
    rw [Token.Genuine, hkind] at hgenuine
    obtain ⟨body, content, htext, hencodes⟩ := hgenuine
    rw [Token.inside_of_literal htext]
    exact ⟨htext, hencodes.not_endsAlone, content, hencodes.decode_eq, hencodes⟩

theorem literals_decode_mixed :
    (∀ options, Reader.read options "\"\\\\\\\"\t\\n\n\"".toList = .ok (.text "\\\"\t\n\n")) ∧
    ∃ content, Escape.decode "\\\\\\\"\t\\n\n".toList = .ok content ∧
      Encodes "\\\\\\\"\t\\n\n".toList content := by
  have hencodes : Encodes "\\\\\\\"\t\\n\n".toList "\\\"\t\n\n".toList :=
    .escape rfl (.escape rfl (.plain (by decide) (by decide)
      (.escape rfl (.plain (by decide) (by decide) .nil))))
  obtain ⟨hlex, hread⟩ := literals_decode.1 _ _ hencodes
  obtain ⟨-, -, hcontent⟩ := literals_decode.2 _ _ (hlex ▸ List.mem_singleton_self _) rfl
  exact ⟨hread, hcontent⟩

end SmallLisp
