import Mathlib.Algebra.Group.Nat.Defs
import Mathlib.Tactic.SplitIfs
import SmallLisp.Json.Reader
import SmallLisp.Json.Writer

namespace SmallLisp

open Text

namespace Text

theorem hexDigit?_digitChar {digit : Nat} (h : digit < 16) :
    hexDigit? digit.digitChar = some digit := by
  have hdigits : ∀ digit < 16, hexDigit? digit.digitChar = some digit := by decide
  exact hdigits digit h

theorem hexValue_concat (digits : List Char) (c : Char) :
    hexValue (digits ++ [c]) = 16 * hexValue digits + (hexDigit? c).getD 0 := by
  simp [hexValue]

theorem hexValue_zeros (count : Nat) (digits : List Char) :
    hexValue (List.replicate count '0' ++ digits) = hexValue digits := by
  induction count with
  | zero => rfl
  | succ count ih => exact ih

theorem hexValue_toDigits (code : Nat) : hexValue (Nat.toDigits 16 code) = code := by
  induction code using Nat.strongRecOn with
  | ind code ih =>
      rw [Nat.toDigits_eq_if (by decide)]
      split
      · rename_i hsmall
        simp [hexValue, hexDigit?_digitChar hsmall]
      · rename_i hlarge
        have hlast : code % 16 < 16 := Nat.mod_lt code (by decide)
        rw [hexValue_concat, ih (code / 16) (by omega), hexDigit?_digitChar hlast]
        exact Nat.div_add_mod code 16

theorem isHexDigit_of_mem_toDigits (code : Nat) : ∀ c ∈ Nat.toDigits 16 code, isHexDigit c := by
  have hdigit {digit : Nat} (h : digit < 16) : isHexDigit digit.digitChar := by
    simp [isHexDigit, hexDigit?_digitChar h]
  induction code using Nat.strongRecOn with
  | ind code ih =>
      rw [Nat.toDigits_eq_if (by decide)]
      split
      · rename_i hsmall
        simpa using hdigit hsmall
      · rename_i hlarge
        intro c hc
        rcases List.mem_append.mp hc with hc | hc
        · exact ih (code / 16) (by omega) c hc
        · rw [List.mem_singleton.mp hc]
          exact hdigit (Nat.mod_lt code (by decide))

theorem exists_hex {unit : Nat} (h : unit < 0x10000) :
    ∃ a b c d, Quoted.hex 4 unit = [a, b, c, d] ∧ [a, b, c, d].all isHexDigit ∧
      hexValue [a, b, c, d] = unit := by
  have hfew : (Nat.toDigits 16 unit).length ≤ 4 :=
    (Nat.length_toDigits_le_iff (by decide) (by decide)).mpr h
  have hlength : (Quoted.hex 4 unit).length = 4 := by
    simp only [Quoted.hex, List.length_append, List.length_replicate]
    omega
  have hdigits : ∀ c ∈ Quoted.hex 4 unit, isHexDigit c := by
    intro c hc
    rcases List.mem_append.mp hc with hzero | hdigit
    · rw [List.eq_of_mem_replicate hzero]
      decide
    · exact isHexDigit_of_mem_toDigits unit c hdigit
  have hvalue : hexValue (Quoted.hex 4 unit) = unit := by
    simp only [Quoted.hex]
    rw [hexValue_zeros, hexValue_toDigits]
  match hhex : Quoted.hex 4 unit, hlength with
  | [a, b, c, d], _ =>
      rw [hhex] at hdigits hvalue
      exact ⟨a, b, c, d, rfl, List.all_eq_true.mpr hdigits, hvalue⟩

end Text

namespace Json

section
variable {rest after : List Char} {points : List CodePoint}

theorem takeString?_plain {c : Char} (hcontrol : ¬ c < ' ') (hquote : c ≠ '"') (hescape : c ≠ '\\')
    (hrest : Token.takeString? rest = some (points, after)) :
    Token.takeString? (c :: rest) = some (.char c :: points, after) := by
  rw [Token.takeString?]
  · simp [hcontrol, hescape, hrest]
  · exact hquote
  · simp [hescape]
  · simp [hescape]

theorem takeString?_escape {mark c : Char} (hmark : Token.escapes.lookup mark = some c)
    (hunit : mark ≠ 'u') (hrest : Token.takeString? rest = some (points, after)) :
    Token.takeString? ('\\' :: mark :: rest) = some (.char c :: points, after) := by
  rw [Token.takeString?]
  · rw [hmark, hrest]
    rfl
  · simp [hunit]

theorem takeString?_escapeUnit {unit : Nat} (h : unit < 0x10000)
    (hrest : Token.takeString? rest = some (points, after)) :
    Token.takeString? (escapeUnit unit ++ rest) =
      some (Token.consPoint (Token.unitPoint unit) points, after) := by
  obtain ⟨a, b, c, d, hhex, hdigits, hvalue⟩ := exists_hex h
  simp only [escapeUnit, hhex, List.cons_append, List.nil_append]
  rw [Token.takeString?, if_pos hdigits, hrest, hvalue]
  rfl

theorem unitPoint_surrogate {unit : Nat} (h : 0xd800 ≤ unit) (hlast : unit < 0xe000) :
    Token.unitPoint unit = .surrogate unit :=
  if_pos ⟨h, hlast⟩

theorem consPoint_trailing {low : Nat} (h : 0xdc00 ≤ low) (points : List CodePoint) :
    Token.consPoint (.surrogate low) points = .surrogate low :: points := by
  unfold Token.consPoint
  split
  · rename_i high _ _ hpoint
    obtain rfl := CodePoint.surrogate.inj hpoint
    rw [if_neg (by omega)]
  · rfl

theorem consPoint_leading {high low : Nat} (hhigh : high < 0xdc00) (hlow : 0xdc00 ≤ low)
    (points : List CodePoint) :
    Token.consPoint (.surrogate high) (.surrogate low :: points) =
      .char (Char.ofNat (0x10000 + (high - 0xd800) * 0x400 + (low - 0xdc00))) :: points :=
  if_pos ⟨hhigh, hlow⟩

theorem takeString?_escapeCode (c : Char) (hrest : Token.takeString? rest = some (points, after)) :
    Token.takeString? (escapeCode c.toNat ++ rest) = some (.char c :: points, after) := by
  have hvalid : c.toNat < 0xd800 ∨ 0xdfff < c.toNat ∧ c.toNat < 0x110000 := c.valid
  unfold escapeCode
  split
  · rename_i hunit
    have hpoint : Token.unitPoint c.toNat = .char c := by
      rw [Token.unitPoint, if_neg (by omega), Char.ofNat_toNat]
    rw [takeString?_escapeUnit hunit hrest, hpoint]
    rfl
  · rename_i hunit
    generalize hoffset : c.toNat - 0x10000 = offset
    have hhigh : 0xd800 + offset / 0x400 < 0xdc00 := by omega
    have hlow : 0xdc00 + offset % 0x400 < 0xe000 := by omega
    have htrailing := takeString?_escapeUnit (Nat.lt_trans hlow (by decide)) hrest
    have hleading := takeString?_escapeUnit (Nat.lt_trans hhigh (by decide)) htrailing
    have hcode : 0x10000 + (0xd800 + offset / 0x400 - 0xd800) * 0x400 +
        (0xdc00 + offset % 0x400 - 0xdc00) = c.toNat := by
      omega
    rw [unitPoint_surrogate (by omega) hlow, consPoint_trailing (by omega),
      unitPoint_surrogate (by omega) (by omega), consPoint_leading hhigh (by omega), hcode,
      Char.ofNat_toNat] at hleading
    simpa only [List.append_assoc] using hleading

theorem encodeChar_cases (c : Char) :
    (∃ mark, encodeChar c = ['\\', mark] ∧ Token.escapes.lookup mark = some c ∧ mark ≠ 'u') ∨
      (encodeChar c = [c] ∧ ¬ c < ' ' ∧ c ≠ '"' ∧ c ≠ '\\') ∨
        encodeChar c = escapeCode c.toNat := by
  unfold encodeChar
  split_ifs with hquote hescape hline hreturn htab hfeed hback hplain
  · subst hquote
    exact .inl ⟨'"', rfl, by decide, by decide⟩
  · subst hescape
    exact .inl ⟨'\\', rfl, by decide, by decide⟩
  · subst hline
    exact .inl ⟨'n', rfl, by decide, by decide⟩
  · subst hreturn
    exact .inl ⟨'r', rfl, by decide, by decide⟩
  · subst htab
    exact .inl ⟨'t', rfl, by decide, by decide⟩
  · subst hfeed
    exact .inl ⟨'f', rfl, by decide, by decide⟩
  · subst hback
    exact .inl ⟨'b', rfl, by decide, by decide⟩
  · exact .inr (.inl ⟨rfl, by simpa using hplain.1, hquote, hescape⟩)
  · exact .inr (.inr rfl)

theorem takeString?_encodeChar (c : Char) (hrest : Token.takeString? rest = some (points, after)) :
    Token.takeString? (encodeChar c ++ rest) = some (.char c :: points, after) := by
  rcases encodeChar_cases c with ⟨mark, hc, hmark, hunit⟩ | ⟨hc, hcontrol, hquote, hescape⟩ | hc
  · rw [hc]
    exact takeString?_escape hmark hunit hrest
  · rw [hc]
    exact takeString?_plain hcontrol hquote hescape hrest
  · rw [hc]
    exact takeString?_escapeCode c hrest

end

theorem takeString?_encode (text rest : List Char) :
    Token.takeString? ((CodePoint.ofText text).flatMap encodePoint ++ '"' :: rest) =
      some (CodePoint.ofText text, rest) := by
  induction text with
  | nil => rw [CodePoint.ofText, List.map_nil, List.flatMap_nil, List.nil_append, Token.takeString?]
  | cons c text ih =>
      have hfirst := takeString?_encodeChar c ih
      simpa only [CodePoint.ofText, List.map_cons, List.flatMap_cons, encodePoint,
        List.append_assoc] using hfirst

theorem tokens_encodeString (text rest : List Char) :
    tokens (encodeString (CodePoint.ofText text) ++ rest) =
      .string (CodePoint.ofText text) :: tokens rest := by
  have htake := takeString?_encode text rest
  have hstring : encodeString (CodePoint.ofText text) ++ rest =
      '"' :: ((CodePoint.ofText text).flatMap encodePoint ++ '"' :: rest) := by
    simp [encodeString]
  rw [hstring, tokens]
  simp [Token.isSpace, Token.next, htake]

theorem tokens_mark {c : Char} {token : Token} (hspace : Token.isSpace c = false)
    (hnext : ∀ rest, Token.next c rest = (token, rest)) (rest : List Char) :
    tokens (c :: rest) = token :: tokens rest := by
  rw [tokens, hspace, hnext]
  rfl

theorem tokens_encode_object (name text other content : List Char) :
    tokens (encode (.object
      [(CodePoint.ofText name, .string (CodePoint.ofText text)),
       (CodePoint.ofText other, .string (CodePoint.ofText content))])) =
      [.openObject, .string (CodePoint.ofText name), .colon, .string (CodePoint.ofText text),
       .comma, .string (CodePoint.ofText other), .colon, .string (CodePoint.ofText content),
       .closeObject] := by
  have hopen (rest : List Char) : tokens ('\x7b' :: rest) = .openObject :: tokens rest :=
    tokens_mark rfl (fun _ => rfl) rest
  have hclose (rest : List Char) : tokens ('\x7d' :: rest) = .closeObject :: tokens rest :=
    tokens_mark rfl (fun _ => rfl) rest
  have hcolon (rest : List Char) : tokens (':' :: rest) = .colon :: tokens rest :=
    tokens_mark rfl (fun _ => rfl) rest
  have hcomma (rest : List Char) : tokens (',' :: rest) = .comma :: tokens rest :=
    tokens_mark rfl (fun _ => rfl) rest
  have hspace (rest : List Char) : tokens (' ' :: rest) = tokens rest := by
    rw [tokens]
    rfl
  have hend : tokens [] = [] := by rw [tokens]
  simp only [encode, encodeMembers, List.cons_append, List.nil_append, List.append_assoc]
  rw [hopen, tokens_encodeString, hcolon, hspace, tokens_encodeString, hcomma, hspace,
    tokens_encodeString, hcolon, hspace, tokens_encodeString, hclose, hend]

end Json

namespace Service

/-- The request to evaluate code. -/
def evaluation (code : List Char) : Json :=
  .object
    [(CodePoint.ofText "cmd".toList, .string (CodePoint.ofText "eval".toList)),
     (CodePoint.ofText "code".toList, .string (CodePoint.ofText code))]

theorem decode_encode_evaluation {levels : Nat} (h : 0 < levels) (code : List Char) :
    Json.decode levels (evaluation code).encode = .ok (evaluation code) := by
  rw [Json.decode, evaluation, Json.tokens_encode_object]
  obtain ⟨levels, rfl⟩ := Nat.exists_eq_add_one_of_ne_zero (Nat.ne_of_gt h)
  rfl

end Service

end SmallLisp
