import Mathlib.Data.List.Chain
import SmallLisp.Editor.Session
import SmallLisp.Proofs.Lines
import SmallLisp.Proofs.Trailing

/-!
Words against tokens. In a line that reads, an atom between brackets has neighbours that set it
apart, and the word that an editor finds there is the atom just when it breaks words at them too.
-/

namespace SmallLisp

/-- Whether an item of a list can come right after a token of a kind. -/
def TokenKind.LeadsItem : TokenKind → Prop
  | blank | quote | opening _ => True
  | _ => False

/-- Whether a token of a kind can come right after an item of a list. -/
def TokenKind.FollowsItem : TokenKind → Prop
  | blank | closing _ => True
  | _ => False

namespace Token

theorem offset_of_lexFrom {offset : Nat} {source : List Char} {before after : List Token}
    {token : Token} (h : lexFrom offset source = before ++ token :: after) :
    token.offset = offset + (before.flatMap text).length := by
  induction before generalizing offset source with
  | nil =>
      obtain ⟨rest, -, hoffset, -⟩ := lexFrom_eq_cons_iff.mp h
      exact hoffset
  | cons first before ih =>
      obtain ⟨rest, -, -, -, -, hrest⟩ := lexFrom_eq_cons_iff.mp h
      rw [ih hrest.symm, List.flatMap_cons, List.length_append, Nat.add_assoc]

end Token

namespace Reader

/-- Whether one of two tokens sets them apart. -/
def Parted (left right : Token) : Prop :=
  left.kind.LeadsItem ∨ right.kind.FollowsItem

section
variable {options : Options} {strict : Bool} {source : List Char} {value : Value} {token : Token}
  {tokens before after taken : List Token}

mutual

theorem Derives.isChain_parted {tokens : List Token} {value : Value} :
    Derives strict tokens value → tokens.IsChain Parted
  | .leaf _ => List.isChain_singleton _
  | .quotation hmark hinner => by
      refine List.isChain_cons.mpr ⟨fun _ _ => .inl ?_, hinner.isChain_parted⟩
      rw [hmark]
      trivial
  | .empty hopener _ _ => by
      refine List.isChain_cons.mpr ⟨fun _ _ => .inl ?_, List.isChain_singleton _⟩
      rw [hopener]
      trivial
  | .list hopener hfirst hmore hcloser _ => by
      obtain ⟨hothers, hblank⟩ := Further.isChain_parted hmore
      have hitems := hfirst.isChain_parted.append hothers fun _ _ next hnext => .inr (by
        rw [hblank next hnext]
        trivial)
      refine List.isChain_cons.mpr ⟨fun _ _ => .inl ?_, hitems.append (List.isChain_singleton _) ?_⟩
      · rw [hopener]
        trivial
      · rintro _ - closer ⟨⟩
        refine .inr ?_
        rw [hcloser]
        trivial

theorem Further.isChain_parted {tokens : List Token} {values : List Value} :
    Further (Derives strict) tokens values →
      tokens.IsChain Parted ∧ ∀ token ∈ tokens.head?, token.kind = .blank
  | .none => ⟨List.isChain_nil, by simp⟩
  | .next hblank hitem hmore => by
      obtain ⟨hothers, hnext⟩ := Further.isChain_parted hmore
      have hitems := hitem.isChain_parted.append hothers fun _ _ next hmem => .inr (by
        rw [hnext next hmem]
        trivial)
      refine ⟨List.isChain_cons.mpr ⟨fun _ _ => .inl ?_, hitems⟩, by simpa using hblank⟩
      rw [hblank]
      trivial

end

theorem Derives.exists_closer (h : Derives strict tokens value) {opener : Token} {bracket : Bracket}
    (hmem : opener ∈ tokens) (hopener : opener.kind = .opening bracket) :
    ∃ init closer closing, tokens = init ++ [closer] ∧ closer.kind = .closing closing := by
  induction tokens generalizing value with
  | nil => cases hmem
  | cons first tokens ih =>
      cases h with
      | leaf hleaf =>
          obtain rfl := List.mem_singleton.mp hmem
          exact absurd hopener (hleaf.kind_ne.2.1 _)
      | quotation hmark hinner =>
          have hrest : opener ∈ tokens := by
            refine (List.mem_cons.mp hmem).resolve_left ?_
            rintro rfl
            cases hmark.symm.trans hopener
          obtain ⟨init, closer, closing, rfl, hcloser⟩ := ih hinner hrest
          exact ⟨first :: init, closer, closing, rfl, hcloser⟩
      | empty _ hcloser _ => exact ⟨[first], _, _, rfl, hcloser⟩
      | list _ _ _ hcloser _ => exact ⟨first :: _, _, _, rfl, hcloser⟩

/-- An item between brackets has a token before it and one after it that set it apart. -/
theorem Derives.exists_neighbours (h : Derives strict (before ++ token :: after) value)
    (hleads : ¬ token.kind.LeadsItem) (hfollows : ¬ token.kind.FollowsItem) {opener : Token}
    {bracket : Bracket} (hmem : opener ∈ before) (hopener : opener.kind = .opening bracket) :
    ∃ init left right rest, before = init ++ [left] ∧ after = right :: rest ∧
      left.kind.LeadsItem ∧ right.kind.FollowsItem := by
  obtain ⟨init, left, rfl⟩ := (List.eq_nil_or_concat' before).resolve_left (List.ne_nil_of_mem hmem)
  have hchain := h.isChain_parted
  cases after with
  | nil =>
      obtain ⟨others, closer, closing, hsplit, hcloser⟩ :=
        h.exists_closer (List.mem_append_left _ hmem) hopener
      obtain rfl : token = closer := by simpa using congrArg List.getLast? hsplit
      rw [hcloser] at hfollows
      exact absurd trivial hfollows
  | cons right rest =>
      rw [List.append_assoc, List.singleton_append, List.isChain_append_cons_cons,
        List.isChain_cons_cons] at hchain
      obtain ⟨-, hleft, hright, -⟩ := hchain
      exact ⟨init, left, right, rest, rfl, rfl, hleft.resolve_right hfollows,
        hright.resolve_left hleads⟩

theorem derives_of_consumed (h : read options source = .ok value)
    (htokens : taken ++ (Stream.ofSource options source).readExpression.2.tokens =
      Token.lex source) : Derives options.strict taken value := by
  obtain ⟨other, hother, hderives⟩ := derives_of_read h
  rcases read_of_derives options hother hderives with ⟨-, hrest⟩ | ⟨hdeep, -⟩
  · rw [tokens_readExpression, ← hrest] at htokens
    rwa [List.append_cancel_right htokens]
  · cases h.symm.trans hdeep

end

end Reader

namespace Document

open Text Editor

theorem inWord_eq_false_iff {c : Char} : inWord c = false ↔ c ∈ wordBreaks := by
  simp [inWord]

section
variable {kind : TokenKind} {cs before word after : List Char} {c d : Char} {column : Nat}

theorem inWord_of_atom (h : TokenKind.atom.Fits cs) : ∀ c ∈ cs, inWord c := by
  have hbreaks : ∀ c ∈ wordBreaks, Token.isDelimiter c :=
    List.all_eq_true.mp (by decide : wordBreaks.all Token.isDelimiter = true)
  have hclass (c : Char) (hc : Token.continuesAtom c) : inWord c := by
    by_contra hword
    have hdelimiter := hbreaks c (inWord_eq_false_iff.mp (Bool.eq_false_iff.mpr hword))
    rw [Token.isDelimiter_of_continuesAtom hc] at hdelimiter
    cases hdelimiter
  obtain ⟨first, rest, rfl, hfirst, hrest⟩ := h
  refine List.forall_mem_cons.mpr ⟨?_, fun c hc => hclass c (hrest c hc)⟩
  exact hclass first (Token.continuesAtom_of_startsAtom hfirst)

theorem exists_last_of_leadsItem (h : kind.Fits cs) (hleads : kind.LeadsItem) :
    ∃ init c, cs = init ++ [c] ∧ (isBlank c ∨ c ∈ wordBreaks) := by
  cases kind with
  | blank =>
      obtain ⟨init, c, rfl⟩ := (List.eq_nil_or_concat' cs).resolve_left h.1
      exact ⟨init, c, rfl, .inl (h.2 c (by simp))⟩
  | quote => exact ⟨[], '\'', h, .inr (by decide)⟩
  | opening bracket => exact ⟨[], bracket.opening, h, .inr (by cases bracket <;> decide)⟩
  | _ => exact hleads.elim

theorem exists_first_of_followsItem (h : kind.Fits cs) (hfollows : kind.FollowsItem) :
    ∃ c tail, cs = c :: tail ∧ (isBlank c ∨ c ∈ wordBreaks) := by
  cases kind with
  | blank =>
      obtain ⟨c, tail, rfl⟩ := List.exists_cons_of_ne_nil h.1
      exact ⟨c, tail, rfl, .inl (h.2 c (by simp))⟩
  | closing bracket => exact ⟨bracket.closing, [], h, .inr (by cases bracket <;> decide)⟩
  | _ => exact hfollows.elim

theorem wordIn_def (line : List Char) (column : Nat) :
    wordIn line column =
      if (line.take column).rtakeWhile inWord ++ (line.drop column).takeWhile inWord = [] then none
      else some ((line.take column).rtakeWhile inWord ++ (line.drop column).takeWhile inWord) :=
  rfl

theorem wordIn_of_run (hword : ∀ c ∈ word, inWord c) (hcolumn : column < word.length) :
    wordIn (before ++ (word ++ after)) (before.length + column) =
      some (before.rtakeWhile inWord ++ (word ++ after.takeWhile inWord)) := by
  have htake : ((before ++ (word ++ after)).take (before.length + column)).rtakeWhile inWord =
      before.rtakeWhile inWord ++ word.take column := by
    have hpart : ∀ c ∈ (word.take column).reverse, inWord c := fun c hc =>
      hword c (List.mem_of_mem_take (List.mem_reverse.mp hc))
    rw [List.take_length_add_append, List.take_append_of_le_length (Nat.le_of_lt hcolumn),
      List.rtakeWhile, List.reverse_append, List.takeWhile_append_of_pos hpart,
      List.reverse_append, List.reverse_reverse, List.rtakeWhile]
  have hdrop : ((before ++ (word ++ after)).drop (before.length + column)).takeWhile inWord =
      word.drop column ++ after.takeWhile inWord := by
    have hpart : ∀ c ∈ word.drop column, inWord c := fun c hc => hword c (List.mem_of_mem_drop hc)
    rw [List.drop_length_add_append, List.drop_append_of_le_length (Nat.le_of_lt hcolumn),
      List.takeWhile_append_of_pos hpart]
  have hparts : before.rtakeWhile inWord ++ word.take column ++
      (word.drop column ++ after.takeWhile inWord) =
        before.rtakeWhile inWord ++ (word ++ after.takeWhile inWord) := by
    rw [List.append_assoc, ← List.append_assoc (word.take column), List.take_append_drop]
  have hne : before.rtakeWhile inWord ++ (word ++ after.takeWhile inWord) ≠ [] := by
    simp [List.ne_nil_of_length_pos (Nat.zero_lt_of_lt hcolumn)]
  rw [wordIn_def, htake, hdrop, hparts, if_neg hne]

theorem wordIn_eq_run_iff (hword : ∀ c ∈ word, inWord c) (hcolumn : column < word.length) :
    wordIn (before ++ c :: (word ++ d :: after)) (before.length + 1 + column) = some word ↔
      c ∈ wordBreaks ∧ d ∈ wordBreaks := by
  have hsplit : before ++ c :: (word ++ d :: after) = (before ++ [c]) ++ (word ++ d :: after) := by
    simp
  have hlength : before.length + 1 = (before ++ [c]).length := by simp
  rw [hsplit, hlength, wordIn_of_run hword hcolumn, ← inWord_eq_false_iff, ← inWord_eq_false_iff,
    Option.some.injEq]
  constructor
  · intro h
    have hlengths := congrArg List.length h
    simp only [List.length_append] at hlengths
    constructor
    · by_contra hc
      rw [List.rtakeWhile_concat_pos _ _ _ (by simpa using hc)] at hlengths
      simp only [List.length_append, List.length_singleton] at hlengths
      omega
    · by_contra hd
      rw [List.takeWhile_cons_of_pos (by simpa using hd)] at hlengths
      simp only [List.length_cons] at hlengths
      omega
  · rintro ⟨hc, hd⟩
    rw [List.rtakeWhile_concat_neg _ _ _ (by simpa using hc),
      List.takeWhile_cons_of_neg (by simpa using hd), List.append_nil, List.nil_append]

theorem hover?_of_word {document : OpenDocument} {number : Nat} {call : String}
    (hword : wordAt document.text number column = some word)
    (hcall : signature? (String.ofList word) = some call) :
    document.hover? number column = some call := by
  simp [OpenDocument.hover?, hword, hcall]

end

section
variable {interpreter : Interpreter} {text line : List Char} {number : Nat} {value : Value}
  {before after : List Token} {token opener : Token} {bracket : Bracket}

theorem exists_split_at_token (h : Token.lex (trim line) = before ++ token :: after) :
    ∃ left right, line = left ++ (before.flatMap Token.text ++
        (token.text ++ (after.flatMap Token.text ++ right))) ∧
      left.length + (before.flatMap Token.text).length =
        line.length - (trimLeft line).length + token.offset := by
  obtain ⟨left, right, hline, hlength⟩ := exists_margins line
  have htexts : before.flatMap Token.text ++ (token.text ++ after.flatMap Token.text) =
      trim line := by
    have hsource := Token.flatMap_text_lexFrom 0 (trim line)
    rwa [show Token.lexFrom 0 (trim line) = _ from h, List.flatMap_append, List.flatMap_cons]
      at hsource
  refine ⟨left, right, ?_, ?_⟩
  · rw [← htexts, List.append_assoc, List.append_assoc] at hline
    exact hline
  · rw [hlength, Token.offset_of_lexFrom h, Nat.zero_add]

theorem exists_edges_of_token {leader follower : Token}
    (h : Token.lex (trim line) = before ++ leader :: token :: follower :: after)
    (hleads : leader.kind.LeadsItem) (hfollows : follower.kind.FollowsItem) :
    ∃ left c d right, line = left ++ c :: (token.text ++ d :: right) ∧
      left.length + 1 = line.length - (trimLeft line).length + token.offset ∧
      (isBlank c ∨ c ∈ wordBreaks) ∧ (isBlank d ∨ d ∈ wordBreaks) := by
  have hgenuine : ∀ found ∈ Token.lex (trim line), found.Genuine := fun _ =>
    Token.genuine_of_mem_lex
  rw [h] at hgenuine
  obtain ⟨init, c, hleader, hc⟩ := exists_last_of_leadsItem (hgenuine leader (by simp)) hleads
  obtain ⟨d, tail, hfollower, hd⟩ :=
    exists_first_of_followsItem (hgenuine follower (by simp)) hfollows
  rw [List.append_cons] at h
  obtain ⟨margin, right, hline, hoffset⟩ := exists_split_at_token h
  rw [List.flatMap_append, List.flatMap_singleton, hleader] at hline hoffset
  rw [List.flatMap_cons, hfollower] at hline
  refine ⟨margin ++ (before.flatMap Token.text ++ init), c, d,
    tail ++ (after.flatMap Token.text ++ right), ?_, ?_, hc, hd⟩
  · simpa using hline
  · simpa [Nat.add_assoc] using hoffset

/-- In a line that reads, every atom between brackets is between two characters each of which is a
blank or breaks words. At each place in the atom the word is the atom exactly if both of them break
words, and then the name of a call shows that call. -/
theorem word_eq_atom_iff (hline : (lines text)[number]? = some line)
    (hread : interpreter.read (String.ofList (trim line)) = .ok value)
    (htokens : before ++ token :: after ++
        (Reader.Stream.ofSource interpreter.options (trim line)).readExpression.2.tokens =
      Token.lex (trim line))
    (hatom : token.kind = .atom) (hmem : opener ∈ before)
    (hopener : opener.kind = .opening bracket) :
    ∃ left c d right, line = left ++ c :: (token.text ++ d :: right) ∧
      left.length + 1 = line.length - (trimLeft line).length + token.offset ∧
      (isBlank c ∨ c ∈ wordBreaks) ∧ (isBlank d ∨ d ∈ wordBreaks) ∧
      ∀ column, left.length + 1 ≤ column → column < left.length + 1 + token.text.length →
        (wordAt text number column = some token.text ↔ c ∈ wordBreaks ∧ d ∈ wordBreaks) ∧
        (c ∈ wordBreaks → d ∈ wordBreaks → ∀ call reports,
          signature? (String.ofList token.text) = some call →
            OpenDocument.hover? { text, reports } number column = some call) := by
  rw [Interpreter.read, String.toList_ofList] at hread
  have hderives := Reader.derives_of_consumed hread htokens
  obtain ⟨init, leader, follower, rest, rfl, rfl, hleads, hfollows⟩ :=
    hderives.exists_neighbours (by rw [hatom]; exact id) (by rw [hatom]; exact id) hmem hopener
  rw [List.append_assoc, List.append_assoc, List.singleton_append] at htokens
  have hword : ∀ c ∈ token.text, inWord c := by
    have hmem : token ∈ Token.lex (trim line) := by
      rw [← htokens]
      simp
    have hgenuine := Token.genuine_of_mem_lex hmem
    rw [Token.Genuine, hatom] at hgenuine
    exact inWord_of_atom hgenuine
  obtain ⟨left, c, d, right, rfl, hstart, hc, hd⟩ :=
    exists_edges_of_token htokens.symm hleads hfollows
  refine ⟨left, c, d, right, rfl, hstart, hc, hd, fun column hleft hright => ?_⟩
  have hagree : wordAt text number column = some token.text ↔ c ∈ wordBreaks ∧ d ∈ wordBreaks := by
    obtain ⟨place, rfl⟩ := Nat.exists_eq_add_of_le hleft
    rw [wordAt, hline]
    exact wordIn_eq_run_iff hword (by omega)
  refine ⟨hagree, fun hc hd call reports hcall => ?_⟩
  exact hover?_of_word (hagree.mpr ⟨hc, hd⟩) hcall

end

/-- A sum of two numbers with some character after its name. -/
def sumWith (c : Char) : List Char :=
  ['(', '+', c, '1', ' ', '2', ')']

/-- The tokens of such a sum after its name, when the character is a blank. -/
def tokensAfterName (c : Char) : List Token :=
  [{ kind := .blank, text := [c], offset := 2 },
    { kind := .integer, text := ['1'], offset := 3 },
    { kind := .blank, text := [' '], offset := 4 },
    { kind := .integer, text := ['2'], offset := 5 },
    { kind := .closing .round, text := [')'], offset := 6 }]

def sumOpener : Token :=
  { kind := .opening .round, text := ['('], offset := 0 }

def sumName : Token :=
  { kind := .atom, text := ['+'], offset := 1 }

theorem read_sumWith {c : Char}
    (hlex : Token.lex (sumWith c) = sumOpener :: sumName :: tokensAfterName c) :
    Interpreter.read { strict := false } (String.ofList (sumWith c)) =
        .ok (.list [.symbol "+", .integer 1, .integer 2]) ∧
      [sumOpener] ++ sumName :: tokensAfterName c ++ (Reader.Stream.ofSource
          (Interpreter.options { strict := false }) (sumWith c)).readExpression.2.tokens =
        Token.lex (sumWith c) := by
  constructor
  · rw [Interpreter.read, String.toList_ofList, Reader.read_eq, Reader.reading, hlex]
    rfl
  · rw [Reader.tokens_readExpression, Reader.reading, hlex]
    rfl

theorem word_eq_atom_sum :
    wordAt (sumWith ' ') 0 1 = some ['+'] ∧
      OpenDocument.hover? { text := sumWith ' ', reports := [] } 0 1 =
        some "(+ n1 n2 &rest ns)" := by
  have hline : (lines (sumWith ' '))[0]? = some (sumWith ' ') := rfl
  have htrim : trim (sumWith ' ') = sumWith ' ' := by decide
  have hleft : (sumWith ' ').length - (trimLeft (sumWith ' ')).length = 0 := by decide
  obtain ⟨hread, htokens⟩ := read_sumWith (c := ' ') (by decide +kernel)
  obtain ⟨left, c, d, right, hsplit, hstart, -, -, hall⟩ :=
    word_eq_atom_iff hline (by rwa [htrim]) (by rwa [htrim]) rfl List.mem_cons_self rfl
  rw [hleft] at hstart
  obtain rfl : left = [] := List.length_eq_zero_iff.mp (by simpa [sumName] using hstart)
  obtain ⟨rfl, hrest⟩ := List.cons.inj hsplit
  obtain ⟨rfl, -⟩ := List.cons.inj (List.cons.inj hrest).2
  obtain ⟨hword, hcall⟩ := hall 1 (by decide) (by decide)
  exact ⟨hword.mpr (by decide), hcall (by decide) (by decide) _ _ (by decide)⟩

/-- With a no-break space after it the name is still a token of its own, but the word at its place
goes on. -/
theorem word_past_name_of_sum :
    lines (sumWith '\u00a0') = [sumWith '\u00a0'] ∧ trim (sumWith '\u00a0') = sumWith '\u00a0' ∧
      Interpreter.read { strict := false } (String.ofList (sumWith '\u00a0')) =
        .ok (.list [.symbol "+", .integer 1, .integer 2]) ∧
      [sumOpener] ++ sumName :: tokensAfterName '\u00a0' ++ (Reader.Stream.ofSource
          (Interpreter.options { strict := false }) (sumWith '\u00a0')).readExpression.2.tokens =
        Token.lex (sumWith '\u00a0') ∧
      wordAt (sumWith '\u00a0') 0 sumName.offset = some ['+', '\u00a0', '1'] ∧
        sumName.text = ['+'] := by
  obtain ⟨hread, htokens⟩ := read_sumWith (c := '\u00a0') (by decide +kernel)
  exact ⟨by decide, by decide, hread, htokens, by decide, rfl⟩

end Document

end SmallLisp
