import SmallLisp.Proofs.Lexeme
import SmallLisp.Proofs.Tree
import SmallLisp.Reader.Stream

namespace SmallLisp.Reader

/-- A token that is an expression by itself, and its value. -/
inductive Leaf (token : Token) : Value → Prop
  | truth : token.kind = .atom → token.text = ['#', 't'] → Leaf token (.boolean true)
  | falsity : token.kind = .atom → token.text = ['#', 'f'] → Leaf token (.boolean false)
  | symbol : token.kind = .atom → token.text ≠ ['#', 't'] → token.text ≠ ['#', 'f'] →
      Leaf token (.symbol (String.ofList token.text))
  | text {body content : List Char} : token.kind = .text → token.text = '"' :: (body ++ ['"']) →
      Escape.decode body = .ok content → Leaf token (.text (String.ofList content))
  | letter {c : Char} : token.kind = .character → token.text = ['#', '\\', c] →
      Text.isLetter c → Leaf token (.character c)
  | named {name : List Char} {c : Char} : token.kind = .character →
      token.text = '#' :: '\\' :: name → CharacterName.char? name = some c →
        Leaf token (.character c)
  | integer : token.kind = .integer → token.text.length ≤ Text.digitLimit →
      Leaf token (.integer (Text.decimalValue token.text))
  | decimal : token.kind = .decimal → Leaf token (.decimal (decimalOf token.text))

/-- Whether a bracket can close another one: any can, unless brackets have to match. -/
def Pairs (strict : Bool) (opening closing : Bracket) : Prop :=
  strict = true → closing = opening

/-- Further items of a list, each after a blank. -/
inductive Further (item : List Token → Value → Prop) : List Token → List Value → Prop
  | none : Further item [] []
  | next {blank : Token} {tokens more : List Token} {value : Value} {values : List Value} :
      blank.kind = .blank → item tokens value → Further item more values →
        Further item (blank :: (tokens ++ more)) (value :: values)

/-- The tokens of an expression and its value. -/
inductive Derives (strict : Bool) : List Token → Value → Prop
  | leaf {token : Token} {value : Value} : Leaf token value → Derives strict [token] value
  | quotation {mark : Token} {tokens : List Token} {value : Value} :
      mark.kind = .quote → Derives strict tokens value →
        Derives strict (mark :: tokens) value.quotation
  | empty {opener closer : Token} {bracket closing : Bracket} :
      opener.kind = .opening bracket → closer.kind = .closing closing →
        Pairs strict bracket closing → Derives strict [opener, closer] (.list [])
  | list {opener closer : Token} {bracket closing : Bracket} {tokens more : List Token}
      {value : Value} {values : List Value} :
      opener.kind = .opening bracket → Derives strict tokens value →
        Further (Derives strict) more values → closer.kind = .closing closing →
          Pairs strict bracket closing →
            Derives strict (opener :: (tokens ++ more ++ [closer])) (.list (value :: values))

theorem char?_singleton (c : Char) : CharacterName.char? [c] = none := by
  apply List.lookup_eq_none_iff.mpr
  intro entry hentry
  have hlength : entry.1.toList.length ≠ 1 := by
    revert entry
    decide
  apply bne_iff_ne.mpr
  intro heq
  apply hlength
  rw [← heq]
  simp

theorem begin_of_leaf (options : Options) (stack : List Frame) {token : Token} {value : Value}
    (h : Leaf token value) : begin options stack token = complete value stack := by
  cases h with
  | truth hkind htext => simp [begin, hkind, atomValue, htext]
  | falsity hkind htext => simp [begin, hkind, atomValue, htext]
  | symbol hkind ht hf => simp [begin, hkind, atomValue, ht, hf]
  | text hkind htext hdecode => simp [begin, hkind, htext, hdecode]
  | letter hkind htext _ => simp [begin, hkind, htext, characterOf?]
  | @named name c hkind htext hname =>
      have hchar : characterOf? name = some c := by
        unfold characterOf?
        split
        · simp [char?_singleton] at hname
        · exact hname
      simp [begin, hkind, htext, hchar]
  | integer hkind hlength => simp [begin, hkind, hlength]
  | decimal hkind => simp [begin, hkind]

theorem Leaf.unique {token : Token} {value other : Value} (h : Leaf token value)
    (hother : Leaf token other) : value = other := by
  have heq := (begin_of_leaf ⟨false, 0⟩ [] h).symm.trans (begin_of_leaf ⟨false, 0⟩ [] hother)
  simpa [complete] using heq

theorem Leaf.kind_ne {token : Token} {value : Value} (h : Leaf token value) :
    token.kind ≠ .quote ∧ (∀ bracket, token.kind ≠ .opening bracket) ∧
      (∀ bracket, token.kind ≠ .closing bracket) ∧ token.kind ≠ .blank := by
  cases h <;> simp_all

theorem not_derives_nil {strict : Bool} {value : Value} : ¬ Derives strict [] value := by
  intro h
  cases h

theorem derives_leaf_iff {strict : Bool} {token : Token} {tokens : List Token}
    {value other : Value} (h : Leaf token value) :
    Derives strict (token :: tokens) other ↔ tokens = [] ∧ other = value := by
  constructor
  · intro hderives
    cases hderives with
    | leaf hother => exact ⟨rfl, hother.unique h⟩
    | quotation hmark _ => exact absurd hmark h.kind_ne.1
    | empty hopener _ _ => exact absurd hopener (h.kind_ne.2.1 _)
    | list hopener _ _ _ _ => exact absurd hopener (h.kind_ne.2.1 _)
  · rintro ⟨rfl, rfl⟩
    exact .leaf h

theorem derives_quote_iff {strict : Bool} {mark : Token} {tokens : List Token} {value : Value}
    (hmark : mark.kind = .quote) :
    Derives strict (mark :: tokens) value ↔
      ∃ inner : Value, Derives strict tokens inner ∧ value = inner.quotation := by
  constructor
  · intro hderives
    cases hderives with
    | leaf hleaf => exact absurd hmark hleaf.kind_ne.1
    | quotation _ hinner => exact ⟨_, hinner, rfl⟩
    | empty hopener _ _ => simp [hmark] at hopener
    | list hopener _ _ _ _ => simp [hmark] at hopener
  · rintro ⟨inner, hinner, rfl⟩
    exact .quotation hmark hinner

theorem Further.mem {item : List Token → Value → Prop} {tokens : List Token} {values : List Value}
    (h : Further item tokens values) {value : Value} (hvalue : value ∈ values) :
    ∃ taken, taken ⊆ tokens ∧ item taken value := by
  induction h with
  | none => simp at hvalue
  | next _ hitem _ ih =>
      rcases List.mem_cons.mp hvalue with rfl | hvalue
      · refine ⟨_, ?_, hitem⟩
        exact List.subset_cons_of_subset _ (List.subset_append_left _ _)
      · obtain ⟨taken, hsubset, htaken⟩ := ih hvalue
        refine ⟨taken, ?_, htaken⟩
        exact List.subset_cons_of_subset _ (List.subset_append_of_subset_right _ hsubset)

theorem Derives.mem {strict : Bool} {tokens : List Token} {items : List Value}
    (h : Derives strict tokens (.list items)) {item : Value} (hitem : item ∈ items) :
    item = .symbol "quote" ∨ ∃ taken, taken ⊆ tokens ∧ Derives strict taken item := by
  generalize hvalue : Value.list items = value at h
  cases h with
  | leaf hleaf =>
      subst hvalue
      cases hleaf
  | quotation _ hinner =>
      obtain rfl := Value.list.inj hvalue
      rcases List.mem_cons.mp hitem with rfl | hitem
      · exact .inl rfl
      · obtain rfl := List.mem_singleton.mp hitem
        exact .inr ⟨_, List.subset_cons_self _ _, hinner⟩
  | empty _ _ _ =>
      obtain rfl := Value.list.inj hvalue
      simp at hitem
  | list _ hfirst hfurther _ _ =>
      obtain rfl := Value.list.inj hvalue
      rcases List.mem_cons.mp hitem with rfl | hitem
      · exact .inr ⟨_, by simp, hfirst⟩
      · obtain ⟨taken, hsubset, htaken⟩ := hfurther.mem hitem
        refine .inr ⟨taken, ?_, htaken⟩
        intro token htoken
        simp [hsubset htoken]

theorem Derives.everyLeaf {property : Value → Prop} {strict : Bool} {tokens : List Token}
    {value : Value} (h : Derives strict tokens value) (hquote : property (.symbol "quote"))
    (htokens : ∀ token ∈ tokens, ∀ leaf, Leaf token leaf → property leaf) :
    value.EveryLeaf property := by
  induction value generalizing tokens with
  | list items ih =>
      simp only [Value.EveryLeaf]
      intro item hitem
      rcases h.mem hitem with rfl | ⟨taken, hsubset, htaken⟩
      · simpa only [Value.EveryLeaf] using hquote
      · exact ih item hitem htaken fun token htoken => htokens token (hsubset htoken)
  | _ =>
      simp only [Value.EveryLeaf]
      cases h with
      | leaf hleaf => exact htokens _ (List.mem_singleton_self _) _ hleaf

theorem Derives.wellFormed {strict : Bool} {tokens : List Token} {value : Value}
    (h : Derives strict tokens value) : value.WellFormed := by
  refine h.everyLeaf (by simp) fun token _ leaf hleaf => ?_
  cases hleaf <;> simp

theorem Leaf.kind_ne_stray {token : Token} {value : Value} (h : Leaf token value) :
    token.kind ≠ .stray := by
  cases h <;> simp_all

mutual

theorem Derives.kind_ne_stray {strict : Bool} {tokens : List Token} {value : Value} :
    Derives strict tokens value → ∀ token ∈ tokens, token.kind ≠ .stray
  | .leaf hleaf => List.forall_mem_singleton.mpr hleaf.kind_ne_stray
  | .quotation hmark hinner =>
      List.forall_mem_cons.mpr ⟨by simp [hmark], hinner.kind_ne_stray⟩
  | .empty hopener hcloser _ => by simp [hopener, hcloser]
  | .list hopener hfirst hmore hcloser _ => by
      have hitem := hfirst.kind_ne_stray
      have hitems := Further.kind_ne_stray hmore
      simp only [List.forall_mem_cons, List.forall_mem_append]
      exact ⟨by simp [hopener], ⟨hitem, hitems⟩, by simp [hcloser]⟩

theorem Further.kind_ne_stray {strict : Bool} {tokens : List Token} {values : List Value} :
    Further (Derives strict) tokens values → ∀ token ∈ tokens, token.kind ≠ .stray
  | .none => by simp
  | .next hblank hitem hmore => by
      have hfirst := hitem.kind_ne_stray
      have hothers := Further.kind_ne_stray hmore
      simp only [List.forall_mem_cons, List.forall_mem_append]
      exact ⟨by simp [hblank], hfirst, hothers⟩

end

theorem Derives.kind_last_ne_blank {strict : Bool} {tokens : List Token} {value : Value}
    (h : Derives strict tokens value) : ∀ token ∈ tokens.getLast?, token.kind ≠ .blank := by
  induction tokens generalizing value with
  | nil => simp
  | cons first tokens ih =>
      cases h with
      | leaf hleaf => simpa using hleaf.kind_ne.2.2.2
      | quotation _ hinner =>
          cases tokens with
          | nil => exact absurd hinner not_derives_nil
          | cons head tokens =>
              rw [List.getLast?_cons_cons]
              exact ih hinner
      | empty _ hcloser _ => simp [hcloser]
      | list _ _ _ hcloser _ => simp [List.getLast?_cons, hcloser]

/-- Whether some expression starts with a token. -/
def StartsExpression (token : Token) : Prop :=
  (∃ value, Leaf token value) ∨ token.kind = .quote ∨ ∃ bracket, token.kind = .opening bracket

theorem Derives.startsExpression {strict : Bool} {token : Token} {tokens : List Token}
    {value : Value} (h : Derives strict (token :: tokens) value) : StartsExpression token := by
  cases h with
  | leaf hleaf => exact .inl ⟨_, hleaf⟩
  | quotation hmark _ => exact .inr (.inl hmark)
  | empty hopener _ _ => exact .inr (.inr ⟨_, hopener⟩)
  | list hopener _ _ _ _ => exact .inr (.inr ⟨_, hopener⟩)

theorem not_startsExpression_closing {token : Token} {closing : Bracket}
    (h : token.kind = .closing closing) : ¬ StartsExpression token := by
  rintro (⟨value, hleaf⟩ | hmark | ⟨bracket, hopener⟩)
  · exact hleaf.kind_ne.2.2.1 closing h
  · simp [h] at hmark
  · simp [h] at hopener

end SmallLisp.Reader
