import SmallLisp.Proofs.Agreement

namespace SmallLisp

/-- Whether a comparison finds out how things stand in an order. -/
structure Sorts {α : Type} (order : α → α → Ordering) (before : α → α → Prop) : Prop where
  less_iff (x y : α) : order x y = .lt ↔ before x y
  equal_iff (x y : α) : order x y = .eq ↔ x = y
  greater_iff (x y : α) : order x y = .gt ↔ before y x
  trans {x y z : α} : before x y → before y z → before x z

theorem Sorts.ne_gt_trans {α : Type} {order : α → α → Ordering} {before : α → α → Prop}
    (h : Sorts order before) {x y z : α} (hxy : order x y ≠ .gt) (hyz : order y z ≠ .gt) :
    order x z ≠ .gt := by
  cases hfirst : order x y with
  | gt => exact absurd hfirst hxy
  | eq => rwa [(h.equal_iff x y).mp hfirst]
  | lt =>
      have hless := (h.less_iff x y).mp hfirst
      rw [Ne, h.greater_iff] at hyz ⊢
      exact fun hzx => hyz (h.trans hzx hless)

theorem orderNumbers_sorts : Sorts orderNumbers (· < ·) where
  less_iff x y := by
    unfold orderNumbers
    grind
  equal_iff _ _ := orderNumbers_eq_iff
  greater_iff x y := by
    unfold orderNumbers
    grind
  trans := Int.lt_trans

/-- The order of texts by the code points where they first differ, a text before its extensions. -/
def CodePointOrder : List Char → List Char → Prop :=
  List.Lex fun c d => c.toNat < d.toNat

theorem codePointOrder_cons_iff {a b : Char} {as bs : List Char} :
    CodePointOrder (a :: as) (b :: bs) ↔
      a.toNat < b.toNat ∨ a.toNat = b.toNat ∧ CodePointOrder as bs := by
  constructor
  · rintro (_ | hless | hrest)
    · exact .inl hless
    · exact .inr ⟨rfl, hrest⟩
  · rintro (hless | ⟨hsame, hrest⟩)
    · exact .rel hless
    · obtain rfl := Char.toNat_inj.mp hsame
      exact .cons hrest

theorem orderTexts_iff (as bs : List Char) :
    (orderTexts as bs = .lt ↔ CodePointOrder as bs) ∧
      (orderTexts as bs = .gt ↔ CodePointOrder bs as) := by
  induction as generalizing bs with
  | nil => cases bs <;> simp [orderTexts, CodePointOrder]
  | cons a as ih =>
      cases bs with
      | nil => simp [orderTexts, CodePointOrder]
      | cons b bs =>
          rw [orderTexts, codePointOrder_cons_iff, codePointOrder_cons_iff, ← (ih bs).1,
            ← (ih bs).2]
          grind

theorem orderTexts_sorts : Sorts orderTexts CodePointOrder where
  less_iff as bs := (orderTexts_iff as bs).1
  equal_iff _ _ := orderTexts_eq_iff
  greater_iff as bs := (orderTexts_iff as bs).2
  trans := List.lex_trans Nat.lt_trans

theorem Relation.existsUnique_holds (order : Ordering) :
    ∃! relation, relation ∈ [less, equal, greater] ∧ relation.holds order := by
  cases order with
  | lt => exact ⟨less, by simp [holds], by simp [holds]⟩
  | eq => exact ⟨equal, by simp [holds], by simp [holds]⟩
  | gt => exact ⟨greater, by simp [holds], by simp [holds]⟩

namespace Comparison

/-- The primitives that test numbers, by their relations. -/
def numberTest : Relation → Option String
  | .equal => some "="
  | .less => some "<"
  | .greater => some ">"
  | .notEqual => some "!="
  | .atLeast => some ">="
  | .atMost => some "<="

/-- The primitives that test texts, by their relations. None tests whether texts differ. -/
def textTest : Relation → Option String
  | .equal => some "string=?"
  | .less => some "string<?"
  | .greater => some "string>?"
  | .notEqual => none
  | .atLeast => some "string>=?"
  | .atMost => some "string<=?"

section
variable {α : Type} {levels : Nat} {test : Relation → Option String}
  {take : Nat → Value → Outcome α} {order : α → α → Ordering} {before : α → α → Prop}

/-- Whether all tests of a family fail on two values, with the fault of the first of them that is
not taken for anything. -/
def Refuses (levels : Nat) (test : Relation → Option String) (take : Nat → Value → Outcome α)
    (left right : Value) : Prop :=
  ∃ fault, (take levels left = .error fault ∨
      (∃ x, take levels left = .ok x) ∧ take levels right = .error fault) ∧
    ∀ relation name, test relation = some name →
      applyNamed levels name [left, right] = .error fault

/-- Whether all tests of a family answer on two values, each with the truth value of its relation,
and these fit together. -/
structure Settles (levels : Nat) (test : Relation → Option String) (truth : Relation → Bool)
    (left right : Value) : Prop where
  answers {relation : Relation} {name : String} : test relation = some name →
    applyNamed levels name [left, right] = .ok (.boolean (truth relation))
  exactly_one : ∃! relation, relation ∈ [Relation.less, .equal, .greater] ∧ truth relation
  atMost : truth .atMost = !truth .greater
  atLeast : truth .atLeast = !truth .less
  notEqual : truth .notEqual = !truth .equal
  turned {less greater : String} : test .less = some less → test .greater = some greater →
    applyNamed levels less [left, right] = applyNamed levels greater [right, left]

/-- Whether the tests of a family ask about one linear order of what values are taken for. -/
structure Linear (levels : Nat) (test : Relation → Option String)
    (take : Nat → Value → Outcome α) (before : α → α → Prop) : Prop where
  outcome (a b : Value) : Refuses levels test take a b ∨ ∃ truth, Settles levels test truth a b
  before_iff {less : String} {a b : Value} {x y : α} : test .less = some less →
    take levels a = .ok x → take levels b = .ok y → (Holds levels less a b ↔ before x y)
  same_iff {equal : String} {a b : Value} {x y : α} : test .equal = some equal →
    take levels a = .ok x → take levels b = .ok y → (Holds levels equal a b ↔ x = y)
  less_trans {less : String} {a b c : Value} : test .less = some less →
    Holds levels less a b → Holds levels less b c → Holds levels less a c
  atMost_trans {atMost : String} {a b c : Value} : test .atMost = some atMost →
    Holds levels atMost a b → Holds levels atMost b c → Holds levels atMost a c

/-- Whether the tests of a family take both arguments and have their order decided. -/
def Tests (levels : Nat) (test : Relation → Option String) (take : Nat → Value → Outcome α)
    (order : α → α → Ordering) : Prop :=
  ∀ relation name, test relation = some name → ∀ args, applyNamed levels name args =
    Primitive.applyTest take (fun x y => relation.holds (order x y)) levels args

variable {a b c : Value} {x y : α} {relation : Relation} {name : String}

theorem Tests.answer_eq (h : Tests levels test take order) (htest : test relation = some name)
    (ha : take levels a = .ok x) (hb : take levels b = .ok y) :
    applyNamed levels name [a, b] = .ok (.boolean (relation.holds (order x y))) := by
  rw [h relation name htest]
  simp [Primitive.applyTest, ha, hb, bind, Except.bind, pure, Except.pure]

theorem Tests.holds_iff (h : Tests levels test take order) (htest : test relation = some name) :
    Holds levels name a b ↔
      ∃ x y, take levels a = .ok x ∧ take levels b = .ok y ∧ relation.holds (order x y) = true := by
  rw [Holds, h relation name htest]
  exact applyTest_iff

theorem Tests.holds_trans (h : Tests levels test take order) (htest : test relation = some name)
    (htrans : ∀ x y z, relation.holds (order x y) → relation.holds (order y z) →
      relation.holds (order x z))
    (hab : Holds levels name a b) (hbc : Holds levels name b c) : Holds levels name a c := by
  rw [h.holds_iff htest] at *
  obtain ⟨x, y, ha, hb, hxy⟩ := hab
  obtain ⟨y', z, hb', hc, hyz⟩ := hbc
  obtain rfl : y = y' := Except.ok.inj (hb.symm.trans hb')
  exact ⟨x, z, ha, hc, htrans x y z hxy hyz⟩

theorem Tests.refuses_left (h : Tests levels test take order) {fault : Fault}
    (ha : take levels a = .error fault) : Refuses levels test take a b := by
  refine ⟨fault, .inl ha, fun relation name htest => ?_⟩
  rw [h relation name htest]
  simp [Primitive.applyTest, ha, bind, Except.bind]

theorem Tests.refuses_right (h : Tests levels test take order) {fault : Fault}
    (ha : take levels a = .ok x) (hb : take levels b = .error fault) :
    Refuses levels test take a b := by
  refine ⟨fault, .inr ⟨⟨x, ha⟩, hb⟩, fun relation name htest => ?_⟩
  rw [h relation name htest]
  simp [Primitive.applyTest, ha, hb, bind, Except.bind]

theorem Tests.settles (h : Tests levels test take order) (hsorts : Sorts order before)
    (ha : take levels a = .ok x) (hb : take levels b = .ok y) :
    Settles levels test (fun relation => relation.holds (order x y)) a b where
  answers htest := h.answer_eq htest ha hb
  exactly_one := Relation.existsUnique_holds _
  atMost := by simp [Relation.holds]
  atLeast := by simp [Relation.holds]
  notEqual := by simp [Relation.holds]
  turned hless hgreater := by
    rw [h.answer_eq hless ha hb, h.answer_eq hgreater hb ha]
    have hturned : order x y = .lt ↔ order y x = .gt :=
      (hsorts.less_iff x y).trans (hsorts.greater_iff y x).symm
    simp only [Relation.holds, hturned]

theorem Tests.linear (h : Tests levels test take order) (hsorts : Sorts order before) :
    Linear levels test take before where
  outcome a b := by
    cases ha : take levels a with
    | error fault => exact .inl (h.refuses_left ha)
    | ok x =>
        cases hb : take levels b with
        | error fault => exact .inl (h.refuses_right ha hb)
        | ok y => exact .inr ⟨_, h.settles hsorts ha hb⟩
  before_iff htest ha hb := by
    rw [Holds, h.answer_eq htest ha hb]
    simp [Relation.holds, hsorts.less_iff]
  same_iff htest ha hb := by
    rw [Holds, h.answer_eq htest ha hb]
    simp [Relation.holds, hsorts.equal_iff]
  less_trans htest := h.holds_trans htest fun x y z => by
    simp only [Relation.holds, decide_eq_true_eq, hsorts.less_iff]
    exact hsorts.trans
  atMost_trans htest := h.holds_trans htest fun x y z => by
    simp only [Relation.holds, decide_eq_true_eq]
    exact hsorts.ne_gt_trans

end

/-- The text of a value: that of a text is its own, that of a whole number its digits. -/
inductive HasText : Value → List Char → Prop
  | text (content : String) : HasText (.text content) content.toList
  | yes : HasText (.boolean true) "True".toList
  | no : HasText (.boolean false) "False".toList
  | integer {number : Int} : WithinDigits number → HasText (.integer number) number.repr.toList

theorem text_eq_ok_iff {levels : Nat} {value : Value} {content : List Char} :
    Coercion.text levels value = .ok content ↔ HasText value content := by
  constructor
  · intro h
    cases value with
    | text own =>
        obtain rfl : own.toList = content := Except.ok.inj h
        exact .text own
    | boolean truth =>
        obtain rfl : _ = content := Except.ok.inj h
        cases truth with
        | true => exact .yes
        | false => exact .no
    | integer number =>
        rw [Coercion.text] at h
        by_cases hnumber : WithinDigits number
        · rw [integerText_of_within hnumber] at h
          obtain rfl : _ = content := Except.ok.inj h
          exact .integer hnumber
        · rw [integerText_of_not_within hnumber] at h
          cases h
    | _ => exact absurd h (Outcome.raise_ne_ok _ _)
  · intro h
    cases h with
    | text _ => rfl
    | yes => rfl
    | no => rfl
    | integer hnumber => exact integerText_of_within hnumber

/-- Each of the two families asks about one linear order: numbers are ordered as such, texts by
their code points, and whole numbers and truth values among these by their own text. -/
theorem families_linear (levels : Nat) :
    Linear levels numberTest Coercion.number (· < ·) ∧
    Linear levels textTest Coercion.text CodePointOrder ∧
    ∀ value content, Coercion.text levels value = .ok content ↔ HasText value content := by
  have hnumbers : Tests levels numberTest Coercion.number orderNumbers := by
    rintro relation name htest args
    cases relation <;> cases htest <;> rfl
  have htexts : Tests levels textTest Coercion.text orderTexts := by
    rintro relation name htest args
    cases relation <;> cases htest <;> rfl
  exact ⟨hnumbers.linear orderNumbers_sorts, htexts.linear orderTexts_sorts,
    fun _ _ => text_eq_ok_iff⟩

theorem families_linear_digits :
    Holds 100 "<" (.list [.integer 9]) (.text "0xA") ∧
    Holds 100 "string<?" (.integer 10) (.text "9") ∧
    Holds 100 "string<?" (.integer 10) (.boolean true) := by
  obtain ⟨hnumbers, htexts, htext⟩ := families_linear 100
  have hdecimal : ∀ c ∈ ['1', '0'], Text.isDigit c :=
    List.forall_mem_cons.mpr ⟨by decide, List.forall_mem_singleton.mpr (by decide)⟩
  have hlength : WithinDigits (Text.decimalValue ['1', '0']) :=
    withinDigits_decimalValue hdecimal (by decide)
  have hten : Coercion.text 100 (.integer 10) = .ok ['1', '0'] :=
    (htext _ _).mpr (.integer hlength)
  have hnine : Coercion.text 100 (.text "9") = .ok ['9'] := (htext _ _).mpr (.text "9")
  have hyes : Coercion.text 100 (.boolean true) = .ok ['T', 'r', 'u', 'e'] := (htext _ _).mpr .yes
  have hdigits : Holds 100 "string<?" (.integer 10) (.text "9") :=
    (htexts.before_iff rfl hten hnine).mpr (.rel (by decide))
  have hletter : Holds 100 "string<?" (.text "9") (.boolean true) :=
    (htexts.before_iff rfl hnine hyes).mpr (.rel (by decide))
  exact ⟨(hnumbers.before_iff rfl rfl rfl).mpr (by decide), hdigits,
    htexts.less_trans rfl hdigits hletter⟩

end Comparison

end SmallLisp
