import SmallLisp.Proofs.Separation
import SmallLisp.Text.Pattern

/-!
How patterns match. Of a run of a class the longest part is tried first, and after every shorter one
the text goes on with the class. Where what comes next cannot start with the class, nothing but the
longest run counts, so that a pattern does what a scan without second thoughts does.
-/

namespace SmallLisp.Text

open Token (Breaks breaks_cons breaks_dropWhile breaks_nil)

/-- Whether a text is cut after the longest run of a class that it starts with. -/
structure LongestRun (accepts : Char → Bool) (text run rest : List Char) : Prop where
  split : text = run ++ rest
  accepted : ∀ c ∈ run, accepts c
  breaks : Breaks accepts rest

theorem exists_longestRun (accepts : Char → Bool) (text : List Char) :
    ∃ run rest, LongestRun accepts text run rest :=
  ⟨text.takeWhile accepts, text.dropWhile accepts,
    List.takeWhile_append_dropWhile.symm, List.all_eq_true.mp List.all_takeWhile,
    breaks_dropWhile accepts text⟩

theorem LongestRun.eq_nil_iff {accepts : Char → Bool} {text run rest : List Char}
    (h : LongestRun accepts text run rest) : run = [] ↔ Breaks accepts text := by
  obtain ⟨rfl, haccepted, hbreaks⟩ := h
  cases run with
  | nil => exact iff_of_true rfl hbreaks
  | cons c run =>
      have hc : accepts c := haccepted c (by simp)
      exact iff_of_false nofun (by simp [hc])

theorem exists_cons_of_not_breaks {accepts : Char → Bool} {text : List Char}
    (h : ¬ Breaks accepts text) : ∃ c cs, text = c :: cs ∧ accepts c := by
  cases text with
  | nil => simp at h
  | cons c cs => exact ⟨c, cs, rfl, by simpa using h⟩

namespace Match

variable {Name : Type} {way : Match Name} {name : Name}

@[simp] theorem withParts_nil : (withParts [] : Match Name → Match Name) = id :=
  rfl

@[simp] theorem withParts_rest (parts : List (Name × List Char × List Char)) :
    (way.withParts parts).rest = way.rest :=
  rfl

variable [DecidableEq Name]

@[simp] theorem part_unnamed (rest : List Char) : part { parts := [], rest } name = [] :=
  rfl

@[simp] theorem part_withParts_same (run rest : List Char) :
    (way.withParts [(name, run ++ rest, rest)]).part name = run := by
  simp [part, withParts]

theorem part_withParts_of_ne {other : Name} (h : name ≠ other) (part : List Char × List Char) :
    (way.withParts [(other, part)]).part name = way.part name := by
  simp [Match.part, withParts, List.lookup_cons, beq_false_of_ne h]

end Match

namespace Pattern

variable {Name : Type} {accepts : Char → Bool} {text run rest : List Char}
  {pattern first second next : Pattern Name} {way : Match Name}

-- The equations of `ways` and `leftovers`, which later proofs use instead of their definitions.

@[simp] theorem ways_empty : (empty : Pattern Name).ways text = [{ parts := [], rest := text }] :=
  rfl

@[simp] theorem ways_one_nil : (one accepts : Pattern Name).ways [] = [] :=
  rfl

@[simp] theorem ways_one_cons (c : Char) (cs : List Char) :
    (one accepts : Pattern Name).ways (c :: cs) =
      if accepts c then [{ parts := [], rest := cs }] else [] :=
  rfl

@[simp] theorem ways_many : (many accepts : Pattern Name).ways text =
    (leftovers accepts [] text).map fun rest => { parts := [], rest } :=
  rfl

@[simp] theorem ways_sequence : (sequence first second).ways text =
    (first.ways text).flatMap fun way => (second.ways way.rest).map (Match.withParts way.parts) :=
  rfl

@[simp] theorem ways_either :
    (either first second).ways text = first.ways text ++ second.ways text :=
  rfl

@[simp] theorem ways_notBefore : (notBefore pattern).ways text =
    if (pattern.ways text).isEmpty then [{ parts := [], rest := text }] else [] :=
  rfl

@[simp] theorem ways_named (name : Name) : (named name pattern).ways text =
    (pattern.ways text).map fun way => way.withParts [(name, text, way.rest)] :=
  rfl

@[simp] theorem leftovers_nil (others : List (List Char)) :
    leftovers accepts others [] = [] :: others :=
  rfl

@[simp] theorem leftovers_cons (others : List (List Char)) (c : Char) (cs : List Char) :
    leftovers accepts others (c :: cs) =
      if accepts c then leftovers accepts ((c :: cs) :: others) cs else (c :: cs) :: others :=
  rfl

theorem leftovers_eq (h : LongestRun accepts text run rest) (others : List (List Char)) :
    ∃ shorter, leftovers accepts others text = rest :: (shorter ++ others) ∧
      ∀ left ∈ shorter, ¬ Breaks accepts left := by
  obtain ⟨rfl, haccepted, hbreaks⟩ := h
  induction run generalizing others with
  | nil =>
      refine ⟨[], ?_, by simp⟩
      cases rest with
      | nil => rfl
      | cons c cs => simp [breaks_cons.mp hbreaks]
  | cons c run ih =>
      rw [List.forall_mem_cons] at haccepted
      obtain ⟨shorter, hleftovers, hshorter⟩ := ih ((c :: (run ++ rest)) :: others) haccepted.2
      refine ⟨shorter ++ [c :: (run ++ rest)], ?_, ?_⟩
      · simp [haccepted.1, hleftovers]
      · intro left hleft
        rcases List.mem_append.mp hleft with hleft | hleft
        · exact hshorter left hleft
        · rw [List.mem_singleton.mp hleft, breaks_cons, haccepted.1]
          simp

/-- Whether a pattern matches in one way first, and after all its other ways the text goes on with a
class. -/
def Leads (pattern : Pattern Name) (text : List Char) (way : Match Name) (accepts : Char → Bool) :
    Prop :=
  ∃ others, pattern.ways text = way :: others ∧ ∀ other ∈ others, ¬ Breaks accepts other.rest

theorem leads_many (h : LongestRun accepts text run rest) :
    (many accepts : Pattern Name).Leads text { parts := [], rest } accepts := by
  obtain ⟨shorter, hleftovers, hshorter⟩ := leftovers_eq h []
  refine ⟨shorter.map fun rest => { parts := [], rest }, ?_, ?_⟩
  · simp [hleftovers]
  · simpa using hshorter

theorem Leads.named (h : pattern.Leads text way accepts) (name : Name) :
    (Pattern.named name pattern).Leads text (way.withParts [(name, text, way.rest)]) accepts := by
  obtain ⟨others, hways, hothers⟩ := h
  refine ⟨others.map fun other => other.withParts [(name, text, other.rest)], ?_, ?_⟩
  · simp [hways]
  · simpa using hothers

/-- What cannot start with the class settles for the first way of what comes before it. -/
theorem Leads.ways_sequence (h : first.Leads text way accepts)
    (hsecond : ∀ left, ¬ Breaks accepts left → second.ways left = []) :
    (sequence first second).ways text = (second.ways way.rest).map (Match.withParts way.parts) := by
  obtain ⟨others, hways, hothers⟩ := h
  have hnone : (others.flatMap fun other =>
      (second.ways other.rest).map (Match.withParts other.parts)) = [] := by
    rw [List.flatMap_eq_nil_iff]
    intro other hother
    rw [hsecond other.rest (hothers other hother), List.map_nil]
  rw [Pattern.ways_sequence, hways, List.flatMap_cons, hnone, List.append_nil]

theorem ways_one_sequence {c : Char} (h : accepts c) (cs : List Char) :
    (sequence (one accepts) next).ways (c :: cs) = next.ways cs := by
  simp [h]

theorem ways_one_sequence_of_breaks (h : Breaks accepts text) :
    (sequence (one accepts) next).ways text = [] := by
  cases text with
  | nil => rfl
  | cons c cs => simp [breaks_cons.mp h]

theorem leads_oneOrMore (h : LongestRun accepts text run rest) (hrun : run ≠ []) :
    (oneOrMore accepts : Pattern Name).Leads text { parts := [], rest } accepts := by
  obtain ⟨rfl, haccepted, hbreaks⟩ := h
  obtain ⟨c, run, rfl⟩ := List.exists_cons_of_ne_nil hrun
  rw [List.forall_mem_cons] at haccepted
  have htail : LongestRun accepts (run ++ rest) run rest := ⟨rfl, haccepted.2, hbreaks⟩
  have hmany : (many accepts : Pattern Name).Leads _ _ accepts := leads_many htail
  obtain ⟨others, hways, hothers⟩ := hmany
  refine ⟨others, ?_, hothers⟩
  rw [oneOrMore, List.cons_append, ways_one_sequence haccepted.1, hways]

theorem ways_oneOrMore_of_breaks (h : Breaks accepts text) :
    (oneOrMore accepts : Pattern Name).ways text = [] :=
  ways_one_sequence_of_breaks h

theorem leads_optional_one {taken : List Char} (htaken : ∀ c ∈ taken, accepts c)
    (hlength : taken.length ≤ 1) (hbreaks : taken = [] → Breaks accepts rest) :
    (optional (one accepts) : Pattern Name).Leads (taken ++ rest) { parts := [], rest }
      accepts := by
  cases taken with
  | nil =>
      refine ⟨[], ?_, by simp⟩
      cases rest with
      | nil => rfl
      | cons c cs => simp [optional, breaks_cons.mp (hbreaks rfl)]
  | cons c taken =>
      obtain rfl : taken = [] := List.eq_nil_of_length_eq_zero (by simpa using hlength)
      have hc : accepts c := htaken c (by simp)
      refine ⟨[{ parts := [], rest := c :: rest }], ?_, ?_⟩
      · simp [optional, hc]
      · simp [hc]

/-- Whether a text starts with a pattern. -/
def Matches (pattern : Pattern Name) (text : List Char) : Prop :=
  pattern.ways text ≠ []

theorem matches_named_iff {name : Name} :
    (named name pattern).Matches text ↔ pattern.Matches text := by
  simp [Matches]

theorem matches_either_iff :
    (either first second).Matches text ↔ first.Matches text ∨ second.Matches text := by
  simp only [Matches, ways_either, ne_eq, List.append_eq_nil_iff,
    Classical.not_and_iff_not_or_not]

theorem matches_sequence_iff :
    (sequence first second).Matches text ↔ ∃ way ∈ first.ways text, second.Matches way.rest := by
  simp [Matches]

theorem matches_one_iff :
    (one accepts : Pattern Name).Matches text ↔ ∃ c cs, text = c :: cs ∧ accepts c := by
  cases text with
  | nil => simp [Matches]
  | cons c cs => simp [Matches]

theorem matches_one_sequence_iff :
    (sequence (one accepts) next).Matches text ↔
      ∃ c cs, text = c :: cs ∧ accepts c ∧ next.Matches cs := by
  rw [matches_sequence_iff]
  constructor
  · rintro ⟨way, hway, hnext⟩
    cases text with
    | nil => simp at hway
    | cons c cs =>
        by_cases hc : accepts c
        · obtain rfl : way = { parts := [], rest := cs } := by simpa [hc] using hway
          exact ⟨c, cs, rfl, hc, hnext⟩
        · simp [hc] at hway
  · rintro ⟨c, cs, rfl, hc, hnext⟩
    exact ⟨{ parts := [], rest := cs }, by simp [hc], hnext⟩

theorem matches_optional_sequence_iff :
    (sequence (optional pattern) next).Matches text ↔
      (sequence pattern next).Matches text ∨ next.Matches text := by
  simp [matches_sequence_iff, optional, or_and_right, exists_or]

theorem ways_notBefore_of_matches (h : pattern.Matches text) :
    (notBefore pattern).ways text = [] := by
  have hne : pattern.ways text ≠ [] := h
  simp [hne]

theorem ways_notBefore_of_not_matches (h : ¬ pattern.Matches text) :
    (notBefore pattern).ways text = [{ parts := [], rest := text }] := by
  have hnil : pattern.ways text = [] := Classical.not_not.mp h
  simp [hnil]

end Pattern

end SmallLisp.Text
