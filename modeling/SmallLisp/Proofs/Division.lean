import Mathlib.Data.Rat.Floor
import SmallLisp.Proofs.Folding

namespace SmallLisp

namespace Arithmetic

/-- Whether a quotient and a remainder are those of a division towards zero. -/
structure Truncates (dividend divisor quotient remainder : Int) : Prop where
  split : dividend = divisor * quotient + remainder
  small : |remainder| < |divisor|
  sign : remainder = 0 ∨ remainder.sign = dividend.sign

/-- Whether a quotient and a remainder are those of a division towards the floor. -/
structure Floors (dividend divisor quotient remainder : Int) : Prop where
  split : dividend = divisor * quotient + remainder
  sign : remainder = 0 ∨ remainder.sign = divisor.sign ∧ |remainder| < |divisor|

section
variable {n d q r : Int}

theorem sign_eq_sign_iff {a b : Int} :
    a.sign = b.sign ↔ 0 < a ∧ 0 < b ∨ a = 0 ∧ b = 0 ∨ a < 0 ∧ b < 0 := by
  rcases lt_trichotomy b 0 with hb | rfl | hb
  · rw [Int.sign_eq_neg_one_of_neg hb, Int.sign_eq_neg_one_iff_neg]
    omega
  · rw [Int.sign_zero, Int.sign_eq_zero_iff_zero]
    omega
  · rw [Int.sign_eq_one_of_pos hb, Int.sign_eq_one_iff_pos]
    omega

theorem truncatedQuotient_eq_tdiv (n d : Int) : truncatedQuotient n d = n.tdiv d := by
  have hmagnitude (a b : Nat) : Int.fdiv a b = (a : Int).tdiv b := by
    rw [Int.fdiv_eq_ediv_of_nonneg _ (Int.natCast_nonneg b),
      Int.tdiv_eq_ediv_of_nonneg (Int.natCast_nonneg a)]
  rw [truncatedQuotient, hmagnitude]
  rcases lt_or_ge n 0 with hn | hn
  · rcases lt_or_ge d 0 with hd | hd
    · rw [if_pos (iff_of_true hn hd), Int.ofNat_natAbs_of_nonpos hn.le,
        Int.ofNat_natAbs_of_nonpos hd.le, Int.neg_tdiv_neg]
    · rw [if_neg (by omega), Int.ofNat_natAbs_of_nonpos hn.le, Int.natAbs_of_nonneg hd,
        Int.neg_tdiv, neg_neg]
  · rcases lt_or_ge d 0 with hd | hd
    · rw [if_neg (by omega), Int.natAbs_of_nonneg hn, Int.ofNat_natAbs_of_nonpos hd.le,
        Int.tdiv_neg, neg_neg]
    · rw [if_pos (by omega), Int.natAbs_of_nonneg hn, Int.natAbs_of_nonneg hd]

theorem truncatedRemainder_eq_tmod (n d : Int) : truncatedRemainder n d = n.tmod d := by
  rw [truncatedRemainder, truncatedQuotient_eq_tdiv, Int.tmod_def]

theorem truncates (n : Int) (hd : d ≠ 0) :
    Truncates n d (truncatedQuotient n d) (truncatedRemainder n d) := by
  rw [truncatedQuotient_eq_tdiv, truncatedRemainder_eq_tmod]
  refine ⟨(Int.mul_tdiv_add_tmod n d).symm, ?_, ?_⟩
  · rw [Int.abs_eq_natAbs, Int.abs_eq_natAbs, Int.natAbs_tmod, Int.ofNat_lt]
    exact Nat.mod_lt _ (Int.natAbs_pos.mpr hd)
  · rw [Int.sign_tmod]
    by_cases hdvd : d ∣ n
    · exact .inl (Int.tmod_eq_zero_of_dvd hdvd)
    · exact .inr (if_neg hdvd)

theorem Truncates.unique (hd : d ≠ 0) (h : Truncates n d q r) :
    q = truncatedQuotient n d ∧ r = truncatedRemainder n d := by
  rw [truncatedQuotient_eq_tdiv, truncatedRemainder_eq_tmod, eq_comm, @eq_comm _ r]
  have hsplit := h.split
  have hsmall := h.small
  have hsign := h.sign
  rw [Int.abs_eq_natAbs, Int.abs_eq_natAbs] at hsmall
  rw [sign_eq_sign_iff] at hsign
  -- The bounds of a remainder towards zero depend on the sign of what is divided only.
  rcases le_total 0 n with hn | hn
  · rw [Int.tdiv_tmod_unique hn hd]
    omega
  · rw [Int.tdiv_tmod_unique' hn hd]
    omega

theorem truncates_iff (hd : d ≠ 0) :
    Truncates n d q r ↔ q = truncatedQuotient n d ∧ r = truncatedRemainder n d := by
  constructor
  · exact fun h => h.unique hd
  · rintro ⟨rfl, rfl⟩
    exact truncates n hd

theorem floors_iff_and :
    Floors n d q r ↔ n = d * q + r ∧ (r = 0 ∨ r.sign = d.sign ∧ |r| < |d|) :=
  ⟨fun h => ⟨h.split, h.sign⟩, fun h => ⟨h.1, h.2⟩⟩

theorem floors_iff (hd : d ≠ 0) : Floors n d q r ↔ q = n.fdiv d ∧ r = n.fmod d := by
  have hunique : Floors n d q r ↔ n.fdiv d = q ∧ n.fmod d = r := by
    rcases lt_or_gt_of_ne hd with hd | hd
    · rw [Int.fdiv_fmod_unique' hd, floors_iff_and, sign_eq_sign_iff, Int.abs_eq_natAbs,
        Int.abs_eq_natAbs]
      omega
    · rw [Int.fdiv_fmod_unique hd, floors_iff_and, sign_eq_sign_iff, Int.abs_eq_natAbs,
        Int.abs_eq_natAbs]
      omega
  rw [hunique, eq_comm, @eq_comm _ r]

theorem Truncates.floors (h : Truncates n d q r) (hsign : r = 0 ∨ n.sign = d.sign) :
    Floors n d q r := by
  refine ⟨h.split, ?_⟩
  rcases h.sign with hzero | hr
  · exact .inl hzero
  · rcases hsign with hzero | hn
    · exact .inl hzero
    · exact .inr ⟨hr.trans hn, h.small⟩

theorem divisions_coincide_iff (hd : d ≠ 0) :
    n.fdiv d = truncatedQuotient n d ∧ n.fmod d = truncatedRemainder n d ↔
      d ∣ n ∨ n.sign = d.sign := by
  have htruncates := truncates n hd
  constructor
  · rintro ⟨hquotient, hremainder⟩
    have hfloors := (floors_iff hd).mpr ⟨hquotient.symm, hremainder.symm⟩
    by_cases hzero : truncatedRemainder n d = 0
    · rw [truncatedRemainder_eq_tmod] at hzero
      exact .inl (Int.dvd_of_tmod_eq_zero hzero)
    · have hn := htruncates.sign.resolve_left hzero
      exact .inr (hn.symm.trans (hfloors.sign.resolve_left hzero).1)
  · intro h
    have hsign : truncatedRemainder n d = 0 ∨ n.sign = d.sign := by
      rw [truncatedRemainder_eq_tmod]
      exact h.imp_left Int.tmod_eq_zero_of_dvd
    obtain ⟨hquotient, hremainder⟩ := (floors_iff hd).mp (htruncates.floors hsign)
    exact ⟨hquotient.symm, hremainder.symm⟩

theorem tdiv_tdiv (a b c : Int) : (a.tdiv b).tdiv c = a.tdiv (b * c) := by
  have hmagnitude (k m n : Nat) : ((k : Int).tdiv m).tdiv n = (k : Int).tdiv (m * n) := by
    rw [← Int.ofNat_tdiv, ← Int.ofNat_tdiv, ← Int.natCast_mul, ← Int.ofNat_tdiv,
      Nat.div_div_eq_div_mul]
  obtain ⟨k, rfl | rfl⟩ := Int.eq_nat_or_neg a
  all_goals
    obtain ⟨m, rfl | rfl⟩ := Int.eq_nat_or_neg b
    all_goals
      obtain ⟨n, rfl | rfl⟩ := Int.eq_nat_or_neg c
      all_goals simp only [Int.neg_tdiv, Int.tdiv_neg, neg_mul, mul_neg, neg_neg, hmagnitude]

theorem fdiv_fdiv (a b : Int) {c : Int} (hc : 0 < c) : (a.fdiv b).fdiv c = a.fdiv (b * c) := by
  have hnonneg (a : Int) {b : Int} (hb : 0 ≤ b) : (a.fdiv b).fdiv c = a.fdiv (b * c) := by
    rw [Int.fdiv_eq_ediv_of_nonneg a hb, Int.fdiv_eq_ediv_of_nonneg _ hc.le,
      Int.fdiv_eq_ediv_of_nonneg a (Int.mul_nonneg hb hc.le), Int.ediv_ediv_of_nonneg hb]
  rcases le_total 0 b with hb | hb
  · exact hnonneg a hb
  · -- A divisor that is negated with the dividend makes no difference to the floor.
    have hneg := hnonneg (-a) (neg_nonneg.mpr hb)
    rwa [Int.neg_fdiv_neg, neg_mul, Int.neg_fdiv_neg] at hneg

theorem fdiv_eq_floor (a b : Int) : a.fdiv b = ⌊(a : ℚ) / b⌋ := by
  have hpos (a : Int) {b : Int} (hb : 0 ≤ b) : a.fdiv b = ⌊(a : ℚ) / b⌋ := by
    obtain ⟨m, rfl⟩ := Int.eq_ofNat_of_zero_le hb
    rw [Int.fdiv_eq_ediv_of_nonneg a hb, Int.cast_natCast, Rat.floor_intCast_div_natCast]
  rcases le_total 0 b with hb | hb
  · exact hpos a hb
  · have hneg := hpos (-a) (neg_nonneg.mpr hb)
    rwa [Int.neg_fdiv_neg, Int.cast_neg, Int.cast_neg, neg_div_neg_eq] at hneg

theorem foldl_divide {divide : Int → Int → Int} {divisors : List Int}
    (h : ∀ c ∈ divisors, ∀ a b, divide (divide a b) c = divide a (b * c)) (a b : Int) :
    (b :: divisors).foldl divide a = divide a (b :: divisors).prod := by
  induction divisors generalizing b with
  | nil => simp
  | cons c divisors ih =>
      rw [List.forall_mem_cons] at h
      calc
        (b :: c :: divisors).foldl divide a
            = ((b * c) :: divisors).foldl divide a := by
          rw [List.foldl_cons, List.foldl_cons, List.foldl_cons, h.1]
        _ = divide a ((b * c) :: divisors).prod := ih h.2 (b * c)
        _ = divide a (b :: c :: divisors).prod := by
          rw [List.prod_cons, List.prod_cons, List.prod_cons, mul_assoc]

theorem foldl_quotient (a b : Int) (divisors : List Int) :
    (b :: divisors).foldl quotient.result a = truncatedQuotient a (b :: divisors).prod := by
  apply foldl_divide
  intro c _ a b
  simp only [result, truncatedQuotient_eq_tdiv, tdiv_tdiv]

theorem foldl_floor {divisors : List Int} (h : ∀ c ∈ divisors, 0 < c) (a b : Int) :
    (b :: divisors).foldl divide.result a = ⌊(a : ℚ) / ((b :: divisors).prod : Int)⌋ := by
  rw [← fdiv_eq_floor]
  apply foldl_divide
  intro c hc a b
  exact fdiv_fdiv a b (h c hc)

end

end Arithmetic

/-- Whether an operation on whole numbers has a whole number for its result. -/
def Answers (levels : Nat) (operation : Arithmetic) (numbers : List Int) (result : Int) : Prop :=
  applyNamed levels operation.name (numbers.map .integer) = .ok (.integer result)

section
variable {levels : Nat} {operation : Arithmetic}

theorem numbers_integers (levels : Nat) (numbers : List Int) :
    Numbers levels (numbers.map .integer) numbers := by
  induction numbers with
  | nil => exact .nil
  | cons n numbers ih => exact .cons (by cases levels <;> rfl) ih

theorem answers_of_nonzero {b : Int} {others : List Int} (h : ∀ c ∈ b :: others, c ≠ 0)
    (operation : Arithmetic) (levels : Nat) (a : Int) : Answers levels operation (a :: b :: others)
      ((b :: others).foldl operation.result a) := by
  have hzero : ¬ (operation.Divides ∧ 0 ∈ b :: others) := fun hzero => h 0 hzero.2 rfl
  have hnumbers := numbers_integers levels (a :: b :: others)
  rw [Answers, applyNamed_name, applyFold_of_numbers (by simp) hnumbers,
    foldNumbers_of_nonzero hzero]

theorem answers_pair {d : Int} (hd : d ≠ 0) (operation : Arithmetic) (levels : Nat) (n : Int) :
    Answers levels operation [n, d] (operation.result n d) :=
  answers_of_nonzero (by simpa using hd) operation levels n

theorem applyNamed_eq_iff {d : Int} (hd : d ≠ 0) (operation other : Arithmetic) (n : Int) :
    applyNamed levels operation.name [.integer n, .integer d] =
        applyNamed levels other.name [.integer n, .integer d] ↔
      operation.result n d = other.result n d := by
  have hoperation := answers_pair hd operation levels n
  have hother := answers_pair hd other levels n
  simp only [Answers, List.map_cons, List.map_nil] at hoperation hother
  rw [hoperation, hother]
  simp

/-- The quotient and the remainder of each division are the only ones it can have. The divisions
are the same exactly where nothing has to be rounded or both numbers have the same sign. A fold of
quotients divides by the product of the divisors, towards the floor only as long as none of them
but the first is negative. -/
theorem division_families (levels : Nat) :
    (∀ n d : Int, d ≠ 0 →
      (Answers levels .quotient [n, d] (truncatedQuotient n d) ∧
        Answers levels .remainder [n, d] (truncatedRemainder n d) ∧
        ∀ q r, Arithmetic.Truncates n d q r ↔
          q = truncatedQuotient n d ∧ r = truncatedRemainder n d) ∧
      (Answers levels .divide [n, d] (n.fdiv d) ∧ Answers levels .modulo [n, d] (n.fmod d) ∧
        ∀ q r, Arithmetic.Floors n d q r ↔ q = n.fdiv d ∧ r = n.fmod d) ∧
      (applyNamed levels "/" [.integer n, .integer d] =
          applyNamed levels "quotient" [.integer n, .integer d] ∧
        applyNamed levels "mod" [.integer n, .integer d] =
          applyNamed levels "remainder" [.integer n, .integer d] ↔
        d ∣ n ∨ n.sign = d.sign)) ∧
    ∀ (a b : Int) (divisors : List Int), b ≠ 0 →
      ((∀ c ∈ divisors, c ≠ 0) → Answers levels .quotient (a :: b :: divisors)
        (truncatedQuotient a (b :: divisors).prod)) ∧
      ((∀ c ∈ divisors, 0 < c) → Answers levels .divide (a :: b :: divisors)
        ⌊(a : ℚ) / ((b :: divisors).prod : Int)⌋) := by
  constructor
  · intro n d hd
    refine ⟨⟨answers_pair hd .quotient levels n, answers_pair hd .remainder levels n, ?_⟩,
      ⟨answers_pair hd .divide levels n, answers_pair hd .modulo levels n, ?_⟩, ?_⟩
    · exact fun q r => Arithmetic.truncates_iff hd
    · exact fun q r => Arithmetic.floors_iff hd
    · rw [← Arithmetic.divisions_coincide_iff hd]
      exact and_congr (applyNamed_eq_iff hd .divide .quotient n)
        (applyNamed_eq_iff hd .modulo .remainder n)
  · intro a b divisors hb
    constructor
    · intro hdivisors
      rw [← Arithmetic.foldl_quotient]
      exact answers_of_nonzero (List.forall_mem_cons.mpr ⟨hb, hdivisors⟩) .quotient levels a
    · intro hdivisors
      rw [← Arithmetic.foldl_floor hdivisors]
      exact answers_of_nonzero (List.forall_mem_cons.mpr ⟨hb, fun c hc => (hdivisors c hc).ne'⟩)
        .divide levels a

theorem division_families_negative :
    Answers 0 .quotient [-7, 2] (-3) ∧ Answers 0 .remainder [-7, 2] (-1) ∧
      Answers 0 .divide [-7, 2] (-4) ∧ Answers 0 .modulo [-7, 2] 1 ∧
      Answers 0 .quotient [-100, -2, 7, -3] (-2) ∧ Answers 0 .divide [-100, -2, 7, 3] 2 := by
  obtain ⟨hpairs, hfolds⟩ := division_families 0
  obtain ⟨⟨hquotient, hremainder, -⟩, ⟨hdivide, hmodulo, -⟩, -⟩ := hpairs (-7) 2 (by decide)
  have hquotients := (hfolds (-100) (-2) [7, -3] (by decide)).1 (by decide)
  have hfloors := (hfolds (-100) (-2) [7, 3] (by decide)).2 (by decide)
  rw [← Arithmetic.fdiv_eq_floor] at hfloors
  exact ⟨hquotient, hremainder, hdivide, hmodulo, hquotients, hfloors⟩

end

end SmallLisp
