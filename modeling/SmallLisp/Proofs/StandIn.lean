import Mathlib.Data.List.Basic
import SmallLisp.Json.Token
import SmallLisp.Text.Category

namespace SmallLisp.Text

/-- Whether a surrogate that stands alone is one. -/
def CodePoint.Genuine : CodePoint → Prop
  | .char _ => True
  | .surrogate code => 0xd800 ≤ code ∧ code < 0xe000

namespace StandIn

variable {code other : Nat} {codes : List Nat} {point next : CodePoint} {points : List CodePoint}

theorem isReplaced_iff : isReplaced code ↔ 0xd800 ≤ code ∧ code < 0xf900 := by
  rw [isReplaced, Bool.and_eq_true, decide_eq_true_eq, decide_eq_true_eq]
  rfl

theorem mem_insert : other ∈ insert code codes ↔ other = code ∨ other ∈ codes := by
  induction codes with
  | nil => simp [insert]
  | cons first codes ih =>
      unfold insert
      split
      · simp
      · split
        · simp [*]
        · simp [ih, or_left_comm]

theorem pairwise_insert (h : codes.Pairwise (· < ·)) :
    (insert code codes).Pairwise (· < ·) := by
  induction h with
  | nil => simp [insert]
  | @cons first codes hfirst hcodes ih =>
      unfold insert
      split
      · rename_i hbefore
        refine .cons ?_ (.cons hfirst hcodes)
        intro other hother
        rcases List.mem_cons.mp hother with rfl | hother
        · exact hbefore
        · exact Nat.lt_trans hbefore (hfirst other hother)
      · split
        · exact .cons hfirst hcodes
        · refine .cons ?_ ih
          intro other hother
          rcases mem_insert.mp hother with rfl | hother
          · omega
          · exact hfirst other hother

theorem mem_foldl_insert (numbers : List Nat) :
    other ∈ numbers.foldl (fun codes code => insert code codes) codes ↔
      other ∈ numbers ∨ other ∈ codes := by
  induction numbers generalizing codes with
  | nil => simp
  | cons number numbers ih => simp [ih, mem_insert, or_left_comm, or_assoc]

theorem pairwise_foldl_insert (numbers : List Nat) (h : codes.Pairwise (· < ·)) :
    (numbers.foldl (fun codes code => insert code codes) codes).Pairwise (· < ·) := by
  induction numbers generalizing codes with
  | nil => exact h
  | cons number numbers ih => exact ih (pairwise_insert h)

theorem pairwise_replaced (points : List CodePoint) : (replaced points).Pairwise (· < ·) :=
  pairwise_foldl_insert _ .nil

theorem mem_replaced (hpoint : point ∈ points) (h : isReplaced point.toNat) :
    point.toNat ∈ replaced points := by
  rw [replaced, mem_foldl_insert]
  exact .inl (List.mem_filter.mpr ⟨List.mem_map_of_mem hpoint, h⟩)

theorem lt_of_idxOf_lt (h : codes.Pairwise (· < ·)) (hcode : code ∈ codes) (hother : other ∈ codes)
    (hlt : codes.idxOf code < codes.idxOf other) : code < other := by
  have hvalues := List.pairwise_iff_getElem.mp h _ _ (List.idxOf_lt_length_of_mem hcode)
    (List.idxOf_lt_length_of_mem hother) hlt
  rwa [List.getElem_idxOf, List.getElem_idxOf] at hvalues

theorem idxOf_lt_iff (h : codes.Pairwise (· < ·)) (hcode : code ∈ codes) (hother : other ∈ codes) :
    codes.idxOf code < codes.idxOf other ↔ code < other := by
  constructor
  · exact lt_of_idxOf_lt h hcode hother
  · intro hlt
    rcases Nat.lt_trichotomy (codes.idxOf code) (codes.idxOf other) with hbefore | hsame | hafter
    · exact hbefore
    · have heq := (List.idxOf_inj hcode).mp hsame
      omega
    · have hgt := lt_of_idxOf_lt h hother hcode hafter
      omega

theorem toNat_privateChar (place : Nat) :
    (privateChar place).toNat = 0xe000 + min place 6399 := by
  have hvalid : (0xe000 + min place 6399).isValidChar := .inr ⟨by omega, by omega⟩
  have hchar : privateChar place = Char.ofNatAux (0xe000 + min place 6399) hvalid :=
    dif_pos hvalid
  rw [hchar]
  rfl

theorem inRanges_eq_false {ranges : List (Nat × Nat)}
    (hranges : ∀ range ∈ ranges, range.2 < 0xe000 ∨ 0xf900 ≤ range.1) (place : Nat) :
    inRanges ranges (privateChar place).toNat = false := by
  rw [inRanges, List.any_eq_false]
  intro range hrange
  rw [toNat_privateChar, Bool.and_eq_true, decide_eq_true_eq, decide_eq_true_eq]
  have hoff := hranges range hrange
  omega

theorem classes_privateChar (place : Nat) :
    isBlank (privateChar place) = false ∧ isDigit (privateChar place) = false ∧
      isLetter (privateChar place) = false := by
  have hcode := toNat_privateChar place
  refine ⟨inRanges_eq_false (by decide) place, ?_, ?_⟩
  · have hlast : ¬ privateChar place ≤ '9' := by
      intro hle
      have hbound : (privateChar place).toNat ≤ '9'.toNat := UInt32.le_iff_toNat_le.mp hle
      rw [hcode] at hbound
      exact absurd hbound (by simp; omega)
    simp [isDigit, hlast]
  · rw [isLetter, if_neg (by omega)]
    exact inRanges_eq_false (by decide +kernel) place

theorem toNat_standIn (hcapacity : codes.length ≤ capacity) (hpoint : isReplaced point.toNat)
    (hmem : point.toNat ∈ codes) :
    (standIn codes point).toNat = 0xe000 + codes.idxOf point.toNat := by
  have hplace := List.idxOf_lt_length_of_mem hmem
  have hbound : codes.length ≤ 6400 := hcapacity
  have hprivate := toNat_privateChar (codes.idxOf point.toNat)
  rw [Nat.min_eq_left (by omega)] at hprivate
  have hchar : standIn codes point = privateChar (codes.idxOf point.toNat) := by
    cases point with
    | char c => exact if_pos hpoint
    | surrogate code => rfl
  rw [hchar, hprivate]

theorem standIn_of_not (hgenuine : point.Genuine) (hpoint : ¬ isReplaced point.toNat)
    (codes : List Nat) : .char (standIn codes point) = point := by
  cases point with
  | char c => exact congrArg CodePoint.char (if_neg hpoint)
  | surrogate code =>
      refine absurd (isReplaced_iff.mpr ?_) hpoint
      exact ⟨hgenuine.1, Nat.lt_trans hgenuine.2 (by decide)⟩

theorem toNat_standIn_of_not (hgenuine : point.Genuine) (hpoint : ¬ isReplaced point.toNat)
    (codes : List Nat) : (standIn codes point).toNat = point.toNat :=
  congrArg CodePoint.toNat (standIn_of_not hgenuine hpoint codes)

theorem ofCode_toNat (hgenuine : point.Genuine) : ofCode point.toNat = point := by
  cases point with
  | char c =>
      have hchar : ¬ (0xd800 ≤ c.toNat ∧ c.toNat < 0xe000) := by
        rcases c.valid with hbefore | hafter
        · exact fun h => absurd hbefore (Nat.not_lt.mpr h.1)
        · exact fun h => absurd h.2 (Nat.not_lt.mpr hafter.1)
      rw [ofCode, CodePoint.toNat, if_neg hchar, Char.ofNat_toNat]
  | surrogate code => exact if_pos hgenuine

theorem represented_standIn (hcapacity : codes.length ≤ capacity) (hgenuine : point.Genuine)
    (hcodes : isReplaced point.toNat → point.toNat ∈ codes) :
    represented codes (standIn codes point) = point := by
  by_cases hpoint : isReplaced point.toNat
  · have hmem := hcodes hpoint
    have hcode := toNat_standIn hcapacity hpoint hmem
    have hplace : codes[(standIn codes point).toNat - firstPrivate]? = some point.toNat := by
      rw [hcode, firstPrivate, Nat.add_sub_cancel_left, List.getElem?_idxOf hmem]
    have hprivate : isReplaced (standIn codes point).toNat := by
      have hlength := List.idxOf_lt_length_of_mem hmem
      have hbound : codes.length ≤ 6400 := hcapacity
      rw [hcode, isReplaced_iff]
      omega
    rw [represented, if_pos hprivate, hplace]
    exact ofCode_toNat hgenuine
  · have hkept := toNat_standIn_of_not hgenuine hpoint codes
    rw [represented, if_neg (by rwa [hkept])]
    exact standIn_of_not hgenuine hpoint codes

theorem decode_encode (hcapacity : (replaced points).length ≤ capacity)
    (hgenuine : ∀ point ∈ points, point.Genuine) :
    decode (replaced points) (encode (replaced points) points) = points := by
  rw [decode, encode, List.map_map]
  calc points.map (represented (replaced points) ∘ standIn (replaced points))
      = points.map id := by
        apply List.map_congr_left
        intro point hpoint
        exact represented_standIn hcapacity (hgenuine point hpoint) (mem_replaced hpoint)
    _ = points := List.map_id points

/-- With characters for private use enough, the order of code points is kept. -/
theorem standIn_lt_iff (hcapacity : (replaced points).length ≤ capacity)
    (hgenuine : ∀ point ∈ points, point.Genuine) (hpoint : point ∈ points) (hnext : next ∈ points) :
    (standIn (replaced points) point).toNat < (standIn (replaced points) next).toNat ↔
      point.toNat < next.toNat := by
  have hbound : (replaced points).length ≤ 6400 := hcapacity
  have hplace {point : CodePoint} (hpoint : point ∈ points) (h : isReplaced point.toNat) :
      (standIn (replaced points) point).toNat = 0xe000 + (replaced points).idxOf point.toNat ∧
        (replaced points).idxOf point.toNat < 6400 ∧
        0xd800 ≤ point.toNat ∧ point.toNat < 0xf900 := by
    have hmem := mem_replaced hpoint h
    have hlength := List.idxOf_lt_length_of_mem hmem
    exact ⟨toNat_standIn hcapacity h hmem, by omega, isReplaced_iff.mp h⟩
  have hkept {point : CodePoint} (hpoint : point ∈ points) (h : ¬ isReplaced point.toNat) :
      (standIn (replaced points) point).toNat = point.toNat ∧
        ¬ (0xd800 ≤ point.toNat ∧ point.toNat < 0xf900) :=
    ⟨toNat_standIn_of_not (hgenuine point hpoint) h _, isReplaced_iff.not.mp h⟩
  by_cases hfirst : isReplaced point.toNat
  · have hfirstPlace := hplace hpoint hfirst
    by_cases hsecond : isReplaced next.toNat
    · have hsecondPlace := hplace hnext hsecond
      rw [hfirstPlace.1, hsecondPlace.1, Nat.add_lt_add_iff_left]
      exact idxOf_lt_iff (pairwise_replaced points) (mem_replaced hpoint hfirst)
        (mem_replaced hnext hsecond)
    · have hsecondKept := hkept hnext hsecond
      omega
  · have hfirstKept := hkept hpoint hfirst
    by_cases hsecond : isReplaced next.toNat
    · have hsecondPlace := hplace hnext hsecond
      omega
    · have hsecondKept := hkept hnext hsecond
      omega

end StandIn

end SmallLisp.Text

namespace SmallLisp.Json.Token

open Text

variable {point : CodePoint} {points : List CodePoint}

theorem genuine_unitPoint (unit : Nat) : (unitPoint unit).Genuine := by
  unfold unitPoint
  split
  · assumption
  · exact True.intro

theorem genuine_consPoint (hpoint : point.Genuine) (hpoints : ∀ next ∈ points, next.Genuine) :
    ∀ next ∈ consPoint point points, next.Genuine := by
  unfold consPoint
  split
  · obtain ⟨hlow, hrest⟩ := List.forall_mem_cons.mp hpoints
    split
    · exact List.forall_mem_cons.mpr ⟨True.intro, hrest⟩
    · exact List.forall_mem_cons.mpr ⟨hpoint, hpoints⟩
  · exact List.forall_mem_cons.mpr ⟨hpoint, hpoints⟩

theorem genuine_takeString {cs after : List Char} (h : takeString? cs = some (points, after)) :
    ∀ point ∈ points, point.Genuine := by
  fun_induction takeString? cs generalizing points after with
  | case1 => cases h
  | case2 rest =>
      obtain ⟨rfl, -⟩ := Prod.mk.inj (Option.some.inj h)
      exact List.forall_mem_nil _
  | case3 a b c d rest hdigits ih =>
      simp only [Option.map_eq_some_iff, Prod.exists, Prod.mk.injEq] at h
      obtain ⟨others, tail, hothers, rfl, -⟩ := h
      exact genuine_consPoint (genuine_unitPoint _) (ih hothers)
  | case4 => cases h
  | case5 c rest _ char _ ih =>
      simp only [Option.map_eq_some_iff, Prod.exists, Prod.mk.injEq] at h
      obtain ⟨others, tail, hothers, rfl, -⟩ := h
      exact List.forall_mem_cons.mpr ⟨True.intro, ih hothers⟩
  | case6 => cases h
  | case7 => cases h
  | case8 c rest _ _ _ _ ih =>
      simp only [Option.map_eq_some_iff, Prod.exists, Prod.mk.injEq] at h
      obtain ⟨others, tail, hothers, rfl, -⟩ := h
      exact List.forall_mem_cons.mpr ⟨True.intro, ih hothers⟩

/-- With characters for private use enough, the inside of a string comes back from its stand-in. -/
theorem decode_encode_takeString {cs after : List Char} (h : takeString? cs = some (points, after))
    (hcapacity : (StandIn.replaced points).length ≤ StandIn.capacity) :
    StandIn.decode (StandIn.replaced points) (StandIn.encode (StandIn.replaced points) points) =
      points :=
  StandIn.decode_encode hcapacity (genuine_takeString h)

end SmallLisp.Json.Token
