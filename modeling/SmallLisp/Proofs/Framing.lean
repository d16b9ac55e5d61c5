import SmallLisp.Service.Connection

namespace SmallLisp.Service

/-- The lines of some bytes, each of them ended by a newline, and what follows the last newline. -/
structure Cut (bytes : List UInt8) (lines : List (List UInt8)) (rest : List UInt8) : Prop where
  bytes_eq : bytes = lines.flatMap (· ++ [newline]) ++ rest
  lines_free : ∀ line ∈ lines, newline ∉ line
  rest_free : newline ∉ rest

def carriageReturn : UInt8 := 13

/-- Bytes with a carriage return before each newline. -/
def withReturns (bytes : List UInt8) : List UInt8 :=
  bytes.flatMap fun byte => if byte = newline then [carriageReturn, newline] else [byte]

variable {bytes line first second rest waiting tail : List UInt8}
variable {lines others : List (List UInt8)}

theorem free_cons_iff {byte : UInt8} :
    newline ∉ byte :: bytes ↔ byte ≠ newline ∧ newline ∉ bytes := by
  rw [List.mem_cons, not_or, ne_comm]

theorem free_append_iff : newline ∉ first ++ second ↔ newline ∉ first ∧ newline ∉ second := by
  rw [List.mem_append, not_or]

theorem cutLines_cut (bytes : List UInt8) : Cut bytes (cutLines bytes).1 (cutLines bytes).2 := by
  induction bytes with
  | nil => exact ⟨rfl, by simp [cutLines], by simp [cutLines]⟩
  | cons byte bytes ih =>
      unfold cutLines
      generalize cutLines bytes = cut at ih
      obtain ⟨lines, rest⟩ := cut
      obtain ⟨hbytes, hlines, hrest⟩ := ih
      dsimp only at hbytes hlines hrest ⊢
      subst hbytes
      by_cases hbyte : byte = newline
      · rw [if_pos hbyte]
        subst hbyte
        exact ⟨rfl, List.forall_mem_cons.mpr ⟨by simp, hlines⟩, hrest⟩
      · rw [if_neg hbyte]
        cases lines with
        | nil => exact ⟨rfl, by simp, free_cons_iff.mpr ⟨hbyte, hrest⟩⟩
        | cons line others =>
            obtain ⟨hline, hothers⟩ := List.forall_mem_cons.mp hlines
            have hgrown := free_cons_iff.mpr ⟨hbyte, hline⟩
            exact ⟨rfl, List.forall_mem_cons.mpr ⟨hgrown, hothers⟩, hrest⟩

theorem cutLines_of_free (h : newline ∉ rest) : cutLines rest = ([], rest) := by
  induction rest with
  | nil => rfl
  | cons byte rest ih =>
      obtain ⟨hbyte, hrest⟩ := free_cons_iff.mp h
      simp only [cutLines, ih hrest, if_neg hbyte]

theorem cutLines_line (h : newline ∉ line) (bytes : List UInt8) :
    cutLines (line ++ newline :: bytes) = (line :: (cutLines bytes).1, (cutLines bytes).2) := by
  induction line with
  | nil => simp [cutLines]
  | cons byte line ih =>
      obtain ⟨hbyte, hline⟩ := free_cons_iff.mp h
      rw [List.cons_append]
      simp only [cutLines, ih hline, if_neg hbyte]

theorem Cut.cutLines_eq (h : Cut bytes lines rest) : cutLines bytes = (lines, rest) := by
  obtain ⟨rfl, hlines, hrest⟩ := h
  induction lines with
  | nil => exact cutLines_of_free hrest
  | cons line lines ih =>
      obtain ⟨hline, hlines⟩ := List.forall_mem_cons.mp hlines
      rw [List.flatMap_cons, List.append_assoc, List.append_assoc, List.singleton_append,
        cutLines_line hline, ih hlines]

theorem Cut.append (hfirst : Cut first lines waiting)
    (hsecond : Cut (waiting ++ second) others rest) :
    Cut (first ++ second) (lines ++ others) rest where
  bytes_eq := by
    rw [hfirst.bytes_eq, List.append_assoc, hsecond.bytes_eq, List.flatMap_append,
      List.append_assoc]
  lines_free := by
    intro line hline
    rcases List.mem_append.mp hline with hline | hline
    · exact hfirst.lines_free line hline
    · exact hsecond.lines_free line hline
  rest_free := hsecond.rest_free

theorem Cut.append_free (h : Cut bytes lines rest) (htail : newline ∉ tail) :
    Cut (bytes ++ tail) lines (rest ++ tail) where
  bytes_eq := by rw [h.bytes_eq, List.append_assoc]
  lines_free := h.lines_free
  rest_free := free_append_iff.mpr ⟨h.rest_free, htail⟩

theorem withReturns_append :
    withReturns (first ++ second) = withReturns first ++ withReturns second :=
  List.flatMap_append

theorem withReturns_of_free (h : newline ∉ bytes) : withReturns bytes = bytes := by
  induction bytes with
  | nil => rfl
  | cons byte bytes ih =>
      obtain ⟨hbyte, hbytes⟩ := free_cons_iff.mp h
      rw [withReturns, List.flatMap_cons, if_neg hbyte]
      exact congrArg (List.cons byte) (ih hbytes)

theorem withReturns_lines (h : ∀ line ∈ lines, newline ∉ line) :
    withReturns (lines.flatMap (· ++ [newline])) =
      (lines.map (· ++ [carriageReturn])).flatMap (· ++ [newline]) := by
  induction lines with
  | nil => rfl
  | cons line lines ih =>
      obtain ⟨hline, hlines⟩ := List.forall_mem_cons.mp h
      rw [List.flatMap_cons, withReturns_append, withReturns_append, withReturns_of_free hline,
        ih hlines, List.map_cons, List.flatMap_cons]
      simp only [List.append_assoc]
      rfl

theorem Cut.returned (h : Cut bytes lines rest) :
    Cut (withReturns bytes) (lines.map (· ++ [carriageReturn])) rest where
  bytes_eq := by
    rw [h.bytes_eq, withReturns_append, withReturns_lines h.lines_free,
      withReturns_of_free h.rest_free]
  lines_free := by
    intro line hline
    obtain ⟨line, hmem, rfl⟩ := List.mem_map.mp hline
    exact free_append_iff.mpr ⟨h.lines_free line hmem, by decide⟩
  rest_free := h.rest_free

theorem trimBytes_concat {byte : UInt8} (h : isBlankByte byte) :
    trimBytes (line ++ [byte]) = trimBytes line := by
  unfold trimBytes
  rw [List.dropWhile_append]
  split
  · rename_i hblank
    rw [List.isEmpty_iff.mp hblank]
    simp [h]
  · rw [List.reverse_append]
    simp [h]

theorem requests_append : requests (lines ++ others) = requests lines ++ requests others := by
  rw [requests, List.map_append, List.filter_append]
  rfl

theorem requests_returned : requests (lines.map (· ++ [carriageReturn])) = requests lines := by
  unfold requests
  rw [List.map_map]
  congr 2
  funext line
  exact trimBytes_concat (by decide)

end SmallLisp.Service
