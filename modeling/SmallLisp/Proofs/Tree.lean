import SmallLisp.Value

namespace SmallLisp.Value

@[elab_as_elim, induction_eliminator]
theorem induct {motive : Value → Prop}
    (boolean : ∀ truth, motive (.boolean truth))
    (integer : ∀ number, motive (.integer number))
    (decimal : ∀ number, motive (.decimal number))
    (text : ∀ content, motive (.text content))
    (symbol : ∀ name, motive (.symbol name))
    (character : ∀ char, motive (.character char))
    (list : ∀ items, (∀ item ∈ items, motive item) → motive (.list items))
    (absent : motive .absent) : ∀ value, motive value
  | .boolean truth => boolean truth
  | .integer number => integer number
  | .decimal number => decimal number
  | .text content => text content
  | .symbol name => symbol name
  | .character char => character char
  | .list items => list items fun item _ =>
      induct boolean integer decimal text symbol character list absent item
  | .absent => absent

/-- Whether a property holds of every part of a value that is no list. -/
@[simp] def EveryLeaf (property : Value → Prop) : Value → Prop
  | list items => ∀ item ∈ items, EveryLeaf property item
  | leaf => property leaf

theorem EveryLeaf.imp {property other : Value → Prop} {value : Value}
    (h : value.EveryLeaf property) (himp : ∀ leaf, property leaf → other leaf) :
    value.EveryLeaf other := by
  induction value with
  | list items ih =>
      simp only [EveryLeaf] at h ⊢
      exact fun item hitem => ih item hitem (h item hitem)
  | _ =>
      simp only [EveryLeaf] at h ⊢
      exact himp _ h

/-- A value without holes. -/
def WellFormed (value : Value) : Prop :=
  value.EveryLeaf (· ≠ absent)

@[simp] theorem wellFormed_list {items : List Value} :
    (list items).WellFormed ↔ ∀ item ∈ items, item.WellFormed := by
  simp [WellFormed]

mutual

/-- How many lists stand inside one another, the value itself counted. -/
@[simp] def depth : Value → Nat
  | list items => greatestDepth items + 1
  | _ => 0

/-- The greatest depth in a list of values. -/
def greatestDepth : List Value → Nat
  | [] => 0
  | item :: items => max item.depth (greatestDepth items)

end

theorem greatestDepth_le_iff {items : List Value} {bound : Nat} :
    greatestDepth items ≤ bound ↔ ∀ item ∈ items, item.depth ≤ bound := by
  induction items with
  | nil => simp [greatestDepth]
  | cons item items ih =>
      rw [greatestDepth, Nat.max_le, ih, List.forall_mem_cons]

theorem greatestDepth_reverse (items : List Value) :
    greatestDepth items.reverse = greatestDepth items := by
  apply Nat.le_antisymm
  · exact greatestDepth_le_iff.mpr fun item hitem =>
      greatestDepth_le_iff.mp (Nat.le_refl _) item (List.mem_reverse.mp hitem)
  · exact greatestDepth_le_iff.mpr fun item hitem =>
      greatestDepth_le_iff.mp (Nat.le_refl _) item (List.mem_reverse.mpr hitem)

theorem depth_lt_of_mem {item : Value} {items : List Value} (h : item ∈ items) :
    item.depth < (list items).depth := by
  have hbound := greatestDepth_le_iff.mp (Nat.le_refl (greatestDepth items)) item h
  simp only [depth]
  omega

theorem depth_list_le_succ_iff {items : List Value} {bound : Nat} :
    (list items).depth ≤ bound + 1 ↔ ∀ item ∈ items, item.depth ≤ bound := by
  simp [greatestDepth_le_iff]

@[simp] theorem depth_quotation (expression : Value) :
    expression.quotation.depth = expression.depth + 1 := by
  simp [quotation, greatestDepth]

/-- That a value stands somewhere inside another one, or is that one itself. -/
inductive Part : Value → Value → Prop
  | whole (value : Value) : Part value value
  | inside {part item : Value} {items : List Value} :
      item ∈ items → Part part item → Part part (list items)

theorem Part.of_mem {item : Value} {items : List Value} (h : item ∈ items) :
    item.Part (list items) :=
  .inside h (.whole item)

theorem Part.trans {part value whole : Value} (h : part.Part value) (hvalue : value.Part whole) :
    part.Part whole := by
  induction hvalue with
  | whole => exact h
  | inside hitem _ ih => exact .inside hitem ih

theorem Part.everyLeaf {property : Value → Prop} {part whole : Value} (h : part.Part whole)
    (hwhole : whole.EveryLeaf property) : part.EveryLeaf property := by
  induction h with
  | whole => exact hwhole
  | inside hitem _ ih =>
      simp only [EveryLeaf] at hwhole
      exact ih (hwhole _ hitem)

end SmallLisp.Value
