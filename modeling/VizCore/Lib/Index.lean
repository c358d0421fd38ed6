import VizCore.Lib.Select

/-!
# Lookups in an ordered index

An index lists the rows of a table in the order of a key.  A range of it is walked from the lower
bound of one key to the upper bound of another, and a sorted map collects what is met on the way.

* `index_of_sorted`: rows that were appended in the order of the key are walked as they stand;
* `lowerBound_head`: the walk starts at the least row that is not below the key;
* `scan_eq_filter`: the walk meets exactly the rows between the two keys;
* `foldl_assign`: what a descending walk leaves in a map.
-/

namespace VizCore.Lib

variable {α κ β : Type} [LinearOrder κ] (key : α → κ)

/-- The rows in the order of an index. -/
def index (rows : List α) : List α := orderBy (fun x y => decide (key x < key y)) rows

/-- The index from `lower_bound` on. -/
def lowerBound (k : κ) (rows : List α) : List α :=
  (index key rows).dropWhile fun x => decide (key x < k)

/-- The index from `lower_bound` of one key up to `upper_bound` of another. -/
def scan (first last : κ) (rows : List α) : List α :=
  (lowerBound key first rows).takeWhile fun x => decide (key x ≤ last)

theorem index_perm (rows : List α) : (index key rows).Perm rows := orderBy_perm _ rows

theorem index_le (rows : List α) : (index key rows).Pairwise fun x y => key x ≤ key y :=
  orderBy_le key rows

variable {key}

@[simp] theorem mem_index {x : α} {rows : List α} : x ∈ index key rows ↔ x ∈ rows :=
  mem_orderBy _ x rows

/-- Rows that were appended in the order of the key are walked as they stand. -/
theorem index_of_sorted {rows : List α} (h : rows.Pairwise fun x y => key x ≤ key y) :
    index key rows = rows := by
  induction rows with
  | nil => rfl
  | cons x rest ih =>
    rw [List.pairwise_cons] at h
    show orderBy.insert _ x (index key rest) = x :: rest
    rw [ih h.2]
    cases rest with
    | nil => rfl
    | cons y rest =>
      have hxy : ¬ key y < key x := not_lt.2 (h.1 y List.mem_cons_self)
      unfold orderBy.insert
      rw [if_neg (by simpa using hxy)]

/-! ## Bounds -/

theorem takeWhile_eq_filter {p : α → Bool} {l : List α}
    (h : l.Pairwise fun x y => p y = true → p x = true) : l.takeWhile p = l.filter p := by
  induction l with
  | nil => rfl
  | cons x rest ih =>
    rw [List.pairwise_cons] at h
    by_cases hx : p x = true
    · rw [List.takeWhile_cons_of_pos hx, List.filter_cons_of_pos hx, ih h.2]
    · rw [List.takeWhile_cons_of_neg hx, List.filter_cons_of_neg hx]
      symm
      rw [List.filter_eq_nil_iff]
      intro y hy hpy
      exact hx (h.1 y hy hpy)

theorem dropWhile_eq_filter {p : α → Bool} {l : List α}
    (h : l.Pairwise fun x y => p y = true → p x = true) :
    l.dropWhile p = l.filter fun x => !p x := by
  induction l with
  | nil => rfl
  | cons x rest ih =>
    rw [List.pairwise_cons] at h
    by_cases hx : p x = true
    · rw [List.dropWhile_cons_of_pos hx, List.filter_cons_of_neg (by simp [hx]), ih h.2]
    · rw [List.dropWhile_cons_of_neg hx]
      symm
      rw [List.filter_eq_self]
      intro y hy
      rcases List.mem_cons.1 hy with rfl | hy
      · simpa using hx
      · have hy' : ¬ p y = true := fun hpy => hx (h.1 y hy hpy)
        simpa using hy'

theorem lowerBound_eq_filter (k : κ) (rows : List α) :
    lowerBound key k rows = (index key rows).filter fun x => decide (k ≤ key x) := by
  have hmono : (index key rows).Pairwise fun x y =>
      decide (key y < k) = true → decide (key x < k) = true := by
    refine (index_le key rows).imp ?_
    intro x y hxy hy
    exact decide_eq_true (lt_of_le_of_lt hxy (of_decide_eq_true hy))
  unfold lowerBound
  rw [dropWhile_eq_filter hmono]
  apply List.filter_congr
  intro x _
  by_cases hx : key x < k
  · simp [hx]
  · simp [hx, not_lt.1 hx]

/-- **A walk over a range** meets exactly the rows between the two keys. -/
theorem scan_eq_filter (first last : κ) (rows : List α) :
    scan key first last rows =
      (index key rows).filter fun x => decide (first ≤ key x ∧ key x ≤ last) := by
  unfold scan
  rw [lowerBound_eq_filter]
  have hsorted := (index_le key rows).sublist
    (List.filter_sublist (p := fun x => decide (first ≤ key x)))
  rw [takeWhile_eq_filter, List.filter_filter]
  · apply List.filter_congr
    intro x _
    rw [Bool.decide_and, Bool.and_comm]
  · refine hsorted.imp ?_
    intro x y hxy hy
    exact decide_eq_true (hxy.trans (of_decide_eq_true hy))

theorem mem_lowerBound {k : κ} {rows : List α} {x : α} :
    x ∈ lowerBound key k rows ↔ x ∈ rows ∧ k ≤ key x := by
  rw [lowerBound_eq_filter, List.mem_filter, mem_index, decide_eq_true_eq]

/-- The walk starts at the least row that is not below the key. -/
theorem lowerBound_head {k : κ} {rows : List α} {x : α} {rest : List α}
    (h : lowerBound key k rows = x :: rest) :
    (x ∈ rows ∧ k ≤ key x) ∧ ∀ y ∈ rows, k ≤ key y → key x ≤ key y := by
  have hx : x ∈ lowerBound key k rows := by
    rw [h]
    exact List.mem_cons_self
  refine ⟨mem_lowerBound.1 hx, ?_⟩
  intro y hy hky
  have hy' : y ∈ lowerBound key k rows := mem_lowerBound.2 ⟨hy, hky⟩
  have hsorted : (lowerBound key k rows).Pairwise fun x y => key x ≤ key y := by
    rw [lowerBound_eq_filter]
    exact (index_le key rows).sublist List.filter_sublist
  rw [h] at hsorted hy'
  rcases List.mem_cons.1 hy' with rfl | hy'
  · exact le_refl _
  · exact (List.pairwise_cons.1 hsorted).1 y hy'

theorem lowerBound_eq_nil {k : κ} {rows : List α} (h : lowerBound key k rows = []) :
    ∀ y ∈ rows, key y < k := by
  intro y hy
  by_contra hlt
  have hmem : y ∈ lowerBound key k rows := mem_lowerBound.2 ⟨hy, not_lt.1 hlt⟩
  rw [h] at hmem
  cases hmem

/-! ## Sorted maps -/

/-- `map[k] = v` -/
def assign (k : κ) (v : β) : List (κ × β) → List (κ × β)
  | [] => [(k, v)]
  | (k', v') :: rest =>
    if k < k' then (k, v) :: (k', v') :: rest
    else if k = k' then (k, v) :: rest
    else (k', v') :: assign k v rest

theorem assign_of_lt {k : κ} {v : β} {m : List (κ × β)} (h : ∀ e ∈ m, k < e.1) :
    assign k v m = (k, v) :: m := by
  cases m with
  | nil => rfl
  | cons e rest =>
    unfold assign
    rw [if_pos (h e List.mem_cons_self)]

/-- A descending walk leaves what it met in ascending order. -/
theorem foldl_assign {l m : List (κ × β)} (hdesc : l.Pairwise fun x y => y.1 < x.1)
    (hm : ∀ x ∈ l, ∀ e ∈ m, x.1 < e.1) :
    l.foldl (fun m e => assign e.1 e.2 m) m = l.reverse ++ m := by
  induction l generalizing m with
  | nil => rfl
  | cons x rest ih =>
    rw [List.pairwise_cons] at hdesc
    rw [List.foldl_cons, assign_of_lt (hm x List.mem_cons_self), ih hdesc.2]
    · simp
    · intro y hy e he
      rcases List.mem_cons.1 he with rfl | he
      · exact hdesc.1 y hy
      · exact hm y (List.mem_cons_of_mem x hy) e he

end VizCore.Lib
