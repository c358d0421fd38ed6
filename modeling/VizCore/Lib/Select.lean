import VizCore.Lib.Table

/-!
# Selection in an order

A round takes the first few of the candidates in one order and fills the rest of the
seats from a queue that is kept in another order.

* `FirstOf before P k l`: `l` lists the first `k` of those with `P`;
* `orderBy_pairwise`: an index iterates in its order;
* `upTo`: the part of a queue that is walked until `k` seats are taken.
-/

namespace VizCore.Lib

variable {α : Type}

/-- The list of the first `k` elements with the property `P`, or of all of them when there
are fewer. -/
structure FirstOf (before : α → α → Bool) (P : α → Prop) (k : Nat) (l : List α) : Prop where
  sound : ∀ x ∈ l, P x
  ordered : l.Pairwise fun x y => before x y = true
  initial : ∀ x ∈ l, ∀ y, P y → before y x = true → y ∈ l
  atMost : l.length ≤ k
  rest : l.length < k → ∀ y, P y → y ∈ l

/-- A strict order that compares any two rows of the list. -/
structure Orders (before : α → α → Bool) (l : List α) : Prop where
  asymm : ∀ x y, before x y = true → before y x = false
  trans : ∀ x y z, before x y = true → before y z = true → before x z = true
  total : ∀ x ∈ l, ∀ y ∈ l, x ≠ y → before x y = true ∨ before y x = true

theorem orderBy_insert_pairwise {before : α → α → Bool} {x : α} {l : List α}
    (htrans : ∀ x y z, before x y = true → before y z = true → before x z = true)
    (htotal : ∀ y ∈ l, before x y = true ∨ before y x = true)
    (h : l.Pairwise fun x y => before x y = true) :
    (orderBy.insert before x l).Pairwise fun x y => before x y = true := by
  induction l with
  | nil => exact List.pairwise_singleton _ _
  | cons y rest ih =>
    rw [List.pairwise_cons] at h
    unfold orderBy.insert
    split
    · rename_i hyx
      rw [List.pairwise_cons]
      refine ⟨?_, ih (fun z hz => htotal z (List.mem_cons_of_mem y hz)) h.2⟩
      intro z hz
      rw [mem_orderBy_insert] at hz
      rcases hz with rfl | hz
      · exact hyx
      · exact h.1 z hz
    · rename_i hyx
      have hxy : before x y = true := (htotal y List.mem_cons_self).resolve_right hyx
      rw [List.pairwise_cons, List.pairwise_cons]
      refine ⟨?_, h⟩
      intro z hz
      rcases List.mem_cons.1 hz with rfl | hz
      · exact hxy
      · exact htrans x y z hxy (h.1 z hz)

/-- **An index** lists its rows in its order. -/
theorem orderBy_pairwise {before : α → α → Bool} {l : List α} (h : Orders before l)
    (hnodup : l.Nodup) : (orderBy before l).Pairwise fun x y => before x y = true := by
  induction l with
  | nil => exact List.Pairwise.nil
  | cons x rest ih =>
    rw [List.nodup_cons] at hnodup
    have hrest : Orders before rest :=
      ⟨h.asymm, h.trans, fun y hy z hz =>
        h.total y (List.mem_cons_of_mem x hy) z (List.mem_cons_of_mem x hz)⟩
    refine orderBy_insert_pairwise h.trans (fun y hy => ?_) (ih hrest hnodup.2)
    rw [mem_orderBy] at hy
    refine h.total x List.mem_cons_self y (List.mem_cons_of_mem x hy) ?_
    rintro rfl
    exact hnodup.1 hy

theorem orderBy_insert_le {κ : Type} [LinearOrder κ] {f : α → κ} {x : α} {l : List α}
    (h : l.Pairwise fun x y => f x ≤ f y) :
    (orderBy.insert (fun x y => decide (f x < f y)) x l).Pairwise fun x y => f x ≤ f y := by
  induction l with
  | nil => exact List.pairwise_singleton _ _
  | cons y rest ih =>
    have hcons := h
    rw [List.pairwise_cons] at h
    unfold orderBy.insert
    split
    · rename_i hyx
      refine List.pairwise_cons.2 ⟨fun z hz => ?_, ih h.2⟩
      rw [mem_orderBy_insert] at hz
      rcases hz with rfl | hz
      · exact (of_decide_eq_true hyx).le
      · exact h.1 z hz
    · rename_i hyx
      have hxy : f x ≤ f y := not_lt.1 (by simpa using hyx)
      refine List.pairwise_cons.2 ⟨fun z hz => ?_, hcons⟩
      rcases List.mem_cons.1 hz with rfl | hz
      · exact hxy
      · exact hxy.trans (h.1 z hz)

/-- An index by a key lists its rows in ascending order, also where keys are equal. -/
theorem orderBy_le {κ : Type} [LinearOrder κ] (f : α → κ) (l : List α) :
    (orderBy (fun x y => decide (f x < f y)) l).Pairwise fun x y => f x ≤ f y := by
  induction l with
  | nil => exact List.Pairwise.nil
  | cons x rest ih => exact orderBy_insert_le ih

/-- The head of an ordered list is what comes first in the order. -/
theorem FirstOf.take {before : α → α → Bool} {l : List α}
    (hasymm : ∀ x y, before x y = true → before y x = false)
    (h : l.Pairwise fun x y => before x y = true) (k : Nat) :
    FirstOf before (· ∈ l) k (l.take k) where
  sound x hx := List.mem_of_mem_take hx
  ordered := h.sublist (List.take_sublist k l)
  initial x hx y hy hyx := by
    rw [← List.take_append_drop k l] at h hy
    rw [List.pairwise_append] at h
    rcases List.mem_append.1 hy with hy | hy
    · exact hy
    · have hxy := hasymm x y (h.2.2 x hx y hy)
      rw [hyx] at hxy
      cases hxy
  atMost := List.length_take_le k l
  rest hlt y hy := by
    rw [List.length_take, min_lt_iff] at hlt
    have hle : l.length ≤ k := by omega
    rw [List.take_of_length_le hle]
    exact hy

theorem FirstOf.congr {before : α → α → Bool} {P Q : α → Prop} {k : Nat} {l : List α}
    (h : FirstOf before P k l) (hPQ : ∀ x, P x ↔ Q x) : FirstOf before Q k l where
  sound x hx := (hPQ x).1 (h.sound x hx)
  ordered := h.ordered
  initial x hx y hy := h.initial x hx y ((hPQ y).2 hy)
  atMost := h.atMost
  rest hlt y hy := h.rest hlt y ((hPQ y).2 hy)

/-- The first rows of an index among those with `p`. -/
theorem FirstOf.orderBy {before : α → α → Bool} {l : List α} (h : Orders before l)
    (hnodup : l.Nodup) (p : α → Bool) (k : Nat) :
    FirstOf before (fun x => x ∈ l ∧ p x = true) k (((orderBy before l).filter p).take k) := by
  have hpair := (orderBy_pairwise h hnodup).sublist (List.filter_sublist (p := p))
  refine (FirstOf.take h.asymm hpair k).congr fun x => ?_
  rw [List.mem_filter, mem_orderBy]

theorem FirstOf.nodup {before : α → α → Bool} {P : α → Prop} {k : Nat} {l : List α}
    (h : FirstOf before P k l) (hasymm : ∀ x y, before x y = true → before y x = false) :
    l.Nodup := by
  refine h.ordered.imp fun {x y} hxy => ?_
  rintro rfl
  have hyx := hasymm x x hxy
  rw [hxy] at hyx
  cases hyx

/-! ## Walking a queue -/

/-- The part of the queue that is walked until `k` seats are taken by those with `p`. -/
def upTo (p : α → Bool) : Nat → List α → List α
  | _, [] => []
  | 0, _ :: _ => []
  | k + 1, x :: rest => if p x then x :: upTo p k rest else x :: upTo p (k + 1) rest

theorem filter_upTo (p : α → Bool) (k : Nat) (l : List α) :
    (upTo p k l).filter p = (l.filter p).take k := by
  induction l generalizing k with
  | nil => cases k <;> rfl
  | cons x rest ih =>
    cases k with
    | zero => rfl
    | succ k =>
      unfold upTo
      by_cases hx : p x = true
      · rw [if_pos hx, List.filter_cons_of_pos hx, List.filter_cons_of_pos hx, ih,
          List.take_succ_cons]
      · rw [if_neg hx, List.filter_cons_of_neg hx, List.filter_cons_of_neg hx, ih]

/-- The walk is a first part of the queue. -/
theorem upTo_append (p : α → Bool) (k : Nat) (l : List α) : ∃ rest, l = upTo p k l ++ rest := by
  induction l generalizing k with
  | nil => exact ⟨[], by cases k <;> rfl⟩
  | cons x rest ih =>
    cases k with
    | zero => exact ⟨x :: rest, rfl⟩
    | succ k =>
      unfold upTo
      split
      · obtain ⟨tail, htail⟩ := ih k
        exact ⟨tail, by rw [List.cons_append, ← htail]⟩
      · obtain ⟨tail, htail⟩ := ih (k + 1)
        exact ⟨tail, by rw [List.cons_append, ← htail]⟩

/-- With a seat left at the end of the queue everything was passed. -/
theorem upTo_eq_self {p : α → Bool} {k : Nat} {l : List α} (h : (l.filter p).length < k) :
    upTo p k l = l := by
  induction l generalizing k with
  | nil => cases k <;> rfl
  | cons x rest ih =>
    cases k with
    | zero => exact absurd h (Nat.not_lt_zero _)
    | succ k =>
      unfold upTo
      by_cases hx : p x = true
      · rw [List.filter_cons_of_pos hx, List.length_cons] at h
        rw [if_pos hx, ih (by omega)]
      · rw [List.filter_cons_of_neg hx] at h
        rw [if_neg hx, ih h]

/-- When all seats are taken the walk ends with the one that took the last of them. -/
theorem upTo_getLast {p : α → Bool} {k : Nat} {l : List α} (hk : 0 < k)
    (h : k ≤ (l.filter p).length) : ∃ x, (upTo p k l).getLast? = some x ∧ p x = true := by
  induction l generalizing k with
  | nil =>
    rw [List.filter_nil, List.length_nil] at h
    omega
  | cons x rest ih =>
    obtain ⟨k, rfl⟩ := Nat.exists_eq_succ_of_ne_zero (Nat.pos_iff_ne_zero.1 hk)
    unfold upTo
    by_cases hx : p x = true
    · rw [if_pos hx]
      rw [List.filter_cons_of_pos hx, List.length_cons] at h
      cases k with
      | zero =>
        refine ⟨x, ?_, hx⟩
        cases rest <;> rfl
      | succ k =>
        obtain ⟨y, hy, hpy⟩ := ih (Nat.succ_pos k) (by omega)
        exact ⟨y, by rw [List.getLast?_cons, hy]; rfl, hpy⟩
    · rw [if_neg hx]
      rw [List.filter_cons_of_neg hx] at h
      obtain ⟨y, hy, hpy⟩ := ih (Nat.succ_pos k) h
      exact ⟨y, by rw [List.getLast?_cons, hy]; rfl, hpy⟩

/-- **What is passed**: the whole queue while seats are left, else everything up to one that
took a seat. -/
theorem mem_upTo {before : α → α → Bool} {p : α → Bool} {k : Nat} {l : List α} (hk : 0 < k)
    (hasymm : ∀ x y, before x y = true → before y x = false)
    (h : l.Pairwise fun x y => before x y = true) (x : α) :
    x ∈ upTo p k l ↔ x ∈ l ∧ (((l.filter p).take k).length < k ∨
      ∃ y ∈ (l.filter p).take k, y = x ∨ before x y = true) := by
  obtain ⟨rest, hrest⟩ := upTo_append p k l
  rw [← filter_upTo]
  constructor
  · intro hx
    refine ⟨by rw [hrest]; exact List.mem_append_left _ hx, ?_⟩
    by_cases hfull : k ≤ (l.filter p).length
    · right
      obtain ⟨y, hy, hpy⟩ := upTo_getLast hk hfull
      obtain ⟨init, hinit⟩ := List.getLast?_eq_some_iff.1 hy
      refine ⟨y, List.mem_filter.2 ⟨List.mem_of_getLast? hy, hpy⟩, ?_⟩
      rw [hinit] at hx
      rcases List.mem_append.1 hx with hx | hx
      · right
        rw [hrest, hinit] at h
        exact (List.pairwise_append.1 (List.pairwise_append.1 h).1).2.2 x hx y
          List.mem_cons_self
      · left
        exact (List.mem_singleton.1 hx).symm
    · left
      rw [filter_upTo, List.length_take]
      omega
  · rintro ⟨hx, hroom | ⟨y, hy, hxy⟩⟩
    · rw [filter_upTo, List.length_take, min_lt_iff] at hroom
      rw [upTo_eq_self (by omega)]
      exact hx
    · have hy' : y ∈ upTo p k l := (List.mem_filter.1 hy).1
      rw [hrest] at hx
      rcases List.mem_append.1 hx with hx | hx
      · exact hx
      · exfalso
        rw [hrest] at h
        have hyx := (List.pairwise_append.1 h).2.2 y hy' x hx
        rcases hxy with rfl | hxy
        · have := hasymm y y hyx
          rw [hyx] at this
          cases this
        · have := hasymm x y hxy
          rw [hyx] at this
          cases this

end VizCore.Lib
