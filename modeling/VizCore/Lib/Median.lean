import Mathlib.Data.List.Basic
import Mathlib.Order.Bounds.Basic
import VizCore.Lib.Select

/-!
# Order statistics of a list

The value of rank `m` of a list under a key, and what a selection algorithm leaves.

* `IsRank f l m v`: at most `m` keys lie below `v` and more than `m` up to it;
* `IsRank.mono`: keys that are greater one by one have a greater value of rank `m`;
* `IsRank.isGreatest`: the value of rank `m` as a threshold;
* `NthElement lt k l l'`: `l'` is `l` after a selection of its `k`-th element;
* `NthElement.isRank`: what stands at the `k`-th place has the value of rank `k`.
-/

namespace VizCore.Lib

variable {α κ : Type} [LinearOrder κ]

/-! ## Ranks -/

/-- The value of rank `m`, counted from 0, of the keys of a list. -/
structure IsRank (f : α → κ) (l : List α) (m : Nat) (v : κ) : Prop where
  below : l.countP (fun x => decide (f x < v)) ≤ m
  upTo : m < l.countP (fun x => decide (f x ≤ v))

variable {f g : α → κ} {l l' : List α} {m : Nat} {v w : κ}

theorem IsRank.perm (h : IsRank f l m v) (hperm : l'.Perm l) : IsRank f l' m v := by
  constructor
  · rw [hperm.countP_eq]
    exact h.below
  · rw [hperm.countP_eq]
    exact h.upTo

theorem IsRank.of_map {β : Type} {p : β → α} {l : List β} (h : IsRank f (l.map p) m v) :
    IsRank (fun x => f (p x)) l m v := by
  constructor
  · have hbelow := h.below
    rw [List.countP_map] at hbelow
    exact hbelow
  · have hupTo := h.upTo
    rw [List.countP_map] at hupTo
    exact hupTo

/-- **Order statistics are monotone** in the keys. -/
theorem IsRank.mono (hf : IsRank f l m v) (hg : IsRank g l m w) (h : ∀ x ∈ l, f x ≤ g x) :
    v ≤ w := by
  by_contra hlt
  rw [not_le] at hlt
  -- Whatever `g` keeps up to `w` lies below `v` for `f`.
  have hcount : l.countP (fun x => decide (g x ≤ w)) ≤ l.countP (fun x => decide (f x < v)) := by
    apply List.countP_mono_left
    intro x hx hgx
    have hle : g x ≤ w := of_decide_eq_true hgx
    exact decide_eq_true (lt_of_le_of_lt ((h x hx).trans hle) hlt)
  have hbelow := hf.below
  have hupTo := hg.upTo
  omega

/-- A list has one value of each rank. -/
theorem IsRank.unique (hv : IsRank f l m v) (hw : IsRank f l m w) : v = w :=
  le_antisymm (hv.mono hw fun _ _ => le_rfl) (hw.mono hv fun _ _ => le_rfl)

/-- **The value of rank `m`** is the greatest one that all keys but `m` reach. -/
theorem IsRank.isGreatest (h : IsRank f l m v) :
    IsGreatest {w | l.length - m ≤ l.countP fun x => decide (w ≤ f x)} v := by
  constructor
  · have hbelow := h.below
    have hsplit := List.length_eq_countP_add_countP (fun x => decide (f x < v)) (l := l)
    have hreach : l.countP (fun x => !decide (f x < v)) = l.countP fun x => decide (v ≤ f x) := by
      apply List.countP_congr
      intro x _
      simp
    show l.length - m ≤ l.countP fun x => decide (v ≤ f x)
    simp only [decide_not, Bool.decide_eq_true] at hsplit
    rw [hreach] at hsplit
    omega
  · intro w hw
    by_contra hlt
    rw [not_le] at hlt
    have hupTo := h.upTo
    have hsplit := List.length_eq_countP_add_countP (fun x => decide (f x ≤ v)) (l := l)
    -- Whatever reaches `w` is above `v`.
    have hreach : l.countP (fun x => decide (w ≤ f x)) ≤
        l.countP (fun x => !decide (f x ≤ v)) := by
      apply List.countP_mono_left
      intro x _ hx
      have hle : w ≤ f x := of_decide_eq_true hx
      simp [lt_of_lt_of_le hlt hle]
    have hw : l.length - m ≤ l.countP fun x => decide (w ≤ f x) := hw
    simp only [decide_not, Bool.decide_eq_true] at hsplit
    omega

/-! ## Selections -/

/-- An order up to ties. -/
structure StrictWeakOrder (lt : α → α → Bool) : Prop where
  irrefl : ∀ x, lt x x = false
  trans : ∀ x y z, lt x y = true → lt y z = true → lt x z = true
  tied : ∀ x y z, lt x y = false → lt y z = false → lt x z = false

theorem StrictWeakOrder.key (f : α → κ) : StrictWeakOrder fun x y => decide (f x < f y) where
  irrefl x := decide_eq_false (lt_irrefl (f x))
  trans x y z hxy hyz :=
    decide_eq_true (lt_trans (of_decide_eq_true hxy) (of_decide_eq_true hyz))
  tied x y z hxy hyz := by
    have hyx : f y ≤ f x := not_lt.1 (of_decide_eq_false hxy)
    have hzy : f z ≤ f y := not_lt.1 (of_decide_eq_false hyz)
    exact decide_eq_false (not_lt.2 (hzy.trans hyx))

/-- The list `l'` has the rows of `l`, those before its `k`-th row not after it in the order and
those behind it not before it. -/
structure NthElement (lt : α → α → Bool) (k : Nat) (l l' : List α) : Prop where
  perm : l'.Perm l
  before : ∀ x ∈ l'.take k, ∀ y, l'[k]? = some y → lt y x = false
  behind : ∀ x ∈ l'.drop (k + 1), ∀ y, l'[k]? = some y → lt x y = false

/-- **The selected row** has the key of rank `k`. -/
theorem NthElement.isRank {k : Nat}
    (h : NthElement (fun x y => decide (f x < f y)) k l l') (hk : k < l.length) :
    ∃ x ∈ l, l'[k]? = some x ∧ IsRank f l k (f x) := by
  have hlen : k < l'.length := by
    rw [h.perm.length_eq]
    exact hk
  obtain ⟨y, hget⟩ : ∃ y, l'[k]? = some y := ⟨l'[k], List.getElem?_eq_getElem hlen⟩
  have hmem : y ∈ l' := List.mem_of_getElem? hget
  have hsplit : l' = l'.take k ++ y :: l'.drop (k + 1) := by
    obtain ⟨_, rfl⟩ := List.getElem?_eq_some_iff.1 hget
    rw [← List.drop_eq_getElem_cons hlen, List.take_append_drop]
  have hbefore : ∀ x ∈ l'.take k, f x ≤ f y := by
    intro x hx
    exact not_lt.1 (of_decide_eq_false (h.before x hx _ hget))
  have hbehind : ∀ x ∈ l'.drop (k + 1), f y ≤ f x := by
    intro x hx
    exact not_lt.1 (of_decide_eq_false (h.behind x hx _ hget))
  have htake : (l'.take k).length = k := by
    rw [List.length_take]
    omega
  refine ⟨y, h.perm.mem_iff.1 hmem, hget, IsRank.perm ?_ h.perm.symm⟩
  constructor
  · have hzero : (l'.drop (k + 1)).countP (fun x => decide (f x < f y)) = 0 := by
      rw [List.countP_eq_zero]
      intro x hx hlt
      exact absurd (of_decide_eq_true hlt) (not_lt.2 (hbehind x hx))
    have hle := List.countP_le_length (l := l'.take k)
      (p := fun x => decide (f x < f y))
    have hcount : l'.countP (fun x => decide (f x < f y))
        = (l'.take k).countP (fun x => decide (f x < f y)) := by
      conv_lhs => rw [hsplit]
      rw [List.countP_append, List.countP_cons, hzero, decide_eq_false (lt_irrefl _)]
      rfl
    rw [hcount]
    omega
  · have hall : (l'.take k).countP (fun x => decide (f x ≤ f y)) = (l'.take k).length := by
      rw [List.countP_eq_length]
      intro x hx
      exact decide_eq_true (hbefore x hx)
    have hcount : l'.countP (fun x => decide (f x ≤ f y))
        = k + ((l'.drop (k + 1)).countP (fun x => decide (f x ≤ f y)) + 1) := by
      conv_lhs => rw [hsplit]
      rw [List.countP_append, List.countP_cons, hall, htake, decide_eq_true (le_refl _)]
      rfl
    omega

theorem orderBy_insert_weak {lt : α → α → Bool} (hlt : StrictWeakOrder lt) {x : α}
    (h : l.Pairwise fun x y => lt y x = false) :
    (orderBy.insert lt x l).Pairwise fun x y => lt y x = false := by
  induction l with
  | nil => exact List.pairwise_singleton _ _
  | cons y rest ih =>
    have hcons := h
    rw [List.pairwise_cons] at h
    unfold orderBy.insert
    split
    · rename_i hyx
      refine List.pairwise_cons.2 ⟨?_, ih h.2⟩
      intro z hz
      rw [mem_orderBy_insert] at hz
      rcases hz with rfl | hz
      · rw [Bool.eq_false_iff]
        intro hxy
        have hyy := hlt.trans y z y hyx hxy
        rw [hlt.irrefl y] at hyy
        cases hyy
      · exact h.1 z hz
    · rename_i hyx
      have hyx : lt y x = false := Bool.eq_false_iff.2 hyx
      refine List.pairwise_cons.2 ⟨?_, hcons⟩
      intro z hz
      rcases List.mem_cons.1 hz with rfl | hz
      · exact hyx
      · exact hlt.tied z y x (h.1 z hz) hyx

/-- Sorting is a selection at every place. -/
theorem nthElement_orderBy {lt : α → α → Bool} (hlt : StrictWeakOrder lt) (k : Nat) (l : List α) :
    NthElement lt k l (orderBy lt l) := by
  have hsorted : (orderBy lt l).Pairwise fun x y => lt y x = false := by
    induction l with
    | nil => exact List.Pairwise.nil
    | cons x rest ih => exact orderBy_insert_weak hlt ih
  generalize hsort : orderBy lt l = sorted at hsorted
  have hperm : sorted.Perm l := by
    rw [← hsort]
    exact orderBy_perm _ l
  constructor
  · exact hperm
  · intro x hx y hy
    obtain ⟨hk, rfl⟩ := List.getElem?_eq_some_iff.1 hy
    rw [← List.take_append_drop k sorted, List.pairwise_append] at hsorted
    have hmem : sorted[k] ∈ sorted.drop k := by
      rw [List.drop_eq_getElem_cons hk]
      exact List.mem_cons_self
    exact hsorted.2.2 x hx _ hmem
  · intro x hx y hy
    obtain ⟨hk, rfl⟩ := List.getElem?_eq_some_iff.1 hy
    have htail := hsorted.sublist (List.drop_sublist k sorted)
    rw [List.drop_eq_getElem_cons hk, List.pairwise_cons] at htail
    exact htail.1 x hx

end VizCore.Lib
