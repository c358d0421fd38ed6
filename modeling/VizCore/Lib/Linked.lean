import Mathlib.Data.List.Infix

/-!
# Linked chains

Blocks that name the block before them.  A chain is linked when every block names the one
before it, the first one names the origin, and the heights count the blocks.

* `Linked.get`: a block of a linked chain stands at its height;
* `Linked.previous_of_get`: what it names is the tip of the chain below it;
* `Linked.of_prefix`: the lower part of a linked chain is linked;
* `Stacked`: an undo stack that follows a chain.
-/

namespace VizCore.Lib

/-- How blocks name each other. -/
structure Links (β ι : Type) where
  id : β → ι
  previous : β → ι
  origin : ι
  height : ι → Nat
  height_origin : height origin = 0

namespace Links

variable {β ι : Type} (L : Links β ι)

/-- The id that a block on top of the chain has to name. -/
def tip (bs : List β) : ι := (bs.getLast?.map L.id).getD L.origin

inductive Linked : List β → Prop
  | nil : Linked []
  | snoc {bs : List β} {b : β} : Linked bs → L.previous b = L.tip bs →
      L.height (L.id b) = bs.length + 1 → Linked (bs ++ [b])

variable {L} {bs d : List β} {b : β} {k : Nat}

@[simp] theorem tip_nil : L.tip [] = L.origin := rfl

@[simp] theorem tip_snoc : L.tip (bs ++ [b]) = L.id b := by
  unfold tip
  rw [List.getLast?_concat]
  rfl

/-- The tip below a block is the block before it. -/
theorem tip_take_succ (h : bs[k]? = some b) : L.tip (bs.take (k + 1)) = L.id b := by
  rw [List.take_add_one, h]
  exact tip_snoc

/-- The last block of a chain that is not empty. -/
theorem tip_of_length (hb : bs[k]? = some b) (hk : bs.length = k + 1) : L.tip bs = L.id b := by
  have htake := tip_take_succ (L := L) hb
  rw [← hk, List.take_length] at htake
  exact htake

namespace Linked

theorem height_tip (h : L.Linked bs) : L.height (L.tip bs) = bs.length := by
  cases h with
  | nil => exact L.height_origin
  | snoc hc hprevious hheight =>
    rw [tip_snoc, hheight, List.length_append]
    rfl

theorem of_prefix (h : L.Linked bs) (hd : d <+: bs) : L.Linked d := by
  induction h with
  | nil =>
    rw [List.prefix_nil.1 hd]
    exact .nil
  | @snoc bs b hc hprevious hheight ih =>
    rcases List.prefix_concat_iff.1 hd with rfl | hd
    · exact hc.snoc hprevious hheight
    · exact ih hd

theorem take (h : L.Linked bs) (k : Nat) : L.Linked (bs.take k) :=
  h.of_prefix (List.take_prefix k bs)

theorem height_of_get (h : L.Linked bs) (hb : bs[k]? = some b) : L.height (L.id b) = k + 1 := by
  have hlt : k < bs.length := (List.getElem?_eq_some_iff.1 hb).1
  have htake := (h.take (k + 1)).height_tip
  rw [tip_take_succ hb, List.length_take, Nat.min_eq_left hlt] at htake
  exact htake

/-- A block stands at its height. -/
theorem get (h : L.Linked bs) (hb : b ∈ bs) :
    0 < L.height (L.id b) ∧ L.height (L.id b) ≤ bs.length ∧
      bs[L.height (L.id b) - 1]? = some b := by
  obtain ⟨k, hk⟩ := List.mem_iff_getElem?.1 hb
  have hlt : k < bs.length := (List.getElem?_eq_some_iff.1 hk).1
  have hheight := h.height_of_get hk
  rw [hheight]
  exact ⟨Nat.succ_pos k, hlt, hk⟩

theorem eq_of_height {a : β} (h : L.Linked bs) (ha : a ∈ bs) (hb : b ∈ bs)
    (hab : L.height (L.id a) = L.height (L.id b)) : a = b := by
  have hgetA := (h.get ha).2.2
  rw [hab, (h.get hb).2.2] at hgetA
  exact (Option.some.inj hgetA).symm

/-- A block names the tip of the chain below it. -/
theorem previous_of_get (h : L.Linked bs) (hb : bs[k]? = some b) :
    L.previous b = L.tip (bs.take k) := by
  induction h with
  | nil => cases hb
  | @snoc bs a hc hprevious hheight ih =>
    rcases lt_trichotomy k bs.length with hlt | rfl | hlt
    · rw [List.getElem?_append_left hlt] at hb
      rw [List.take_append_of_le_length (Nat.le_of_lt hlt)]
      exact ih hb
    · rw [List.getElem?_concat_length] at hb
      rw [List.take_left' rfl, ← Option.some.inj hb]
      exact hprevious
    · have hbound : k < (bs ++ [a]).length := (List.getElem?_eq_some_iff.1 hb).1
      rw [List.length_append, List.length_singleton] at hbound
      omega

theorem previous_of_mem (h : L.Linked bs) (hb : b ∈ bs) :
    L.previous b = L.tip (bs.take (L.height (L.id b) - 1)) :=
  h.previous_of_get (h.get hb).2.2

end Linked

end Links

/-! ## Undo stacks -/

/-- The stack holds, newest first, the states before the last blocks of the chain, each with the
height of its block. -/
inductive Stacked {β σ : Type} (At : List β → σ → Prop) : List β → List (Nat × σ) → Prop
  | nil (bs : List β) : Stacked At bs []
  | cons {bs : List β} {b : β} {s : σ} {stack : List (Nat × σ)} :
      At bs s → Stacked At bs stack → Stacked At (bs ++ [b]) ((bs.length + 1, s) :: stack)

namespace Stacked

variable {β σ : Type} {At : List β → σ → Prop} {bs : List β} {stack : List (Nat × σ)}

theorem le_length (h : Stacked At bs stack) : ∀ u ∈ stack, u.1 ≤ bs.length := by
  induction h with
  | nil bs => exact fun u hu => absurd hu List.not_mem_nil
  | @cons bs b s stack hs hstack ih =>
    intro u hu
    rw [List.length_append, List.length_singleton]
    rcases List.mem_cons.1 hu with rfl | hu
    · exact le_rfl
    · exact (ih u hu).trans (Nat.le_succ _)

theorem mono {At' : List β → σ → Prop} (h : Stacked At bs stack)
    (hAt : ∀ bs s, At bs s → At' bs s) : Stacked At' bs stack := by
  induction h with
  | nil bs => exact .nil bs
  | cons hs hstack ih => exact .cons (hAt _ _ hs) ih

/-- The oldest states are dropped. -/
theorem drop_le (h : Stacked At bs stack) (k : Nat) :
    Stacked At bs (stack.filter fun u => k < u.1) := by
  induction h with
  | nil bs => exact .nil bs
  | @cons bs b s stack hs hstack ih =>
    rw [List.filter_cons]
    split
    · exact .cons hs ih
    · rename_i hdropped
      have hold : ∀ u ∈ stack, ¬ k < u.1 := by
        intro u hu hlt
        have hle := hstack.le_length u hu
        exact hdropped (decide_eq_true (show k < bs.length + 1 by omega))
      rw [List.filter_eq_nil_iff.2 fun u hu => by simpa using hold u hu]
      exact .nil _

end Stacked

end VizCore.Lib
