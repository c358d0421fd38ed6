import Mathlib.Tactic

/-!
# Walks

A walk is a sequence of elementary moves.  Every move has a weight, the weight of a
walk is the sum over its moves.  A guarded run is a list of steps, each of which is taken
in a state that its guard admits.

* `Walk.measure`: a quantity that every move changes by its weight changes along a
  walk by the weight of the walk;
* `Walk.invariant`: what every move keeps, a walk keeps;
* `Guarded.invariant`: what every admitted step keeps holds in every state of a guarded run;
* `exists_rank`: a relation without cycles that leads to finitely many places only has a
  rank that decreases along it.
-/

namespace VizCore.Lib

variable {σ M : Type} [AddCommGroup M]

inductive Walk (Move : M → σ → σ → Prop) : M → σ → σ → Prop
  | refl (s : σ) : Walk Move 0 s s
  | tail {v w : M} {s t u : σ} : Walk Move v s t → Move w t u → Walk Move (v + w) s u

namespace Walk

variable {Move : M → σ → σ → Prop} {v w : M} {s t u : σ}

theorem of_eq (h : Walk Move v s t) (hw : v = w) : Walk Move w s t := hw ▸ h

theorem single (h : Move w s t) : Walk Move w s t :=
  of_eq ((refl s).tail h) (zero_add w)

theorem trans (h : Walk Move v s t) (h' : Walk Move w t u) : Walk Move (v + w) s u := by
  induction h' with
  | refl => exact h.of_eq (add_zero v).symm
  | tail _ hmove ih => exact ((ih h).tail hmove).of_eq (add_assoc _ _ _)

theorem measure (m : σ → M) (hm : ∀ w s t, Move w s t → m t = m s + w)
    (h : Walk Move w s t) : m t = m s + w := by
  induction h with
  | refl => exact (add_zero _).symm
  | tail _ hmove ih => rw [hm _ _ _ hmove, ih, add_assoc]

theorem invariant (P : σ → Prop) (hP : ∀ w s t, Move w s t → P s → P t)
    (h : Walk Move w s t) (hs : P s) : P t := by
  induction h with
  | refl => exact hs
  | tail _ hmove ih => exact hP _ _ _ hmove (ih hs)

/-- Walks of moves that are also moves of another kind. -/
theorem mono {Move' : M → σ → σ → Prop} (hle : ∀ w s t, Move w s t → Move' w s t)
    (h : Walk Move w s t) : Walk Move' w s t := by
  induction h with
  | refl => exact .refl _
  | tail _ hmove ih => exact ih.tail (hle _ _ _ hmove)

end Walk

/-! ## Guarded runs -/

def Guarded {α : Type} (step : σ → α → σ) (C : σ → α → Prop) : σ → List α → Prop
  | _, [] => True
  | s, a :: rest => C s a ∧ Guarded step C (step s a) rest

instance Guarded.decidable {α : Type} {step : σ → α → σ} {C : σ → α → Prop}
    [∀ s a, Decidable (C s a)] : ∀ s l, Decidable (Guarded step C s l)
  | _, [] => isTrue trivial
  | s, a :: rest => @instDecidableAnd _ _ _ (Guarded.decidable (step s a) rest)

theorem Guarded.invariant {α : Type} {step : σ → α → σ} {C : σ → α → Prop} (P : σ → Prop)
    (hP : ∀ s a, P s → C s a → P (step s a)) {l before : List α} {s : σ} (hs : P s)
    (h : Guarded step C s l) (hbefore : before <+: l) : P (before.foldl step s) := by
  obtain ⟨after, rfl⟩ := hbefore
  induction before generalizing s with
  | nil => exact hs
  | cons a before ih => exact ih (hP s a hs h.1) h.2

/-! ## Ranks -/

/-- The rank of a place is the number of places that it leads to. -/
theorem exists_rank {α : Type} {R : α → α → Prop} (hfinite : {b | ∃ a, R a b}.Finite)
    (hacyclic : ∀ a, ¬ Relation.TransGen R a a) :
    ∃ (rank : α → Nat) (top : Nat), (∀ a, rank a ≤ top) ∧ ∀ a b, R a b → rank b < rank a := by
  have hreach (a : α) : {b | Relation.TransGen R a b} ⊆ {b | ∃ a, R a b} := by
    intro b hb
    obtain ⟨c, -, hcb⟩ := Relation.TransGen.tail'_iff.1 hb
    exact ⟨c, hcb⟩
  refine ⟨fun a => {b | Relation.TransGen R a b}.ncard, {b | ∃ a, R a b}.ncard,
    fun a => Set.ncard_le_ncard (hreach a) hfinite, fun a b hab => ?_⟩
  refine Set.ncard_lt_ncard (Set.ssubset_iff_of_subset ?_ |>.2 ⟨b, .single hab, hacyclic b⟩)
    (hfinite.subset (hreach a))
  exact fun c hbc => .head hab hbc

end VizCore.Lib
