import Mathlib.Data.Nat.Log
import Mathlib.Tactic

/-!
# Ladders

A ladder goes up from a number, and every step goes half of the way that remains to the top and one
further, so that few rungs say much about the numbers near the top.

* `Ladder.ascending`, `Ladder.bounds`, `Ladder.getLast_top`: the rungs of a ladder;
* `Ladder.near`: a number is no further above the rung below it than it is below the top;
* `Ladder.length_le`: a ladder has logarithmically many rungs.
-/

namespace VizCore.Lib

/-- The rung above `low`. -/
def rungAbove (top low : Nat) : Nat := low + (top - low + 2) / 2

/-- The rungs from `low` on that are not above `high`. -/
inductive Ladder (top high : Nat) : Nat → List Nat → Prop
  | last {low : Nat} : high < rungAbove top low → Ladder top high low [low]
  | step {low : Nat} {rungs : List Nat} : rungAbove top low ≤ high →
      Ladder top high (rungAbove top low) rungs → Ladder top high low (low :: rungs)

namespace Ladder

variable {top high low p : Nat} {rungs : List Nat}

theorem lt_rungAbove (top low : Nat) : low < rungAbove top low := by
  unfold rungAbove
  omega

theorem head (h : Ladder top high low rungs) : rungs.head? = some low := by
  cases h with
  | last hlast => rfl
  | step hnext hrest => rfl

theorem bounds (h : Ladder top high low rungs) (hlow : low ≤ high) :
    ∀ n ∈ rungs, low ≤ n ∧ n ≤ high := by
  induction h with
  | last hlast =>
    intro n hn
    rw [List.mem_singleton.1 hn]
    exact ⟨le_rfl, hlow⟩
  | @step low rungs hnext hrest ih =>
    intro n hn
    have hlt := lt_rungAbove top low
    rcases List.mem_cons.1 hn with rfl | hn
    · exact ⟨le_rfl, hlow⟩
    · obtain ⟨habove, hle⟩ := ih hnext n hn
      exact ⟨by omega, hle⟩

theorem ascending (h : Ladder top high low rungs) : rungs.Pairwise (· < ·) := by
  induction h with
  | last hlast => exact List.pairwise_singleton _ _
  | @step low rungs hnext hrest ih =>
    refine List.pairwise_cons.2 ⟨?_, ih⟩
    intro n hn
    have hlt := lt_rungAbove top low
    have habove := (hrest.bounds hnext n hn).1
    omega

/-- Where nothing lies between them, the last rung is the top. -/
theorem getLast_top (h : Ladder high high low rungs) (hlow : low ≤ high) :
    rungs.getLast? = some high := by
  induction h with
  | @last low hlast =>
    unfold rungAbove at hlast
    rw [List.getLast?_singleton]
    exact congrArg some (by omega)
  | @step low rungs hnext hrest ih =>
    rw [List.getLast?_cons, ih hnext]
    rfl

/-- The highest rung that is not above `p`. -/
theorem near (h : Ladder top high low rungs) (hlow : low ≤ p) (hp : p ≤ high) (htop : high ≤ top) :
    ∃ n ∈ rungs, n ≤ p ∧ 2 * p ≤ top + n ∧ ∀ m ∈ rungs, m ≤ p → m ≤ n := by
  induction h with
  | @last low hlast =>
    refine ⟨low, List.mem_cons_self, hlow, ?_, ?_⟩
    · unfold rungAbove at hlast
      omega
    · intro m hm hle
      exact (List.mem_singleton.1 hm).le
  | @step low rungs hnext hrest ih =>
    rcases Nat.lt_or_ge p (rungAbove top low) with hlt | hge
    · refine ⟨low, List.mem_cons_self, hlow, ?_, ?_⟩
      · unfold rungAbove at hlt
        omega
      · intro m hm hle
        rcases List.mem_cons.1 hm with rfl | hm
        · exact le_rfl
        · have habove := (hrest.bounds hnext m hm).1
          omega
    · obtain ⟨n, hn, hle, hnear, hmost⟩ := ih hge
      refine ⟨n, List.mem_cons_of_mem _ hn, hle, hnear, ?_⟩
      intro m hm hmp
      rcases List.mem_cons.1 hm with rfl | hm
      · have habove := (hrest.bounds hnext n hn).1
        have hlt := lt_rungAbove top m
        omega
      · exact hmost m hm hmp

/-- Every step halves the way to the top. -/
theorem length_le (h : Ladder top high low rungs) (hlow : low ≤ high) (htop : high ≤ top) :
    rungs.length ≤ Nat.log 2 (top - low + 1) + 1 := by
  induction h with
  | last hlast =>
    rw [List.length_singleton]
    exact Nat.le_add_left 1 _
  | @step low rungs hnext hrest ih =>
    have hlength := ih hnext
    have hhalf : top - rungAbove top low + 1 ≤ (top - low + 1) / 2 := by
      unfold rungAbove at hnext ⊢
      omega
    have hlog : Nat.log 2 (top - rungAbove top low + 1) + 1 ≤ Nat.log 2 (top - low + 1) := by
      have hdiv := Nat.log_div_base 2 (top - low + 1)
      have hmono := Nat.log_mono_right (b := 2) hhalf
      have hpos : 1 ≤ Nat.log 2 (top - low + 1) := by
        refine Nat.log_pos (by decide) ?_
        have hlt := lt_rungAbove top low
        omega
      omega
    rw [List.length_cons]
    omega

end Ladder

end VizCore.Lib
