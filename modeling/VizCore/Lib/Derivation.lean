import Mathlib.Tactic

/-!
# Weighted threshold derivations

A `Rule` is met when the weights of its signed keys and of its names that hold
reach a threshold.  `Derived` closes a set of granted names under the rules of
each name; rules may refer to each other in cycles.

* `Derived.cut`: granting more names adds nothing when these names are derived;
* `DerivedIn`: the same with a bound on the height of the derivation.
-/

namespace VizCore.Lib

variable {κ ν : Type}

structure Rule (κ ν : Type) where
  threshold : Nat
  keys : List (κ × Nat)
  names : List (ν × Nat)

def weight {α : Type} (l : List (α × Nat)) : Nat := (l.map Prod.snd).sum

@[simp] theorem weight_nil {α : Type} : weight ([] : List (α × Nat)) = 0 := rfl

@[simp] theorem weight_cons {α : Type} (x : α × Nat) (l : List (α × Nat)) :
    weight (x :: l) = x.2 + weight l := by
  simp [weight]

theorem weight_le_of_sublist {α : Type} {l l' : List (α × Nat)} (h : l.Sublist l') :
    weight l ≤ weight l' :=
  (h.map Prod.snd).sum_le_sum fun _ _ => Nat.zero_le _

/-- The rule's signed keys and its names that hold reach the threshold. -/
def Rule.Met (r : Rule κ ν) (signed : κ → Prop) (holds : ν → Prop) : Prop :=
  ∃ ks ns, ks.Sublist r.keys ∧ (∀ k ∈ ks, signed k.1) ∧ ns.Sublist r.names ∧
    (∀ n ∈ ns, holds n.1) ∧ r.threshold ≤ weight ks + weight ns

theorem Rule.Met.mono {r : Rule κ ν} {signed : κ → Prop} {holds holds' : ν → Prop}
    (h : r.Met signed holds) (hh : ∀ n, holds n → holds' n) : r.Met signed holds' := by
  obtain ⟨ks, ns, hks, hk, hns, hn, ht⟩ := h
  exact ⟨ks, ns, hks, hk, hns, fun n hm => hh n.1 (hn n hm), ht⟩

theorem Rule.Met.of_more_signed {r : Rule κ ν} {signed signed' : κ → Prop} {holds : ν → Prop}
    (h : r.Met signed holds) (hs : ∀ k, signed k → signed' k) : r.Met signed' holds := by
  obtain ⟨ks, ns, hks, hk, hns, hn, ht⟩ := h
  exact ⟨ks, ns, hks, fun k hm => hs k.1 (hk k hm), hns, hn, ht⟩

/-- Names that follow from the granted ones by finitely many uses of rules. -/
inductive Derived (rules : ν → Rule κ ν → Prop) (signed : κ → Prop) (granted : ν → Prop) :
    ν → Prop
  | grant {a : ν} (h : granted a) : Derived rules signed granted a
  | rule {a : ν} (r : Rule κ ν) (ks : List (κ × Nat)) (ns : List (ν × Nat)) (hr : rules a r)
      (hks : ks.Sublist r.keys) (hk : ∀ k ∈ ks, signed k.1) (hns : ns.Sublist r.names)
      (hn : ∀ n ∈ ns, Derived rules signed granted n.1)
      (ht : r.threshold ≤ weight ks + weight ns) : Derived rules signed granted a

variable {rules : ν → Rule κ ν → Prop} {signed : κ → Prop} {granted granted' : ν → Prop}

theorem Derived.of_met {a : ν} {r : Rule κ ν} (hr : rules a r)
    (hm : r.Met signed (Derived rules signed granted)) : Derived rules signed granted a := by
  obtain ⟨ks, ns, hks, hk, hns, hn, ht⟩ := hm
  exact .rule r ks ns hr hks hk hns hn ht

theorem Derived.cut {a : ν} (hg : ∀ b, granted' b → Derived rules signed granted b)
    (h : Derived rules signed granted' a) : Derived rules signed granted a := by
  induction h with
  | grant h => exact hg _ h
  | rule r ks ns hr hks hk hns _ ht ih => exact .rule r ks ns hr hks hk hns ih ht

/-- A name that is not granted is derived only through one of its rules. -/
theorem Derived.met_of_not_granted {a : ν} (h : Derived rules signed granted a)
    (ha : ¬ granted a) : ∃ r, rules a r ∧ r.Met signed (Derived rules signed granted) := by
  cases h with
  | grant h => exact absurd h ha
  | rule r ks ns hr hks hk hns hn ht => exact ⟨r, hr, ks, ns, hks, hk, hns, hn, ht⟩

theorem Derived.of_more_signed {signed' : κ → Prop} {a : ν}
    (h : Derived rules signed granted a) (hs : ∀ k, signed k → signed' k) :
    Derived rules signed' granted a := by
  induction h with
  | grant h => exact .grant h
  | rule r ks ns hr hks hk hns _ ht ih =>
    exact .rule r ks ns hr hks (fun k hm => hs k.1 (hk k hm)) hns ih ht

/-- Names with a derivation that uses at most the given number of rules on top of each
other. -/
def DerivedIn (rules : ν → Rule κ ν → Prop) (signed : κ → Prop) (granted : ν → Prop) :
    Nat → ν → Prop
  | 0, a => granted a
  | height + 1, a => granted a ∨
      ∃ r, rules a r ∧ r.Met signed (DerivedIn rules signed granted height)

theorem DerivedIn.derived {height : Nat} {a : ν}
    (h : DerivedIn rules signed granted height a) : Derived rules signed granted a := by
  induction height generalizing a with
  | zero => exact .grant h
  | succ height ih =>
    rcases h with h | ⟨r, hr, hmet⟩
    · exact .grant h
    · exact Derived.of_met hr (hmet.mono fun n hn => ih hn)

end VizCore.Lib
