import VizCore.Protocol.SignState

/-!
# Crowded authorities

`total_weight` has 32 bits and a weight 16, so that only an authority with more than 65536
members can carry the sum past its end.  `crowd n` lists `n` members of the greatest weight,
who all have the key 7.

* `checkAccountAuths_crowd`: with 65537 of them the greatest threshold is reached exactly
  when nothing has been collected before;
* `checkAccountAuths_crowd_absent`: without the key nothing is added.
-/

namespace VizCore.Protocol

open VizCore.Lib SignState

/-- An account of the crowd, `m` and five digits. -/
def memberName (i : Nat) : AccountName :=
  String.ofList ('m' :: [10000, 1000, 100, 10, 1].map fun unit => Nat.digitChar (i / unit % 10))

theorem memberName_head (i : Nat) : (memberName i).toList.head? = some 'm' := by
  rw [memberName, String.toList_ofList]
  rfl

/-- The first `n` accounts of the crowd, in the order of their names. -/
def crowd (n : Nat) : List (AccountName × Nat) :=
  (List.range n).map fun i => (memberName i, 2 ^ 16 - 1)

theorem crowd_succ (n : Nat) : crowd (n + 1) = crowd n ++ [(memberName n, 2 ^ 16 - 1)] := by
  rw [crowd, List.range_succ, List.map_append]
  rfl

def keySeven : Authority := { weightThreshold := 1, keyAuths := [(7, 1)] }

/-- Keys that do not reach the threshold leave it to the accounts. -/
theorem checkAuthority_of_keys {get : AuthorityGetter} (levels : Nat) {threshold total : Nat}
    {keys : List (PublicKey × Nat)} (accounts : List (AccountName × Nat)) {s s₁ : SignState}
    (hkeys : checkKeyAuths threshold keys 0 s = ((false, total), s₁)) :
    checkAuthority get (levels + 1) ⟨threshold, accounts, keys⟩ s =
      checkAccountAuths get (some (checkAuthority get levels)) threshold accounts total s₁ := by
  simp only [checkAuthority, hkeys]

section

variable {get : AuthorityGetter} (levels : Nat) (Inv : SignState → Prop)

theorem signedBy_of_hasKey {s : SignState} {k : PublicKey} (h : hasKey k s.providedSignatures = true) :
    s.signedBy k = (true, { s with providedSignatures := assign k true s.providedSignatures }) := by
  simp [signedBy, h]

theorem checkAuthority_keySeven {s : SignState}
    (h : hasKey 7 s.providedSignatures = true) :
    checkAuthority get levels keySeven s =
      .ok (true, { s with providedSignatures := assign 7 true s.providedSignatures }) := by
  cases levels <;> simp [checkAuthority, checkKeyAuths, keySeven, signedBy_of_hasKey h]

/-- A member that has signed is counted. -/
theorem checkAccountAuths_member {a : AccountName} (ha : get a = .ok keySeven)
    (hkey : ∀ s, Inv s → hasKey 7 s.providedSignatures = true)
    (hstep : ∀ s, Inv s → ∀ a,
      Inv ({ s with providedSignatures := assign 7 true s.providedSignatures }.approve a true))
    (threshold w total : Nat) (rest : List (AccountName × Nat)) {s : SignState} (hs : Inv s) :
    ∃ s', Inv s' ∧ checkAccountAuths get (some (checkAuthority get levels)) threshold
      ((a, w) :: rest) total s =
        if threshold ≤ (total + w) % 2 ^ 32 then .ok (true, s')
        else checkAccountAuths get (some (checkAuthority get levels)) threshold rest
          ((total + w) % 2 ^ 32) s' := by
  by_cases happ : hasKey a s.approvedBy = true
  · refine ⟨s, hs, ?_⟩
    simp only [checkAccountAuths, happ, ↓reduceIte]
  · refine ⟨_, hstep s hs a, ?_⟩
    simp only [checkAccountAuths, happ, Bool.false_eq_true, ↓reduceIte, ha,
      checkAuthority_keySeven levels (hkey s hs), bind, Except.bind]

/-- Below the threshold all members are counted. -/
theorem checkAccountAuths_below (threshold : Nat) (hthreshold : threshold < 2 ^ 32)
    (hkey : ∀ s, Inv s → hasKey 7 s.providedSignatures = true)
    (hstep : ∀ s, Inv s → ∀ a,
      Inv ({ s with providedSignatures := assign 7 true s.providedSignatures }.approve a true))
    (l rest : List (AccountName × Nat)) (hl : ∀ p ∈ l, get p.1 = .ok keySeven) {s : SignState}
    (hs : Inv s) (total : Nat) (hbelow : total + weight l < threshold) :
    ∃ s', Inv s' ∧ checkAccountAuths get (some (checkAuthority get levels)) threshold (l ++ rest)
      total s = checkAccountAuths get (some (checkAuthority get levels)) threshold rest
        (total + weight l) s' := by
  induction l generalizing s total with
  | nil => exact ⟨s, hs, rfl⟩
  | cons p l ih =>
    obtain ⟨a, w⟩ := p
    rw [weight_cons] at hbelow
    have hmod : (total + w) % 2 ^ 32 = total + w := Nat.mod_eq_of_lt (by simp at hbelow; omega)
    have hnot : ¬ threshold ≤ total + w := by
      simp at hbelow
      omega
    obtain ⟨s₁, hs₁, hrun⟩ := checkAccountAuths_member levels Inv
      (hl (a, w) List.mem_cons_self) hkey hstep threshold w total (l ++ rest) hs
    obtain ⟨s₂, hs₂, hrun₂⟩ := ih (fun q hq => hl q (List.mem_cons_of_mem _ hq)) hs₁ (total + w)
      (by simp at hbelow; omega)
    refine ⟨s₂, hs₂, ?_⟩
    rw [hmod, if_neg hnot] at hrun
    rw [List.cons_append, hrun, hrun₂, weight_cons]
    simp only [Nat.add_assoc]

theorem weight_crowd (n : Nat) : weight (crowd n) = (2 ^ 16 - 1) * n := by
  induction n with
  | zero => rfl
  | succ n ih =>
    rw [crowd_succ, weight, List.map_append, List.sum_append]
    rw [weight] at ih
    rw [ih]
    simp
    omega

/-- **The crowd.**  The greatest threshold is reached exactly when nothing has been collected
before: one more in front and the last member takes the sum past 32 bits. -/
theorem checkAccountAuths_crowd (hget : ∀ i, get (memberName i) = .ok keySeven)
    (hkey : ∀ s, Inv s → hasKey 7 s.providedSignatures = true)
    (hstep : ∀ s, Inv s → ∀ a,
      Inv ({ s with providedSignatures := assign 7 true s.providedSignatures }.approve a true))
    {s : SignState} (hs : Inv s) (total : Nat) (htotal : total < 2 ^ 16 - 1) :
    ∃ s', Inv s' ∧ checkAccountAuths get (some (checkAuthority get levels)) (2 ^ 32 - 1)
      (crowd 65537) total s = .ok (decide (total = 0), s') := by
  have hmembers : ∀ p ∈ crowd 65536, get p.1 = .ok keySeven := by
    rintro p hp
    obtain ⟨i, -, rfl⟩ := List.mem_map.1 hp
    exact hget i
  have hsum : weight (crowd 65536) = 4294901760 := weight_crowd 65536
  obtain ⟨s₁, hs₁, hrun₁⟩ := checkAccountAuths_below levels Inv (2 ^ 32 - 1)
    (by norm_num) hkey hstep (crowd 65536) [(memberName 65536, 2 ^ 16 - 1)] hmembers hs total
    (by rw [hsum]; omega)
  obtain ⟨s₂, hs₂, hrun₂⟩ := checkAccountAuths_member levels Inv (hget 65536) hkey hstep
    (2 ^ 32 - 1) (2 ^ 16 - 1) (total + weight (crowd 65536)) [] hs₁
  refine ⟨s₂, hs₂, ?_⟩
  rw [crowd_succ, hrun₁, hrun₂, hsum]
  by_cases hzero : total = 0
  · subst hzero
    simp
  · have hwrap : (total + 4294901760 + (2 ^ 16 - 1)) % 2 ^ 32 = total - 1 := by omega
    have hnot : ¬ 2 ^ 32 - 1 ≤ total - 1 := by omega
    rw [hwrap, if_neg hnot, checkAccountAuths, decide_eq_false hnot, decide_eq_false hzero]

theorem checkAuthority_keySeven_absent {s : SignState}
    (h : s.signedBy 7 = (false, s)) : checkAuthority get levels keySeven s = .ok (false, s) := by
  cases levels <;> simp [checkAuthority, checkKeyAuths, checkAccountAuths, keySeven, h]

/-- Without the key nobody of the crowd is counted. -/
theorem checkAccountAuths_crowd_absent (hget : ∀ i, get (memberName i) = .ok keySeven)
    {s : SignState} (hkey : s.signedBy 7 = (false, s))
    (happ : ∀ i, hasKey (memberName i) s.approvedBy = false) (threshold total n : Nat) :
    checkAccountAuths get (some (checkAuthority get levels)) threshold (crowd n) total s =
      .ok (decide (threshold ≤ total), s) := by
  have hall : ∀ l : List Nat, checkAccountAuths get (some (checkAuthority get levels)) threshold
      (l.map fun i => (memberName i, 2 ^ 16 - 1)) total s = .ok (decide (threshold ≤ total), s) := by
    intro l
    induction l with
    | nil => rfl
    | cons i l ih =>
      simp only [List.map_cons, checkAccountAuths, happ, hget, Bool.false_eq_true, ↓reduceIte,
        checkAuthority_keySeven_absent levels hkey, bind, Except.bind]
      exact ih
  exact hall _

end

end VizCore.Protocol
