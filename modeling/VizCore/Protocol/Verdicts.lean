import VizCore.Protocol.Crowds
import VizCore.Protocol.VerifyAuthority

/-!
# Verdicts on several accounts

`check_authority` remembers the nested accounts that it has found to be met and stops at
a depth limit, so the verdict on one account may depend on the accounts that were checked
before it.  It does not where the depth limit does not count.

* `checkAuthority_complete`: an authority that is met by derivations within the depth
  limit is accepted from every state;
* `verifyAuthority_iff_each`: where the accounts that are met at all are met within the
  limit, a set of accounts is accepted when each of them is.
-/

namespace VizCore.Protocol

open VizCore.Lib SignState

/-! ## What the checks do not miss -/

/-- The accounts of an authority are spoken for by the authorities that `get` returns. -/
def AuthorityGetter.rules (get : AuthorityGetter) (a : AccountName)
    (r : Rule PublicKey AccountName) : Prop :=
  ∃ auth : Authority, get a = .ok auth ∧ r = auth.rule

/-- With `total` collected, the weights of `l` do not leave the 32 bits of `total_weight`
before the threshold is reached. -/
def Roomy {α : Type} (threshold total : Nat) (l : List (α × Nat)) : Prop :=
  (∀ p ∈ l, threshold + p.2 < 2 ^ 32) ∨ total + weight l < 2 ^ 32

namespace Roomy

variable {α : Type} {threshold total : Nat} {p : α × Nat} {l : List (α × Nat)}

theorem mod_eq (h : Roomy threshold total (p :: l)) (ht : total ≤ threshold) :
    (total + p.2) % 2 ^ 32 = total + p.2 := by
  refine Nat.mod_eq_of_lt ?_
  rcases h with h | h
  · have := h p List.mem_cons_self
    omega
  · rw [weight_cons] at h
    omega

theorem skip (h : Roomy threshold total (p :: l)) : Roomy threshold total l := by
  rcases h with h | h
  · exact .inl fun q hq => h q (List.mem_cons_of_mem p hq)
  · rw [weight_cons] at h
    exact .inr (by omega)

theorem count (h : Roomy threshold total (p :: l)) : Roomy threshold (total + p.2) l := by
  rcases h with h | h
  · exact .inl fun q hq => h q (List.mem_cons_of_mem p hq)
  · rw [weight_cons] at h
    exact .inr (by omega)

end Roomy

/-- The weights of an authority do not leave the 32 bits of `total_weight` before its
threshold is reached. -/
def Authority.Fits (auth : Authority) : Prop :=
  (∀ k ∈ auth.keyAuths, auth.weightThreshold + k.2 < 2 ^ 32) ∧
      (∀ a ∈ auth.accountAuths, auth.weightThreshold + a.2 < 2 ^ 32) ∨
    weight auth.keyAuths + weight auth.accountAuths < 2 ^ 32

theorem Authority.Fits.keys {auth : Authority} (h : auth.Fits) :
    Roomy auth.weightThreshold 0 auth.keyAuths := by
  rcases h with h | h
  · exact .inl h.1
  · exact .inr (by omega)

theorem Authority.Fits.accounts {auth : Authority} (h : auth.Fits) {total : Nat}
    (ht : total ≤ weight auth.keyAuths) :
    Roomy auth.weightThreshold total auth.accountAuths := by
  rcases h with h | h
  · exact .inl h.2
  · exact .inr (by omega)

/-- The authority fits and names only known accounts. -/
structure Authority.Within (known : AccountName → Prop) (auth : Authority) : Prop where
  fits : auth.Fits
  names : ∀ a ∈ auth.accountAuths, known a.1

/-- Every known account is granted or has an authority, which fits and names only known
accounts. -/
def AuthorityGetter.Complete (get : AuthorityGetter) (known granted : AccountName → Prop) : Prop :=
  ∀ a, known a → granted a ∨ ∃ auth, get a = .ok auth ∧ auth.Within known

/-- The state can use the signed keys and counts the granted names as approved, and no
approval is unused. -/
structure SignState.Covers (signed : PublicKey → Prop) (granted : AccountName → Prop)
    (s : SignState) : Prop where
  signs : ∀ k, signed k → hasKey k s.providedSignatures = true ∨ k ∈ s.availableKeys
  grants : ∀ a, granted a → hasKey a s.approvedBy = true
  used : ∀ p ∈ s.approvedBy, p.2 = true

theorem mem_assign_used {α : Type} [DecidableEq α] (k : α) (m : List (α × Bool))
    (h : ∀ p ∈ m, p.2 = true) (p : α × Bool) (hp : p ∈ assign k true m) : p.2 = true := by
  induction m with
  | nil =>
    simp only [assign, List.mem_singleton] at hp
    rw [hp]
  | cons q rest ih =>
    unfold assign at hp
    split at hp
    · rcases List.mem_cons.1 hp with rfl | hp
      · rfl
      · exact h p (List.mem_cons_of_mem q hp)
    · rcases List.mem_cons.1 hp with rfl | hp
      · exact h p List.mem_cons_self
      · exact ih (fun r hr => h r (List.mem_cons_of_mem q hr)) hp

namespace SignState

variable {signed : PublicKey → Prop} {granted : AccountName → Prop} {s s' : SignState}

theorem Covers.approve (h : s.Covers signed granted) (a : AccountName) :
    (s.approve a true).Covers signed granted where
  signs := h.signs
  grants b hb := by
    simp only [SignState.approve, hasKey_assign, h.grants b hb, Bool.or_true]
  used p hp := mem_assign_used a _ h.used p hp

theorem Covers.unusedApprovals (h : s.Covers signed granted) : s.unusedApprovals = [] := by
  simp only [SignState.unusedApprovals, List.map_eq_nil_iff, List.filter_eq_nil_iff]
  intro p hp
  simp [h.used p hp]

theorem Covers.signedBy (h : s.Covers signed granted) (k : PublicKey) :
    (s.signedBy k).2.Covers signed granted ∧ (signed k → (s.signedBy k).1 = true) := by
  unfold SignState.signedBy
  split
  · refine ⟨⟨fun k' hk' => ?_, h.grants, h.used⟩, fun _ => rfl⟩
    rcases h.signs k' hk' with hk' | hk'
    · exact .inl (by simp [hk'])
    · exact .inr hk'
  · rename_i hnot
    refine ⟨h, fun hk => ?_⟩
    rcases h.signs k hk with hk | hk
    · simp [hk] at hnot
    · simp [hk] at hnot

theorem checkKeyAuths_complete (threshold : Nat) (l : List (PublicKey × Nat)) (total : Nat)
    (hl : Roomy threshold total l) (htotal : total ≤ threshold)
    (h : s.Covers signed granted) {done : Bool} {total' : Nat}
    (hr : checkKeyAuths threshold l total s = ((done, total'), s')) :
    s'.Covers signed granted ∧ (done = false → total' ≤ threshold ∧
      ∀ ks : List (PublicKey × Nat), ks.Sublist l → (∀ k ∈ ks, signed k.1) →
        total + weight ks ≤ total') := by
  induction l generalizing total s with
  | nil =>
    simp only [checkKeyAuths, Prod.mk.injEq] at hr
    obtain ⟨⟨rfl, rfl⟩, rfl⟩ := hr
    refine ⟨h, fun _ => ⟨htotal, fun ks hks _ => ?_⟩⟩
    rw [List.eq_nil_of_sublist_nil hks, weight_nil]
    omega
  | cons p rest ih =>
    obtain ⟨k, w⟩ := p
    obtain ⟨hcov, hsig⟩ := h.signedBy k
    simp only [checkKeyAuths] at hr
    rcases hs : s.signedBy k with ⟨b, s₁⟩
    rw [hs] at hr hcov hsig
    cases b with
    | false =>
      obtain ⟨hcov', hdone⟩ := ih total hl.skip htotal hcov hr
      refine ⟨hcov', fun hd => ⟨(hdone hd).1, fun ks hks hk => ?_⟩⟩
      cases hks with
      | cons _ hsub => exact (hdone hd).2 ks hsub hk
      | cons_cons _ hsub => exact absurd (hsig (hk (k, w) List.mem_cons_self)) (by simp)
    | true =>
      have hmod : (total + w) % 2 ^ 32 = total + w := hl.mod_eq htotal
      simp only [hmod] at hr
      split at hr
      · simp only [Prod.mk.injEq] at hr
        obtain ⟨⟨rfl, rfl⟩, rfl⟩ := hr
        exact ⟨hcov, by simp⟩
      · obtain ⟨hcov', hdone⟩ := ih (total + w) hl.count (by omega) hcov hr
        refine ⟨hcov', fun hd => ⟨(hdone hd).1, fun ks hks hk => ?_⟩⟩
        cases hks with
        | cons _ hsub =>
          have := (hdone hd).2 ks hsub hk
          omega
        | cons_cons _ hsub =>
          have := (hdone hd).2 _ hsub fun x hx => hk x (List.mem_cons_of_mem _ hx)
          rw [weight_cons]
          omega

/-- A check of an authority is complete when it ends on every authority within the known
accounts, keeps what the state covers and accepts the authorities that are met. -/
def CompleteCheck (known : AccountName → Prop) (signed : PublicKey → Prop)
    (granted : AccountName → Prop) (met : Authority → Prop)
    (check : Authority → SignState → Result (Bool × SignState)) : Prop :=
  ∀ auth s, auth.Within known → s.Covers signed granted →
    ∃ b s', check auth s = .ok (b, s') ∧ s'.Covers signed granted ∧ (met auth → b = true)

theorem checkAccountAuths_complete {getActive : AuthorityGetter} {known holds : AccountName → Prop}
    {check : Option (Authority → SignState → Result (Bool × SignState))}
    (hnone : check = none → ∀ a, holds a → granted a)
    (hsome : ∀ c, check = some c → ∀ a s, known a → ¬ granted a → s.Covers signed granted →
      ∃ auth b s', getActive a = .ok auth ∧ c auth s = .ok (b, s') ∧ s'.Covers signed granted ∧
        (holds a → b = true))
    (threshold : Nat) (l : List (AccountName × Nat)) (total : Nat) (hnames : ∀ a ∈ l, known a.1)
    (hl : Roomy threshold total l) (htotal : total ≤ threshold) (h : s.Covers signed granted) :
    ∃ b s', checkAccountAuths getActive check threshold l total s = .ok (b, s') ∧
      s'.Covers signed granted ∧ ∀ ns : List (AccountName × Nat), ns.Sublist l →
        (∀ n ∈ ns, holds n.1) → threshold ≤ total + weight ns → b = true := by
  induction l generalizing total s with
  | nil =>
    refine ⟨_, s, rfl, h, fun ns hns _ ht => ?_⟩
    rw [List.eq_nil_of_sublist_nil hns, weight_nil] at ht
    simpa using ht
  | cons p rest ih =>
    obtain ⟨a, w⟩ := p
    have hrest : ∀ a ∈ rest, known a.1 := fun a ha => hnames a (List.mem_cons_of_mem _ ha)
    have hmod : (total + w) % 2 ^ 32 = total + w := hl.mod_eq htotal
    -- skipping `a`, which does not hold, and counting it are the two ways the loop goes on
    have hskip (s₁ : SignState) (h₁ : s₁.Covers signed granted) (ha : ¬ holds a) :
        ∃ b s', checkAccountAuths getActive check threshold rest total s₁ = .ok (b, s') ∧
          s'.Covers signed granted ∧ ∀ ns : List (AccountName × Nat), ns.Sublist ((a, w) :: rest) →
            (∀ n ∈ ns, holds n.1) → threshold ≤ total + weight ns → b = true := by
      obtain ⟨b, s', hrun, hcov, hacc⟩ := ih total hrest hl.skip htotal h₁
      refine ⟨b, s', hrun, hcov, fun ns hns hn ht => ?_⟩
      cases hns with
      | cons _ hsub => exact hacc ns hsub hn ht
      | cons_cons _ hsub => exact absurd (hn (a, w) List.mem_cons_self) ha
    have hcount (s₁ : SignState) (h₁ : s₁.Covers signed granted) :
        ∃ b s', (if threshold ≤ total + w then .ok (true, s₁)
          else checkAccountAuths getActive check threshold rest (total + w) s₁) = .ok (b, s') ∧
          s'.Covers signed granted ∧ ∀ ns : List (AccountName × Nat), ns.Sublist ((a, w) :: rest) →
            (∀ n ∈ ns, holds n.1) → threshold ≤ total + weight ns → b = true := by
      split
      · exact ⟨true, s₁, rfl, h₁, fun _ _ _ _ => rfl⟩
      · obtain ⟨b, s', hrun, hcov, hacc⟩ := ih (total + w) hrest hl.count (by omega) h₁
        refine ⟨b, s', hrun, hcov, fun ns hns hn ht => ?_⟩
        cases hns with
        | cons _ hsub => exact hacc ns hsub hn (by omega)
        | cons_cons _ hsub =>
          rw [weight_cons] at ht
          exact hacc _ hsub (fun x hx => hn x (List.mem_cons_of_mem _ hx)) (by simp at ht; omega)
    simp only [checkAccountAuths, hmod]
    split
    · exact hcount s h
    · rename_i hkey
      have hgranted : ¬ granted a := fun ha => hkey (h.grants a ha)
      cases check with
      | none => exact hskip s h fun ha => hgranted (hnone rfl a ha)
      | some c =>
        obtain ⟨auth, met, s₁, hauth, hc, hcov, hmet⟩ :=
          hsome c rfl a s (hnames (a, w) List.mem_cons_self) hgranted h
        simp only [hauth, hc, bind, Except.bind]
        cases met with
        | false => exact hskip s₁ hcov fun ha => by simpa using hmet ha
        | true => exact hcount _ (hcov.approve a)

/-- One level, given what the names that hold have at the level below. -/
theorem checkLevel_complete {getActive : AuthorityGetter} {known holds : AccountName → Prop}
    {check : Option (Authority → SignState → Result (Bool × SignState))}
    (hnone : check = none → ∀ a, holds a → granted a)
    (hsome : ∀ c, check = some c → ∀ a s, known a → ¬ granted a → s.Covers signed granted →
      ∃ auth b s', getActive a = .ok auth ∧ c auth s = .ok (b, s') ∧
        s'.Covers signed granted ∧ (holds a → b = true)) :
    CompleteCheck known signed granted (fun auth => auth.rule.Met signed holds)
      (checkLevel getActive check) := by
  intro auth s hauth hs
  unfold checkLevel
  rcases hk : checkKeyAuths auth.weightThreshold auth.keyAuths 0 s with ⟨⟨done, total⟩, s₁⟩
  obtain ⟨hcov, hdone⟩ :=
    checkKeyAuths_complete _ _ _ hauth.fits.keys (Nat.zero_le _) hs hk
  cases done with
  | true => exact ⟨true, s₁, rfl, hcov, fun _ => rfl⟩
  | false =>
    obtain ⟨htotal, hsum⟩ := hdone rfl
    obtain ⟨-, -, -, ks', hks', -, hle⟩ := checkKeyAuths_grows _ _ _ hk
    have hkeys : total ≤ weight auth.keyAuths := by
      have := weight_le_of_sublist hks'
      omega
    obtain ⟨b, s', hrun, hcov', hacc⟩ := checkAccountAuths_complete hnone hsome
      auth.weightThreshold auth.accountAuths total hauth.names (hauth.fits.accounts hkeys) htotal hcov
    refine ⟨b, s', hrun, hcov', fun hmet => ?_⟩
    obtain ⟨ks, ns, hks, hk, hns, hn, ht⟩ := hmet
    have hkeys := hsum ks hks hk
    exact hacc ns hns hn (by simp only [Authority.rule] at ht; omega)

/-- **Completeness of the check.**  An authority that is met by derivations within the
levels left is accepted, whatever the state has approved before. -/
theorem checkAuthority_complete {getActive : AuthorityGetter} {known : AccountName → Prop}
    (hget : getActive.Complete known granted) (levels : Nat) :
    CompleteCheck known signed granted
      (fun auth => auth.rule.Met signed (DerivedIn getActive.rules signed granted levels))
      (checkAuthority getActive levels) := by
  induction levels with
  | zero => exact checkLevel_complete (fun _ a ha => ha) fun c hc => absurd hc (by simp)
  | succ levels ih =>
    have hbelow : ∀ c, some (checkAuthority getActive levels) = some c → ∀ a s, known a →
        ¬ granted a → s.Covers signed granted →
          ∃ auth b s', getActive a = .ok auth ∧ c auth s = .ok (b, s') ∧
            s'.Covers signed granted ∧
            (DerivedIn getActive.rules signed granted (levels + 1) a → b = true) := by
      intro c hc a s ha hnot hs
      cases hc
      obtain ⟨auth, hauth, hwithin⟩ := (hget a ha).resolve_left hnot
      obtain ⟨b, s', hrun, hcov, hmet⟩ := ih auth s hwithin hs
      refine ⟨auth, b, s', hauth, hrun, hcov, fun hd => ?_⟩
      obtain ⟨r, ⟨auth', hauth', rfl⟩, hr⟩ := hd.resolve_left hnot
      rw [hauth, Except.ok.injEq] at hauth'
      subst hauth'
      exact hmet hr
    exact checkLevel_complete (by simp) hbelow

end SignState

/-! ## Verdicts -/

/-- The exceptions for an authority that is missing. -/
def Exception.missingAuthority : Exception → Bool
  | .txMissingMasterAuth _ _ => true
  | .txMissingActiveAuth _ _ => true
  | .txMissingRegularAuth _ _ => true
  | .txMissingOtherAuth _ => true
  | _ => false

namespace VerifyArgs

/-- The nested accounts that count: those derived from the signature keys through active
authorities, and the name `temp`. -/
def Nested (args : VerifyArgs) : AccountName → Prop :=
  Derived args.getActive.rules (· ∈ args.sigs) (· = "temp")

/-- The same with derivations within the depth limit. -/
def NestedIn (args : VerifyArgs) : AccountName → Prop :=
  DerivedIn args.getActive.rules (· ∈ args.sigs) (· = "temp") args.maxRecursionDepth

/-- The active or the master authority of an account is met by the signature keys and by
nested accounts that count. -/
def Speaks (args : VerifyArgs) (counts : AccountName → Prop) (a : AccountName) : Prop :=
  a = "temp" ∨ ∃ auth : Authority, (args.getActive a = .ok auth ∨ args.getMaster a = .ok auth) ∧
    auth.rule.Met (· ∈ args.sigs) counts

/-- No approvals are given. -/
structure Unapproved (args : VerifyArgs) : Prop where
  active : args.activeApprovals = []
  master : args.masterApprovals = []
  regular : args.regularApprovals = []

/-- Every known account has its authorities, which fit and name only known accounts. -/
structure Complete (args : VerifyArgs) (known : AccountName → Prop) : Prop where
  active : args.getActive.Complete known (· = "temp")
  master : args.getMaster.Complete known (· = "temp")
  regular : args.getRegular.Complete known (· = "temp")

end VerifyArgs

section

variable {args : VerifyArgs} {known : AccountName → Prop} {s s' : SignState}

theorem hasKey_foldl_assign_of_mem (sigs : List PublicKey) (m : List (PublicKey × Bool))
    (k : PublicKey) (h : k ∈ sigs ∨ hasKey k m = true) :
    hasKey k (sigs.foldl (fun m k => assign k false m) m) = true := by
  induction sigs generalizing m with
  | nil => simpa using h
  | cons x sigs ih =>
    refine ih (assign x false m) ?_
    rcases h with h | h
    · rcases List.mem_cons.1 h with rfl | h
      · exact .inr (by simp)
      · exact .inl h
    · exact .inr (by simp [h])

theorem new_covers (sigs : List PublicKey) :
    (SignState.new sigs []).Covers (· ∈ sigs) (· = "temp") where
  signs k hk := .inl (hasKey_foldl_assign_of_mem sigs [] k (.inl hk))
  grants a ha := by simp [SignState.new, assign, hasKey, ha]
  used p hp := by
    simp only [SignState.new, assign, List.mem_singleton] at hp
    rw [hp]

theorem nested_closed (args : VerifyArgs) (a : AccountName) (auth : Authority)
    (h : args.getActive a = .ok auth) (hmet : auth.rule.Met (· ∈ args.sigs) args.Nested) :
    args.Nested a :=
  Derived.of_met ⟨auth, h, rfl⟩ hmet

theorem speaks_of_nested {a : AccountName} (h : args.Nested a) : args.Speaks args.Nested a := by
  by_cases ha : a = "temp"
  · exact .inl ha
  · obtain ⟨r, ⟨auth, hauth, rfl⟩, hmet⟩ := h.met_of_not_granted ha
    exact .inr ⟨auth, .inl hauth, hmet⟩

theorem checkActive_sound (a : AccountName) (h : s.Justified (· ∈ args.sigs) args.Nested) {b : Bool}
    (hr : args.checkActive a s = .ok (b, s')) :
    s'.Justified (· ∈ args.sigs) args.Nested ∧ (b = true → args.Speaks args.Nested a) := by
  simp only [VerifyArgs.checkActive, bind_eq_ok] at hr
  obtain ⟨⟨b₁, s₁⟩, h₁, h₂⟩ := hr
  obtain ⟨hj₁, hb₁⟩ := checkAccount_sound (nested_closed args) _ a h h₁
  exact orElse_sound (nested_closed args) a (fun auth hauth hmet => .inr ⟨auth, .inr hauth, hmet⟩)
    hj₁ (fun hb => speaks_of_nested (hb₁ hb)) h₂

theorem orElse_complete {nested get : AuthorityGetter} (hnested : nested.Complete known (· = "temp"))
    (a : AccountName) (r : Bool × SignState)
    (hget : r.1 = true ∨ ∃ auth, get a = .ok auth ∧ auth.Within known)
    (h : r.2.Covers (· ∈ args.sigs) (· = "temp")) :
    ∃ b s', args.orElse nested get a r = .ok (b, s') ∧ s'.Covers (· ∈ args.sigs) (· = "temp") ∧
      (r.1 = true → b = true) ∧ ∀ auth, get a = .ok auth → auth.rule.Met (· ∈ args.sigs)
        (DerivedIn nested.rules (· ∈ args.sigs) (· = "temp") args.maxRecursionDepth) → b = true := by
  unfold VerifyArgs.orElse
  split
  · rename_i hr
    exact ⟨r.1, r.2, rfl, h, id, fun _ _ _ => hr⟩
  · rename_i hr
    obtain ⟨auth, hauth, hwithin⟩ := hget.resolve_left hr
    obtain ⟨b, s', hrun, hcov, hmet⟩ :=
      checkAuthority_complete hnested args.maxRecursionDepth auth r.2 hwithin h
    refine ⟨b, s', by rw [hauth]; exact hrun, hcov, fun h => absurd h hr, fun auth' hauth' hm => ?_⟩
    rw [hauth, Except.ok.injEq] at hauth'
    subst hauth'
    exact hmet hm

theorem checkAccount_complete {get : AuthorityGetter} {signed : PublicKey → Prop}
    {granted : AccountName → Prop} (hget : get.Complete known granted) (levels : Nat)
    {a : AccountName} (ha : known a) (h : s.Covers signed granted) :
    ∃ b s', s.checkAccount get levels a = .ok (b, s') ∧ s'.Covers signed granted ∧
      (granted a → b = true) ∧ ∀ auth, get a = .ok auth →
        auth.rule.Met signed (DerivedIn get.rules signed granted levels) → b = true := by
  unfold SignState.checkAccount
  split
  · exact ⟨true, _, rfl, h.approve a, fun _ => rfl, fun _ _ _ => rfl⟩
  · rename_i hkey
    have hnot : ¬ granted a := fun ha => hkey (h.grants a ha)
    obtain ⟨auth, hauth, hwithin⟩ := (hget a ha).resolve_left hnot
    obtain ⟨b, s', hrun, hcov, hmet⟩ := checkAuthority_complete hget levels auth s hwithin h
    refine ⟨b, s', by rw [hauth]; exact hrun, hcov, fun ha => absurd ha hnot,
      fun auth' hauth' hm => ?_⟩
    rw [hauth, Except.ok.injEq] at hauth'
    subst hauth'
    exact hmet hm

theorem checkActive_complete (hargs : args.Complete known) {a : AccountName} (ha : known a)
    (h : s.Covers (· ∈ args.sigs) (· = "temp")) :
    ∃ b s', args.checkActive a s = .ok (b, s') ∧ s'.Covers (· ∈ args.sigs) (· = "temp") ∧
      (args.Speaks args.NestedIn a → b = true) := by
  obtain ⟨b₁, s₁, h₁, hcov₁, hgrant, hmet₁⟩ :=
    checkAccount_complete hargs.active args.maxRecursionDepth ha h
  obtain ⟨b₂, s₂, h₂, hcov₂, hkeep, hmet₂⟩ :=
    orElse_complete hargs.active a (b₁, s₁) ((hargs.master a ha).imp_left hgrant) hcov₁
  refine ⟨b₂, s₂, by rw [VerifyArgs.checkActive, h₁]; exact h₂, hcov₂, fun hspeaks => ?_⟩
  rcases hspeaks with ha | ⟨auth, hauth | hauth, hm⟩
  · exact hkeep (hgrant ha)
  · exact hkeep (hmet₁ auth hauth hm)
  · exact hmet₂ auth hauth hm

theorem checkMaster_complete (hargs : args.masterApprovals = []) (hall : args.Complete known)
    {a : AccountName} (ha : known a) (htemp : a ≠ "temp")
    (h : s.Covers (· ∈ args.sigs) (· = "temp")) :
    ∃ b s', args.checkMaster a s = .ok (b, s') ∧ s'.Covers (· ∈ args.sigs) (· = "temp") ∧
      ((∃ auth : Authority, args.getMaster a = .ok auth ∧
        auth.rule.Met (· ∈ args.sigs) args.NestedIn) → b = true) := by
  obtain ⟨b, s₁, hrun, hcov, -, hmet⟩ := orElse_complete hall.active a (false, s)
    (.inr ((hall.master a ha).resolve_left htemp)) h
  refine ⟨b, if b then s₁.approve a true else s₁, ?_, ?_, ?_⟩
  · simp only [VerifyArgs.checkMaster, hargs, List.not_mem_nil, ↓reduceIte, hrun, bind, Except.bind,
      pure, Except.pure]
  · cases b with
    | false => exact hcov
    | true => exact hcov.approve a
  · rintro ⟨auth, hauth, hm⟩
    exact hmet auth hauth hm

theorem collectMissing_cons {α : Type} {check : α → SignState → Result (Bool × SignState)} {x : α}
    {rest missing : List α} {met : Bool} {s₁ s₂ : SignState} (hx : check x s = .ok (met, s₁))
    (hrest : collectMissing check rest s₁ = .ok (missing, s₂)) :
    collectMissing check (x :: rest) s = .ok (if met then missing else x :: missing, s₂) := by
  simp only [collectMissing, hx, hrest, bind, Except.bind, pure, Except.pure]

theorem collectMissing_complete {α : Type} {Inv : SignState → Prop} {P : α → Prop}
    {check : α → SignState → Result (Bool × SignState)} (hs : Inv s) (l : List α)
    (hcheck : ∀ x ∈ l, ∀ s, Inv s →
      ∃ b s', check x s = .ok (b, s') ∧ Inv s' ∧ (P x → b = true)) :
    ∃ missing s', collectMissing check l s = .ok (missing, s') ∧ Inv s' ∧
      ((∀ x ∈ l, P x) → missing = []) := by
  induction l generalizing s with
  | nil => exact ⟨[], s, rfl, hs, fun _ => rfl⟩
  | cons x rest ih =>
    obtain ⟨b, s₁, hx, hs₁, hb⟩ := hcheck x List.mem_cons_self s hs
    obtain ⟨missing, s₂, hrest, hs₂, hnil⟩ :=
      ih hs₁ fun y hy => hcheck y (List.mem_cons_of_mem x hy)
    refine ⟨_, s₂, collectMissing_cons hx hrest, hs₂, fun hall => ?_⟩
    rw [hb (hall x List.mem_cons_self)]
    exact hnil fun y hy => hall y (List.mem_cons_of_mem x hy)

/-- The required accounts are known, and so are those that the other authorities name; the
master accounts are not `temp`. -/
structure RequiredAuthorities.Within (known : AccountName → Prop) (required : RequiredAuthorities) :
    Prop where
  active : ∀ a ∈ required.active, known a
  master : ∀ a ∈ required.master, known a ∧ a ≠ "temp"
  regular : ∀ a ∈ required.regular, known a
  other : ∀ auth ∈ required.other, auth.Within known

/-- The checks of the active and the master level end in a state or miss an authority, and
they miss none that is met within the depth limit. -/
theorem checkRequiredActive_ends (hargs : args.Unapproved) (hall : args.Complete known)
    {required : RequiredAuthorities} (hrequired : required.Within known) :
    (∃ s, checkRequiredActive args required = .ok s ∧ s.unusedApprovals = []) ∨
      ∃ e, checkRequiredActive args required = .error e ∧ e.missingAuthority = true ∧
        ¬ ((∀ auth ∈ required.other, auth.rule.Met (· ∈ args.sigs) args.NestedIn) ∧
          (∀ a ∈ required.active, args.Speaks args.NestedIn a) ∧
          ∀ a ∈ required.master, ∃ auth : Authority, args.getMaster a = .ok auth ∧
            auth.rule.Met (· ∈ args.sigs) args.NestedIn) := by
  obtain ⟨missing₁, s₁, hrun₁, hcov₁, hnil₁⟩ := collectMissing_complete
    (P := fun auth : Authority => auth.rule.Met (· ∈ args.sigs) args.NestedIn)
    (new_covers args.sigs) required.other fun auth hauth s hs =>
      checkAuthority_complete hall.active args.maxRecursionDepth auth s
        (hrequired.other auth hauth) hs
  obtain ⟨missing₂, s₂, hrun₂, hcov₂, hnil₂⟩ := collectMissing_complete
    (P := args.Speaks args.NestedIn) hcov₁ required.active
    fun a ha s hs => checkActive_complete hall (hrequired.active a ha) hs
  obtain ⟨missing₃, s₃, hrun₃, hcov₃, hnil₃⟩ := collectMissing_complete hcov₂ required.master
    fun a ha s hs => checkMaster_complete (a := a) hargs.master hall (hrequired.master a ha).1
      (hrequired.master a ha).2 hs
  simp only [checkRequiredActive, hargs.active, hargs.master, SignState.withApprovals,
    List.foldl_nil, bind, Except.bind, hrun₁, require]
  by_cases h₁ : missing₁ = []
  · simp only [h₁, ↓reduceIte, hrun₂]
    by_cases h₂ : missing₂ = []
    · simp only [h₂, ↓reduceIte, hrun₃]
      by_cases h₃ : missing₃ = []
      · simp only [h₃, ↓reduceIte]
        exact .inl ⟨s₃, rfl, hcov₃.unusedApprovals⟩
      · simp only [h₃, ↓reduceIte]
        exact .inr ⟨_, rfl, rfl, fun h => h₃ (hnil₃ h.2.2)⟩
    · simp only [h₂, ↓reduceIte]
      exact .inr ⟨_, rfl, rfl, fun h => h₂ (hnil₂ h.2.1)⟩
  · simp only [h₁, ↓reduceIte]
    exact .inr ⟨_, rfl, rfl, fun h => h₁ (hnil₁ h.1)⟩

/-! ## Accounts that are checked together -/

/-- `verify_authority` misses no authority: it accepts, or it finds unused signatures. -/
def MissesNone (args : VerifyArgs) (ops : List Operation) : Prop :=
  verifyAuthority args ops = .ok () ∨
    ∃ unused, verifyAuthority args ops = .error (.txIrrelevantSig unused)

instance (args : VerifyArgs) (ops : List Operation) : Decidable (MissesNone args ops) :=
  decidable_of_iff ((match verifyAuthority args ops with
    | .ok () => true
    | .error (.txIrrelevantSig _) => true
    | .error _ => false) = true) <| by
    unfold MissesNone
    split <;> simp_all

/-- Without unused approvals only the irrelevant signatures are left to complain about. -/
theorem missesNone_of_checkRequired {ops : List Operation} (h : checkRequired args ops = .ok s)
    (hs : s.unusedApprovals = []) : MissesNone args ops := by
  unfold MissesNone verifyAuthority
  rw [h]
  by_cases hsig : s.unusedSignatures = []
  · refine .inl ?_
    simp [bind, Except.bind, assertUnusedApprovals, require, hsig, hs]
  · refine .inr ⟨s.unusedSignatures, ?_⟩
    simp [bind, Except.bind, assertUnusedApprovals, require, hsig]

theorem not_missesNone {ops : List Operation} {e : Exception} (h : checkRequired args ops = .error e)
    (he : e.missingAuthority = true) : ¬ MissesNone args ops := by
  unfold MissesNone verifyAuthority
  rw [h]
  rintro (h | ⟨unused, h⟩)
  · cases h
  · cases h
    cases he

/-- A list of required active accounts that passes the checks consists of accounts that
speak. -/
theorem checkRequiredActive_speaks (hargs : args.Unapproved) (l : List AccountName)
    (hr : checkRequiredActive args { active := l } = .ok s) : ∀ a ∈ l, args.Speaks args.Nested a := by
  simp only [checkRequiredActive, hargs.active, hargs.master, bind_eq_ok, require_eq_ok] at hr
  obtain ⟨⟨_, s₁⟩, hother, _, -, ⟨_, s₂⟩, hactive, _, hnil, -⟩ := hr
  simp only [collectMissing, Except.ok.injEq, Prod.mk.injEq] at hother
  obtain ⟨-, rfl⟩ := hother
  have hinit := new_justified args.sigs (show args.Nested "temp" from .grant rfl)
  exact (collectMissing_sound (fun a s b s' hs h => checkActive_sound a hs h) l hinit hactive).2 hnil

/-- The operations require active authorities only. -/
structure OnlyActive (ops : List Operation) : Prop where
  regular : (collectRequired ops).regular = []
  master : (collectRequired ops).master = []
  other : (collectRequired ops).other = []

theorem checkRequired_of_onlyActive {ops : List Operation} (h : OnlyActive ops) :
    checkRequired args ops =
      checkRequiredActive args { active := (collectRequired ops).active } := by
  have hreq : collectRequired ops = { active := (collectRequired ops).active } := by
    cases hr : collectRequired ops with
    | mk active master regular other =>
      have hregular : regular = [] := by simpa [hr] using h.regular
      have hmaster : master = [] := by simpa [hr] using h.master
      have hother : other = [] := by simpa [hr] using h.other
      rw [hregular, hmaster, hother]
  simp only [checkRequired, h.regular, ↓reduceIte]
  rw [← hreq]

/-- Known accounts that speak only within the depth limit: none is missed exactly when all
of them speak. -/
theorem missesNone_iff_speak (hargs : args.Unapproved) (hall : args.Complete known)
    {ops : List Operation} (hops : OnlyActive ops)
    (hknown : ∀ a ∈ (collectRequired ops).active, known a)
    (hlimit : ∀ a ∈ (collectRequired ops).active,
      args.Speaks args.Nested a → args.Speaks args.NestedIn a) :
    MissesNone args ops ↔ ∀ a ∈ (collectRequired ops).active, args.Speaks args.Nested a := by
  have hwithin : RequiredAuthorities.Within known { active := (collectRequired ops).active } :=
    ⟨hknown, by simp, by simp, by simp⟩
  have hcheck : checkRequired args ops =
      checkRequiredActive args { active := (collectRequired ops).active } :=
    checkRequired_of_onlyActive hops
  rcases checkRequiredActive_ends hargs hall hwithin with ⟨s, hs, hnil⟩ | ⟨e, he, hmiss, hnot⟩
  · rw [← hcheck] at hs
    refine ⟨fun _ => checkRequiredActive_speaks hargs _ (hcheck ▸ hs), fun _ => ?_⟩
    exact missesNone_of_checkRequired hs hnil
  · rw [← hcheck] at he
    refine ⟨fun h => absurd h (not_missesNone he hmiss), fun h => absurd ?_ hnot⟩
    exact ⟨by simp, fun a ha => hlimit a ha (h a ha), by simp⟩

theorem onlyActive_alone (a : AccountName) : OnlyActive [askFor [a] []] := ⟨rfl, rfl, rfl⟩

/-- **Verdicts on several accounts.**  Take any signature keys and authorities, without
approvals.  When the required active accounts that are met by any derivation are met by
one within the depth limit, none of them is missed together exactly when none of them is
missed alone. -/
theorem verifyAuthority_iff_each (args : VerifyArgs) (hargs : args.Unapproved)
    (known : AccountName → Prop) (hall : args.Complete known) (ops : List Operation)
    (hops : OnlyActive ops) (hknown : ∀ a ∈ (collectRequired ops).active, known a)
    (hlimit : ∀ a ∈ (collectRequired ops).active,
      args.Speaks args.Nested a → args.Speaks args.NestedIn a) :
    MissesNone args ops ↔
      ∀ a ∈ (collectRequired ops).active, MissesNone args [askFor [a] []] := by
  have halone : ∀ a ∈ (collectRequired ops).active,
      (MissesNone args [askFor [a] []] ↔ args.Speaks args.Nested a) := fun a ha => by
    have hself : (collectRequired [askFor [a] []]).active = [a] := rfl
    rw [missesNone_iff_speak hargs hall (onlyActive_alone a) (by simpa [hself] using hknown a ha)
      (by simpa [hself] using hlimit a ha), hself]
    simp
  rw [missesNone_iff_speak hargs hall hops hknown hlimit]
  exact forall₂_congr fun a ha => (halone a ha).symm

end

/-- Accounts that name each other in chains of one to four links; the key 7 ends each of
them.  `carl` names an account that does not exist, `gus` a crowd. -/
def chainedAuthority : AccountName → Authority
  | "alice" => { weightThreshold := 1, accountAuths := [("dan", 1)] }
  | "bob" => { weightThreshold := 1, accountAuths := [("alice", 1)] }
  | "carl" => { weightThreshold := 1, accountAuths := [("deep", 1), ("ghost", 1), ("zoe", 1)] }
  | "dan" => { weightThreshold := 1, accountAuths := [("erin", 1)] }
  | "deep" => { weightThreshold := 1, accountAuths := [("dan", 1)] }
  | "gus" =>
    { weightThreshold := 2 ^ 32 - 1, keyAuths := [(7, 0)]
      accountAuths := ("deep", 1) :: crowd 65537 }
  | "aaron" => { weightThreshold := 1, accountAuths := [("xena", 1)] }
  | "ben" => { weightThreshold := 2, accountAuths := [("gina", 1), ("hugo", 1)] }
  | "gina" => { weightThreshold := 1, accountAuths := [("xena", 1), ("zoe", 1)] }
  | "hugo" => { weightThreshold := 1, accountAuths := [("walt", 1)] }
  | "walt" => { weightThreshold := 1, accountAuths := [("zoe", 1)] }
  | "xena" => { weightThreshold := 1, accountAuths := [("yuri", 1)] }
  | _ => keySeven

/-- The key 7 has signed; master and regular authorities cannot be met, and `ghost` does not
exist. -/
def chainedArgs : VerifyArgs :=
  { sigs := [7]
    getActive := fun a =>
      if a = "ghost" then .error (.unknownKey "account_authority by_account")
      else .ok (chainedAuthority a)
    getMaster := fun _ => .ok { weightThreshold := 1 }
    getRegular := fun _ => .ok { weightThreshold := 1 } }

theorem chainedArgs_unapproved : chainedArgs.Unapproved := ⟨rfl, rfl, rfl⟩

/-- The accounts with short and complete authorities. -/
def Chained (a : AccountName) : Prop := a ∈ ["alice", "bob", "dan", "erin", "zoe"]

theorem chainedArgs_complete : chainedArgs.Complete Chained := by
  have hplain : ({ weightThreshold := 1 } : Authority).Within Chained := ⟨.inr (by decide), by simp⟩
  refine ⟨fun a ha => .inr ?_, fun a _ => .inr ⟨_, rfl, hplain⟩, fun a _ => .inr ⟨_, rfl, hplain⟩⟩
  refine ⟨chainedAuthority a, if_neg ?_, ?_⟩
  · rintro rfl
    exact absurd ha (by simp [Chained])
  · simp only [Chained, List.mem_cons, List.not_mem_nil, or_false] at ha
    rcases ha with rfl | rfl | rfl | rfl | rfl <;>
      exact ⟨.inr (by decide), by simp [chainedAuthority, Chained, keySeven]⟩

theorem verifyAuthority_iff_each_three :
    MissesNone chainedArgs [askFor ["alice", "dan", "zoe"] []] ↔
      ∀ a ∈ (collectRequired [askFor ["alice", "dan", "zoe"] []]).active,
        MissesNone chainedArgs [askFor [a] []] := by
  have hrequired : (collectRequired [askFor ["alice", "dan", "zoe"] []]).active =
      ["alice", "dan", "zoe"] := by decide
  have herin (height : Nat) : DerivedIn chainedArgs.getActive.rules (· ∈ chainedArgs.sigs)
      (· = "temp") (height + 1) "erin" :=
    .inr ⟨_, ⟨_, rfl, rfl⟩, [(7, 1)], [], List.Sublist.refl _, by simp [chainedArgs],
      List.Sublist.refl _, by simp, by decide⟩
  have hdan : DerivedIn chainedArgs.getActive.rules (· ∈ chainedArgs.sigs) (· = "temp") 2 "dan" :=
    .inr ⟨_, ⟨_, rfl, rfl⟩, [], [("erin", 1)], List.Sublist.refl _, by simp,
      List.Sublist.refl _, by simpa using herin 0, by decide⟩
  refine verifyAuthority_iff_each chainedArgs chainedArgs_unapproved Chained chainedArgs_complete _
    ⟨rfl, rfl, rfl⟩ (fun a ha => ?_) fun a ha _ => ?_
  · rw [hrequired] at ha
    simp only [List.mem_cons, List.not_mem_nil, or_false] at ha
    rcases ha with rfl | rfl | rfl <;> simp [Chained]
  · rw [hrequired] at ha
    simp only [List.mem_cons, List.not_mem_nil, or_false] at ha
    rcases ha with rfl | rfl | rfl
    · exact .inr ⟨_, .inl rfl, [], [("dan", 1)], List.Sublist.refl _, by simp,
        List.Sublist.refl _, by simpa using (show chainedArgs.NestedIn "dan" from hdan), by decide⟩
    · exact .inr ⟨_, .inl rfl, [], [("erin", 1)], List.Sublist.refl _, by simp,
        List.Sublist.refl _, by simpa using (show chainedArgs.NestedIn "erin" from herin 1), by decide⟩
    · exact .inr ⟨_, .inl rfl, [(7, 1)], [], List.Sublist.refl _, by simp [chainedArgs],
        List.Sublist.refl _, by simp, by decide⟩

/-! ## Where the verdicts depend on each other -/

theorem chained_member (i : Nat) : chainedArgs.getActive (memberName i) = .ok keySeven := by
  have hhead := memberName_head i
  have hother (a : AccountName) (ha : a.toList.head? = some 'm') : chainedAuthority a = keySeven := by
    unfold chainedAuthority
    split <;> first | rfl | exact absurd ha (by decide)
  show (if memberName i = "ghost" then _ else _) = _
  rw [if_neg fun h => ?_, hother _ hhead]
  rw [h] at hhead
  exact absurd hhead (by decide)

/-- The key 7 is provided, and no approval is unused. -/
def SevenSigned (s : SignState) : Prop :=
  hasKey 7 s.providedSignatures = true ∧ ∀ p ∈ s.approvedBy, p.2 = true

/-- The crowd of `gus` is enough on its own, and too much when `deep` counts as well. -/
theorem checkAuthority_gus (b : Bool) (approved : List (AccountName × Bool)) (total : Nat)
    (s : SignState) (htotal : total < 2 ^ 16 - 1) (hs : SevenSigned s)
    (hdeep : ∀ rest, checkAccountAuths chainedArgs.getActive
      (some (checkAuthority chainedArgs.getActive 1)) (2 ^ 32 - 1) (("deep", 1) :: rest) 0
        ⟨[(7, true)], [], approved⟩ =
      checkAccountAuths chainedArgs.getActive (some (checkAuthority chainedArgs.getActive 1))
        (2 ^ 32 - 1) rest total s) :
    ∃ s', SevenSigned s' ∧ checkAuthority chainedArgs.getActive 2 (chainedAuthority "gus")
      ⟨[(7, b)], [], approved⟩ = .ok (decide (total = 0), s') := by
  obtain ⟨s', hs', hrun⟩ := checkAccountAuths_crowd 1 SevenSigned chained_member (fun _ h => h.1)
    (fun s h a => ⟨by simp [approve], mem_assign_used a _ h.2⟩) hs total htotal
  have hkeys : checkKeyAuths (2 ^ 32 - 1) [(7, 0)] 0 ⟨[(7, b)], [], approved⟩ =
      ((false, 0), ⟨[(7, true)], [], approved⟩) := rfl
  exact ⟨s', hs', (checkAuthority_of_keys 1 _ hkeys).trans ((hdeep _).trans hrun)⟩

theorem checkAccount_of_authority {get : AuthorityGetter} {levels : Nat} {a : AccountName}
    {auth : Authority} {r : Bool × SignState} {s : SignState} (hkey : hasKey a s.approvedBy = false)
    (hget : get a = .ok auth) (hauth : checkAuthority get levels auth s = .ok r) :
    s.checkAccount get levels a = .ok r := by
  simp only [checkAccount, hkey, Bool.false_eq_true, ↓reduceIte, hget, hauth, bind, Except.bind]

theorem checkActive_of_authority (args : VerifyArgs) {a : AccountName} {auth : Authority}
    {r : Bool × SignState} {s : SignState} (hkey : hasKey a s.approvedBy = false)
    (hget : args.getActive a = .ok auth)
    (hauth : checkAuthority args.getActive args.maxRecursionDepth auth s = .ok r) :
    args.checkActive a s = args.orElse args.getActive args.getMaster a r := by
  rw [VerifyArgs.checkActive, checkAccount_of_authority hkey hget hauth]
  rfl

theorem checkRequired_of_collect {args : VerifyArgs} (hargs : args.Unapproved)
    (ops : List Operation) (hops : OnlyActive ops) {l missing : List AccountName} {s : SignState}
    (hl : (collectRequired ops).active = l)
    (h : collectMissing args.checkActive l (SignState.new args.sigs []) = .ok (missing, s)) :
    checkRequired args ops =
      if missing = [] then .ok s else .error (.txMissingActiveAuth missing s.usedSignatures) := by
  rw [checkRequired_of_onlyActive hops, hl]
  simp only [checkRequiredActive, hargs.active, hargs.master, SignState.withApprovals,
    List.foldl_nil, collectMissing, bind, Except.bind, h, require, ↓reduceIte]
  by_cases hnil : missing = []
  · simp only [hnil, ↓reduceIte]
    rfl
  · simp only [hnil, ↓reduceIte]

theorem chained_gus : chainedArgs.getActive "gus" = .ok (chainedAuthority "gus") := rfl

theorem missesNone_gus : MissesNone chainedArgs [askFor ["gus"] []] := by
  obtain ⟨s', hs', hauth⟩ := checkAuthority_gus false [("temp", true)] 0
    ⟨[(7, true)], [], [("temp", true)]⟩ (by norm_num) ⟨rfl, by simp⟩ fun _ => rfl
  have hcheck := checkActive_of_authority chainedArgs rfl chained_gus hauth
  have hmet : chainedArgs.orElse chainedArgs.getActive chainedArgs.getMaster "gus" (true, s') =
      .ok (true, s') := rfl
  rw [decide_eq_true rfl, hmet] at hcheck
  have hrun := checkRequired_of_collect chainedArgs_unapproved _ (onlyActive_alone "gus") rfl
    (collectMissing_cons hcheck rfl)
  rw [if_pos rfl, if_pos rfl] at hrun
  refine missesNone_of_checkRequired hrun ?_
  simp only [unusedApprovals, List.map_eq_nil_iff, List.filter_eq_nil_iff]
  intro p hp
  simp [hs'.2 p hp]

/-- `alice` is met through `dan`, who is then approved when `gus` is looked at. -/
theorem not_missesNone_gus : ¬ MissesNone chainedArgs [askFor ["alice", "gus"] []] := by
  obtain ⟨s', -, hauth⟩ := checkAuthority_gus true
    [("temp", true), ("erin", true), ("dan", true)] 1
    ⟨[(7, true)], [], [("temp", true), ("erin", true), ("dan", true), ("deep", true)]⟩
    (by norm_num) ⟨rfl, by simp⟩ fun _ => rfl
  have hcheck := checkActive_of_authority chainedArgs rfl chained_gus hauth
  have halice : chainedArgs.checkActive "alice" ⟨[(7, false)], [], [("temp", true)]⟩ =
      .ok (true, ⟨[(7, true)], [], [("temp", true), ("erin", true), ("dan", true)]⟩) := rfl
  have hmaster : chainedArgs.orElse chainedArgs.getActive chainedArgs.getMaster "gus" (false, s') =
      .ok (false, s') := rfl
  rw [decide_eq_false one_ne_zero, hmaster] at hcheck
  have hrun := checkRequired_of_collect chainedArgs_unapproved [askFor ["alice", "gus"] []]
    ⟨rfl, rfl, rfl⟩ rfl (collectMissing_cons halice (collectMissing_cons hcheck rfl))
  rw [if_neg (by simp)] at hrun
  exact not_missesNone hrun rfl

/-- With the limit of two levels `bob` is accepted after `alice` and rejected alone, and
`ben` is accepted alone and rejected after `aaron`.  Within the limit, `carl` is accepted
after `alice` and fails alone on an account that does not exist, and `gus` is accepted alone
and rejected after `alice`, when the sum of weights leaves its 32 bits. -/
theorem verdict_depends_on_others :
    ¬ (MissesNone chainedArgs [askFor ["alice", "bob"] []] ↔
      ∀ a ∈ ["alice", "bob"], MissesNone chainedArgs [askFor [a] []]) ∧
    ¬ (MissesNone chainedArgs [askFor ["aaron", "ben"] []] ↔
      ∀ a ∈ ["aaron", "ben"], MissesNone chainedArgs [askFor [a] []]) ∧
    ¬ (MissesNone chainedArgs [askFor ["alice", "carl"] []] ↔
      ∀ a ∈ ["alice", "carl"], MissesNone chainedArgs [askFor [a] []]) ∧
    ¬ (MissesNone chainedArgs [askFor ["alice", "gus"] []] ↔
      ∀ a ∈ ["alice", "gus"], MissesNone chainedArgs [askFor [a] []]) := by
  refine ⟨by decide +kernel, by decide +kernel, by decide +kernel, fun h => ?_⟩
  refine not_missesNone_gus (h.2 fun a ha => ?_)
  simp only [List.mem_cons, List.not_mem_nil, or_false] at ha
  rcases ha with rfl | rfl
  · decide +kernel
  · exact missesNone_gus

end VizCore.Protocol
