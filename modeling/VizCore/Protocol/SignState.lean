import VizCore.Lib.Derivation
import VizCore.Protocol.Operations

/-!
# Signature state

`sign_state` keeps which keys have signed and which accounts count as approved,
and checks authorities against them.

* `checkAuthority_backed`: an accepted authority is met by the keys that the check has
  used and by accounts that hold, and the state approves only accounts that hold;
* `checkAuthority_sound`: the same for all keys that the state can use.
-/

namespace VizCore.Protocol

open VizCore.Lib

/-! ## The sign state -/

abbrev AuthorityGetter := AccountName → Result Authority

/-- `map[k] = v` on a `flat_map`. -/
def assign {α : Type} [DecidableEq α] (k : α) (v : Bool) : List (α × Bool) → List (α × Bool)
  | [] => [(k, v)]
  | p :: rest => if p.1 = k then (k, v) :: rest else p :: assign k v rest

def hasKey {α : Type} [DecidableEq α] (k : α) (m : List (α × Bool)) : Bool :=
  m.any fun p => p.1 = k

@[simp] theorem hasKey_assign {α : Type} [DecidableEq α] (a k : α) (v : Bool)
    (m : List (α × Bool)) : hasKey a (assign k v m) = (decide (k = a) || hasKey a m) := by
  induction m with
  | nil => simp [hasKey, assign]
  | cons p rest ih =>
    unfold assign
    by_cases h : p.1 = k
    · by_cases ha : k = a <;> simp [hasKey, h, ha]
    · simp only [hasKey, List.any_cons] at ih ⊢
      rw [if_neg h, List.any_cons, ih]
      cases decide (p.1 = a) <;> cases decide (k = a) <;> simp

structure SignState where
  providedSignatures : List (PublicKey × Bool)
  availableKeys : List PublicKey
  approvedBy : List (AccountName × Bool)
  deriving DecidableEq

namespace SignState

/-- The constructor: every key of `sigs` is provided and not yet used, and the name
`temp` is approved. -/
def new (sigs keys : List PublicKey) : SignState :=
  { providedSignatures := sigs.foldl (fun m k => assign k false m) []
    availableKeys := keys
    approvedBy := assign "temp" true [] }

def signedBy (s : SignState) (k : PublicKey) : Bool × SignState :=
  if hasKey k s.providedSignatures || decide (k ∈ s.availableKeys) then
    (true, { s with providedSignatures := assign k true s.providedSignatures })
  else (false, s)

def approve (s : SignState) (a : AccountName) (used : Bool) : SignState :=
  { s with approvedBy := assign a used s.approvedBy }

/-- The keys of an authority: stops with `true` as soon as the threshold is reached, else
returns the weight collected so far.  `total_weight` has 32 bits. -/
def checkKeyAuths (threshold : Nat) :
    List (PublicKey × Nat) → Nat → SignState → (Bool × Nat) × SignState
  | [], total, s => ((false, total), s)
  | (k, w) :: rest, total, s =>
    match s.signedBy k with
    | (true, s) =>
      let total := (total + w) % 2 ^ 32
      if threshold ≤ total then ((true, total), s) else checkKeyAuths threshold rest total s
    | (false, s) => checkKeyAuths threshold rest total s

/-- The accounts of an authority.  `check` is the recursive call, absent when the
recursion has reached its depth limit. -/
def checkAccountAuths (getActive : AuthorityGetter)
    (check : Option (Authority → SignState → Result (Bool × SignState))) (threshold : Nat) :
    List (AccountName × Nat) → Nat → SignState → Result (Bool × SignState)
  | [], total, s => .ok (decide (threshold ≤ total), s)
  | (a, w) :: rest, total, s =>
    let counted := (total + w) % 2 ^ 32
    if hasKey a s.approvedBy then
      if threshold ≤ counted then .ok (true, s)
      else checkAccountAuths getActive check threshold rest counted s
    else
      match check with
      | none => checkAccountAuths getActive check threshold rest total s
      | some check' => do
        let auth ← getActive a
        let (met, s) ← check' auth s
        if met then
          let s := s.approve a true
          if threshold ≤ counted then .ok (true, s)
          else checkAccountAuths getActive check threshold rest counted s
        else checkAccountAuths getActive check threshold rest total s

/-- `check_authority(auth, depth)`, where the first argument is the number of levels left,
`max_recursion - depth`. -/
def checkAuthority (getActive : AuthorityGetter) :
    Nat → Authority → SignState → Result (Bool × SignState)
  | 0, auth, s =>
    match checkKeyAuths auth.weightThreshold auth.keyAuths 0 s with
    | ((true, _), s) => .ok (true, s)
    | ((false, total), s) =>
      checkAccountAuths getActive none auth.weightThreshold auth.accountAuths total s
  | levels + 1, auth, s =>
    match checkKeyAuths auth.weightThreshold auth.keyAuths 0 s with
    | ((true, _), s) => .ok (true, s)
    | ((false, total), s) =>
      checkAccountAuths getActive (some (checkAuthority getActive levels)) auth.weightThreshold
        auth.accountAuths total s

/-- One level of `check_authority`, with the check for the level below. -/
def checkLevel (getActive : AuthorityGetter)
    (check : Option (Authority → SignState → Result (Bool × SignState))) (auth : Authority)
    (s : SignState) : Result (Bool × SignState) :=
  match checkKeyAuths auth.weightThreshold auth.keyAuths 0 s with
  | ((true, _), s) => .ok (true, s)
  | ((false, total), s) =>
    checkAccountAuths getActive check auth.weightThreshold auth.accountAuths total s

/-- `check_authority(id)`. -/
def checkAccount (getActive : AuthorityGetter) (levels : Nat) (id : AccountName)
    (s : SignState) : Result (Bool × SignState) :=
  if hasKey id s.approvedBy then .ok (true, s.approve id true)
  else do
    let auth ← getActive id
    checkAuthority getActive levels auth s

/-- The keys that `remove_unused_signatures` reports as used. -/
def usedSignatures (s : SignState) : List PublicKey :=
  (s.providedSignatures.filter fun p => p.2).map Prod.fst

/-- The keys that `remove_unused_signatures` reports as unused. -/
def unusedSignatures (s : SignState) : List PublicKey :=
  (s.providedSignatures.filter fun p => !p.2).map Prod.fst

/-- The approvals that `filter_unused_approvals` reports. -/
def unusedApprovals (s : SignState) : List AccountName :=
  (s.approvedBy.filter fun p => !p.2).map Prod.fst

end SignState

/-! ## Soundness of the checks -/

def Authority.rule (auth : Authority) : Rule PublicKey AccountName :=
  { threshold := auth.weightThreshold, keys := auth.keyAuths, names := auth.accountAuths }

/-- Every key the state can use is signed and every name it counts as approved holds. -/
structure SignState.Justified (signed : PublicKey → Prop) (holds : AccountName → Prop)
    (s : SignState) : Prop where
  provided : ∀ k, hasKey k s.providedSignatures = true → signed k
  available : ∀ k ∈ s.availableKeys, signed k
  approved : ∀ a, hasKey a s.approvedBy = true → holds a

namespace SignState

variable {signed : PublicKey → Prop} {holds : AccountName → Prop} {s s' : SignState}

theorem Justified.approve (h : s.Justified signed holds) {a : AccountName} (ha : holds a)
    (used : Bool) : (s.approve a used).Justified signed holds where
  provided := h.provided
  available := h.available
  approved b hb := by
    simp only [SignState.approve, hasKey_assign, Bool.or_eq_true, decide_eq_true_eq] at hb
    rcases hb with rfl | hb
    · exact ha
    · exact h.approved b hb

theorem mem_assign_of_used {α : Type} [DecidableEq α] {a k : α} {m : List (α × Bool)}
    (h : (a, true) ∈ m) : (a, true) ∈ assign k true m := by
  induction m with
  | nil => exact absurd h (by simp)
  | cons p rest ih =>
    unfold assign
    split
    · rename_i hk
      rcases List.mem_cons.1 h with h | h
      · rw [← h] at hk
        exact List.mem_cons.2 (.inl (by rw [← hk]))
      · exact List.mem_cons_of_mem _ h
    · rcases List.mem_cons.1 h with h | h
      · exact List.mem_cons.2 (.inl h)
      · exact List.mem_cons_of_mem _ (ih h)

theorem mem_assign_self {α : Type} [DecidableEq α] (k : α) (v : Bool) (m : List (α × Bool)) :
    (k, v) ∈ assign k v m := by
  induction m with
  | nil => simp [assign]
  | cons p rest ih =>
    unfold assign
    split
    · exact List.mem_cons_self
    · exact List.mem_cons_of_mem _ ih

theorem mem_usedSignatures {k : PublicKey} :
    k ∈ s.usedSignatures ↔ (k, true) ∈ s.providedSignatures := by
  simp [usedSignatures]

theorem hasKey_of_used {k : PublicKey} (h : k ∈ s.usedSignatures) :
    hasKey k s.providedSignatures = true := by
  simp only [hasKey, List.any_eq_true, decide_eq_true_eq]
  exact ⟨(k, true), mem_usedSignatures.1 h, rfl⟩

theorem mem_keys_iff {α : Type} [DecidableEq α] (k : α) (m : List (α × Bool)) :
    k ∈ m.map Prod.fst ↔ hasKey k m = true := by
  induction m with
  | nil => simp [hasKey]
  | cons p rest ih =>
    rw [hasKey] at ih ⊢
    rw [List.map_cons, List.mem_cons, ih, List.any_cons, Bool.or_eq_true, decide_eq_true_eq, eq_comm]

theorem nodup_assign {α : Type} [DecidableEq α] (k : α) (v : Bool) (m : List (α × Bool))
    (h : (m.map Prod.fst).Nodup) : ((assign k v m).map Prod.fst).Nodup := by
  induction m with
  | nil => simp [assign]
  | cons p rest ih =>
    simp only [List.map_cons, List.nodup_cons] at h
    unfold assign
    by_cases hk : p.1 = k
    · subst hk
      rw [if_pos rfl, List.map_cons, List.nodup_cons]
      exact h
    · rw [if_neg hk, List.map_cons, List.nodup_cons]
      refine ⟨fun hmem => ?_, ih h.2⟩
      rw [mem_keys_iff, hasKey_assign, Bool.or_eq_true, decide_eq_true_eq] at hmem
      rcases hmem with rfl | hmem
      · exact hk rfl
      · exact h.1 ((mem_keys_iff p.1 rest).2 hmem)

/-- What a check does to the keys: the ones it uses stay used, it provides only keys that
were available, and it provides none twice. -/
structure Grows (s s' : SignState) : Prop where
  available : s'.availableKeys = s.availableKeys
  provided : ∀ k, hasKey k s'.providedSignatures = true →
    hasKey k s.providedSignatures = true ∨ k ∈ s.availableKeys
  used : ∀ k ∈ s.usedSignatures, k ∈ s'.usedSignatures
  distinct : (s.providedSignatures.map Prod.fst).Nodup → (s'.providedSignatures.map Prod.fst).Nodup

theorem Grows.refl (s : SignState) : s.Grows s := ⟨rfl, fun _ h => .inl h, fun _ h => h, id⟩

theorem Grows.trans {s₁ s₂ s₃ : SignState} (h₁ : s₁.Grows s₂) (h₂ : s₂.Grows s₃) :
    s₁.Grows s₃ where
  available := h₂.available.trans h₁.available
  provided k hk := by
    rcases h₂.provided k hk with hk | hk
    · exact h₁.provided k hk
    · exact .inr (h₁.available ▸ hk)
  used k hk := h₂.used k (h₁.used k hk)
  distinct h := h₂.distinct (h₁.distinct h)

theorem grows_approve (s : SignState) (a : AccountName) (used : Bool) : s.Grows (s.approve a used) :=
  ⟨rfl, fun _ h => .inl h, fun _ h => h, id⟩

theorem signedBy_grows {k : PublicKey} {b : Bool} (hr : s.signedBy k = (b, s')) :
    s.Grows s' ∧ s'.approvedBy = s.approvedBy ∧ (b = true → k ∈ s'.usedSignatures) := by
  unfold signedBy at hr
  split at hr
  · rename_i hk
    cases hr
    refine ⟨⟨rfl, fun k' hk' => ?_, fun k' hk' => ?_, nodup_assign k true _⟩, rfl, fun _ => ?_⟩
    · simp only [hasKey_assign, Bool.or_eq_true, decide_eq_true_eq] at hk' hk
      rcases hk' with rfl | hk'
      · exact hk
      · exact .inl hk'
    · rw [mem_usedSignatures] at hk' ⊢
      exact mem_assign_of_used hk'
    · rw [mem_usedSignatures]
      exact mem_assign_self k true _
  · cases hr
    exact ⟨Grows.refl _, rfl, by simp⟩

theorem checkKeyAuths_grows (threshold : Nat) (l : List (PublicKey × Nat)) (total : Nat)
    {done : Bool} {total' : Nat}
    (hr : checkKeyAuths threshold l total s = ((done, total'), s')) :
    s.Grows s' ∧ s'.approvedBy = s.approvedBy ∧ (done = true → threshold ≤ total') ∧
      ∃ ks, ks.Sublist l ∧ (∀ k ∈ ks, k.1 ∈ s'.usedSignatures) ∧ total' ≤ total + weight ks := by
  induction l generalizing total s with
  | nil =>
    simp only [checkKeyAuths, Prod.mk.injEq] at hr
    obtain ⟨⟨rfl, rfl⟩, rfl⟩ := hr
    exact ⟨Grows.refl _, rfl, by simp, [], List.Sublist.refl _, by simp, by simp⟩
  | cons p rest ih =>
    obtain ⟨k, w⟩ := p
    simp only [checkKeyAuths] at hr
    -- the wrapped sum never exceeds the true one
    have hmod : (total + w) % 2 ^ 32 ≤ total + w := Nat.mod_le _ _
    rcases hs : s.signedBy k with ⟨b, s₁⟩
    obtain ⟨hgrows, happ, hused⟩ := signedBy_grows hs
    rw [hs] at hr
    cases b with
    | false =>
      obtain ⟨hg, ha, hd, ks, hks, hk, hle⟩ := ih total hr
      exact ⟨hgrows.trans hg, ha.trans happ, hd, ks, hks.cons _, hk, hle⟩
    | true =>
      simp only at hr
      split at hr
      · rename_i hth
        simp only [Prod.mk.injEq] at hr
        obtain ⟨⟨rfl, rfl⟩, rfl⟩ := hr
        exact ⟨hgrows, happ, fun _ => hth, [(k, w)], by simp, by simpa using hused rfl,
          by simpa using hmod⟩
      · obtain ⟨hg, ha, hd, ks, hks, hk, hle⟩ := ih _ hr
        refine ⟨hgrows.trans hg, ha.trans happ, hd, (k, w) :: ks, hks.cons_cons _, ?_, ?_⟩
        · intro x hx
          rcases List.mem_cons.1 hx with rfl | hx
          · exact hg.used k (hused rfl)
          · exact hk x hx
        · simp only [weight_cons]
          omega

/-- `holds` contains the accounts whose authority is met. -/
def Closed (get : AuthorityGetter) (signed : PublicKey → Prop) (holds : AccountName → Prop) :
    Prop :=
  ∀ a auth, get a = .ok auth → auth.rule.Met signed holds → holds a

/-- Between two states the keys grow, and the keys that are used in the end account for
the approvals and for a property of the signed keys and the accounts that hold. -/
def Backs (closed : (PublicKey → Prop) → (AccountName → Prop) → Prop) (s s' : SignState)
    (Q : (PublicKey → Prop) → (AccountName → Prop) → Prop) : Prop :=
  s.Grows s' ∧ ∀ signed holds, closed signed holds → (∀ k ∈ s'.usedSignatures, signed k) →
    (∀ a, hasKey a s.approvedBy = true → holds a) →
      (∀ a, hasKey a s'.approvedBy = true → holds a) ∧ Q signed holds

section

variable {closed : (PublicKey → Prop) → (AccountName → Prop) → Prop}
  {Q Q₁ Q₂ : (PublicKey → Prop) → (AccountName → Prop) → Prop}

theorem Backs.refl (s : SignState) : Backs closed s s fun _ _ => True :=
  ⟨Grows.refl s, fun _ _ _ _ happ => ⟨happ, trivial⟩⟩

theorem Backs.imp (h : Backs closed s s' Q₁)
    (hQ : ∀ signed holds, closed signed holds → Q₁ signed holds → Q signed holds) :
    Backs closed s s' Q := by
  refine ⟨h.1, fun signed holds hclosed hk happ => ?_⟩
  obtain ⟨happ', hq⟩ := h.2 signed holds hclosed hk happ
  exact ⟨happ', hQ signed holds hclosed hq⟩

theorem Backs.weaken {closed' : (PublicKey → Prop) → (AccountName → Prop) → Prop}
    (h : Backs closed s s' Q) (hclosed : ∀ signed holds, closed' signed holds → closed signed holds) :
    Backs closed' s s' Q :=
  ⟨h.1, fun signed holds hc => h.2 signed holds (hclosed signed holds hc)⟩

theorem Backs.trans {s₁ : SignState} (h₁ : Backs closed s s₁ Q₁) (h₂ : Backs closed s₁ s' Q₂) :
    Backs closed s s' fun signed holds => Q₁ signed holds ∧ Q₂ signed holds := by
  refine ⟨h₁.1.trans h₂.1, fun signed holds hclosed hk happ => ?_⟩
  obtain ⟨happ₁, hq₁⟩ := h₁.2 signed holds hclosed (fun k h => hk k (h₂.1.used k h)) happ
  obtain ⟨happ₂, hq₂⟩ := h₂.2 signed holds hclosed hk happ₁
  exact ⟨happ₂, hq₁, hq₂⟩

theorem Backs.approve (h : Backs closed s s' Q) {a : AccountName}
    (ha : ∀ signed holds, closed signed holds → Q signed holds → holds a) (used : Bool) :
    Backs closed s (s'.approve a used) Q := by
  refine ⟨h.1.trans (grows_approve s' a used), fun signed holds hclosed hk happ => ?_⟩
  obtain ⟨happ', hq⟩ := h.2 signed holds hclosed hk happ
  refine ⟨fun n hn => ?_, hq⟩
  simp only [SignState.approve, hasKey_assign, Bool.or_eq_true, decide_eq_true_eq] at hn
  rcases hn with rfl | hn
  · exact ha signed holds hclosed hq
  · exact happ' n hn

end

/-- A check of an authority is backed when the keys that it has used in the end account
for what it approves and accepts. -/
def BackedCheck (get : AuthorityGetter)
    (check : Authority → SignState → Result (Bool × SignState)) : Prop :=
  ∀ auth s b s', check auth s = .ok (b, s') →
    Backs (Closed get) s s' fun signed holds => b = true → auth.rule.Met signed holds

theorem checkAccountAuths_backed {get : AuthorityGetter}
    {check : Option (Authority → SignState → Result (Bool × SignState))}
    (hcheck : ∀ c, check = some c → BackedCheck get c) (threshold : Nat)
    (l : List (AccountName × Nat)) (total : Nat) {b : Bool}
    (hr : checkAccountAuths get check threshold l total s = .ok (b, s')) :
    Backs (Closed get) s s' fun _ holds => b = true →
      ∃ ns, ns.Sublist l ∧ (∀ n ∈ ns, holds n.1) ∧ threshold ≤ total + weight ns := by
  induction l generalizing total s with
  | nil =>
    simp only [checkAccountAuths, Except.ok.injEq, Prod.mk.injEq] at hr
    obtain ⟨rfl, rfl⟩ := hr
    refine ⟨Grows.refl _, fun signed holds _ _ happ => ⟨happ, fun hb => ?_⟩⟩
    exact ⟨[], List.Sublist.refl _, by simp, by simpa using hb⟩
  | cons p rest ih =>
    obtain ⟨a, w⟩ := p
    have hmod : (total + w) % 2 ^ 32 ≤ total + w := Nat.mod_le _ _
    -- skipping `a` and counting `a` are the two ways the loop goes on
    have hskip (s₁ : SignState)
        (hr₁ : checkAccountAuths get check threshold rest total s₁ = .ok (b, s')) :
        Backs (Closed get) s₁ s' fun _ holds => b = true → ∃ ns, ns.Sublist ((a, w) :: rest) ∧
          (∀ n ∈ ns, holds n.1) ∧ threshold ≤ total + weight ns := by
      refine (ih total hr₁).imp fun signed holds _ hns hb => ?_
      obtain ⟨ns, hsub, hn, hle⟩ := hns hb
      exact ⟨ns, hsub.cons _, hn, hle⟩
    have hcount (s₁ : SignState) (ha : hasKey a s₁.approvedBy = true)
        (hr₁ : (if threshold ≤ (total + w) % 2 ^ 32 then .ok (true, s₁)
          else checkAccountAuths get check threshold rest ((total + w) % 2 ^ 32) s₁) =
          .ok (b, s')) :
        Backs (Closed get) s₁ s' fun _ holds => b = true → ∃ ns, ns.Sublist ((a, w) :: rest) ∧
          (∀ n ∈ ns, holds n.1) ∧ threshold ≤ total + weight ns := by
      split at hr₁
      · rename_i hth
        cases hr₁
        refine ⟨Grows.refl _, fun signed holds _ _ happ => ⟨happ, fun _ => ?_⟩⟩
        refine ⟨[(a, w)], by simp, by simpa using happ a ha, ?_⟩
        simp only [weight_cons, weight_nil]
        omega
      · obtain ⟨hg, hback⟩ := ih _ hr₁
        refine ⟨hg, fun signed holds hclosed hk happ => ?_⟩
        obtain ⟨happ', hns⟩ := hback signed holds hclosed hk happ
        refine ⟨happ', fun hb => ?_⟩
        obtain ⟨ns, hsub, hn, hle⟩ := hns hb
        refine ⟨(a, w) :: ns, hsub.cons_cons _, ?_, ?_⟩
        · intro x hx
          rcases List.mem_cons.1 hx with rfl | hx
          · exact happ a ha
          · exact hn x hx
        · simp only [weight_cons]
          omega
    simp only [checkAccountAuths] at hr
    split at hr
    · rename_i ha
      exact hcount s ha hr
    · cases check with
      | none => exact hskip s hr
      | some c =>
        simp only [bind_eq_ok] at hr
        obtain ⟨auth, hauth, ⟨met, s₁⟩, hc, hr⟩ := hr
        have hback := hcheck c rfl auth s met s₁ hc
        simp only at hr
        cases met with
        | false => exact (hback.trans (hskip s₁ hr)).imp fun _ _ _ h => h.2
        | true =>
          have happrove := hback.approve (a := a) (fun signed holds hclosed hmet =>
            hclosed a auth hauth (hmet rfl)) true
          have hrest := hcount (s₁.approve a true) (by simp [SignState.approve]) hr
          exact (happrove.trans hrest).imp fun _ _ _ h => h.2

/-- One level, given that the check below (if there is one) is backed. -/
theorem checkLevel_backed {get : AuthorityGetter}
    {check : Option (Authority → SignState → Result (Bool × SignState))}
    (hcheck : ∀ c, check = some c → BackedCheck get c) :
    BackedCheck get (checkLevel get check) := by
  intro auth s b s' hr
  unfold checkLevel at hr
  rcases hk : checkKeyAuths auth.weightThreshold auth.keyAuths 0 s with ⟨⟨done, total⟩, s₁⟩
  obtain ⟨hg₁, happ₁, hdone, ks, hks, hsig, hle⟩ := checkKeyAuths_grows _ _ _ hk
  simp only [hk] at hr
  cases done with
  | true =>
    cases hr
    have hth := hdone rfl
    refine ⟨hg₁, fun signed holds _ hused happ => ⟨happ₁ ▸ happ, fun _ => ?_⟩⟩
    exact ⟨ks, [], hks, fun k hk => hused k.1 (hsig k hk), List.nil_sublist _, by simp,
      by simp [Authority.rule]; omega⟩
  | false =>
    obtain ⟨hg, hback⟩ := checkAccountAuths_backed hcheck _ _ _ hr
    refine ⟨hg₁.trans hg, fun signed holds hclosed hused happ => ?_⟩
    obtain ⟨happ', hns⟩ := hback signed holds hclosed hused (happ₁ ▸ happ)
    refine ⟨happ', fun hb => ?_⟩
    obtain ⟨ns, hsub, hn, hth⟩ := hns hb
    exact ⟨ks, ns, hks, fun k hk => hused k.1 (hg.used k.1 (hsig k hk)), hsub, hn,
      by simp only [Authority.rule]; omega⟩

theorem checkAuthority_backed (get : AuthorityGetter) (levels : Nat) :
    BackedCheck get (checkAuthority get levels) := by
  induction levels with
  | zero => exact checkLevel_backed fun c hc => absurd hc (by simp)
  | succ levels ih =>
    have hbelow : ∀ c, some (checkAuthority get levels) = some c → BackedCheck get c := by
      intro c hc
      cases hc
      exact ih
    exact checkLevel_backed hbelow

/-- A check of an authority is sound when it keeps the state justified and accepts only
authorities that are met. -/
def SoundCheck (signed : PublicKey → Prop) (holds : AccountName → Prop)
    (check : Authority → SignState → Result (Bool × SignState)) : Prop :=
  ∀ auth s b s', s.Justified signed holds → check auth s = .ok (b, s') →
    s'.Justified signed holds ∧ (b = true → auth.rule.Met signed holds)

/-- **Soundness of the check.**  Whatever the depth limit and the cycles of the
authorities, an accepted authority is met. -/
theorem checkAuthority_sound {getActive : AuthorityGetter}
    (hget : ∀ a auth, getActive a = .ok auth → auth.rule.Met signed holds → holds a)
    (levels : Nat) : SoundCheck signed holds (checkAuthority getActive levels) := by
  intro auth s b s' hs hr
  obtain ⟨hg, hback⟩ := checkAuthority_backed getActive levels auth s b s' hr
  have hprovided : ∀ k, hasKey k s'.providedSignatures = true → signed k := fun k hk => by
    rcases hg.provided k hk with hk | hk
    · exact hs.provided k hk
    · exact hs.available k hk
  obtain ⟨happ, hmet⟩ := hback signed holds hget
    (fun k hk => hprovided k (hasKey_of_used hk)) hs.approved
  exact ⟨⟨hprovided, hg.available ▸ hs.available, happ⟩, hmet⟩

end SignState

end VizCore.Protocol
