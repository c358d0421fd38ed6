import VizCore.Protocol.SignState

/-!
# `verify_authority`

The authorities that a list of operations requires are checked against the
signatures of a transaction and the approvals of a proposal.

* `verifyAuthority_derives_iff`: what is accepted has a derivation from the
  signatures and the approvals exactly when it does not rest on the name `temp`, with
  which every sign state starts.
-/

namespace VizCore.Protocol

open VizCore.Lib

/-! ## `verify_authority` -/

/-- The arguments of `verify_authority` besides the operations. -/
structure VerifyArgs where
  sigs : List PublicKey
  getActive : AuthorityGetter
  getMaster : AuthorityGetter
  getRegular : AuthorityGetter
  maxRecursionDepth : Nat := 2
  activeApprovals : List AccountName := []
  masterApprovals : List AccountName := []
  regularApprovals : List AccountName := []

namespace VerifyArgs

/-- Falls back to the authority of `get id` when the check before it failed. -/
def orElse (args : VerifyArgs) (nested get : AuthorityGetter) (id : AccountName)
    (r : Bool × SignState) : Result (Bool × SignState) :=
  if r.1 then .ok r
  else do
    let auth ← get id
    r.2.checkAuthority nested args.maxRecursionDepth auth

def checkRegular (args : VerifyArgs) (id : AccountName) (s : SignState) :
    Result (Bool × SignState) := do
  let r ← s.checkAccount args.getRegular args.maxRecursionDepth id
  let r ← args.orElse args.getRegular args.getActive id r
  args.orElse args.getRegular args.getMaster id r

def checkActive (args : VerifyArgs) (id : AccountName) (s : SignState) :
    Result (Bool × SignState) := do
  let r ← s.checkAccount args.getActive args.maxRecursionDepth id
  args.orElse args.getActive args.getMaster id r

def checkMaster (args : VerifyArgs) (id : AccountName) (s : SignState) :
    Result (Bool × SignState) :=
  if id ∈ args.masterApprovals then .ok (true, s.approve id true)
  else do
    let (met, s) ← args.orElse args.getActive args.getMaster id (false, s)
    return (met, if met then s.approve id true else s)

end VerifyArgs

/-- Runs a check over a list and collects what fails it. -/
def collectMissing {α : Type} (check : α → SignState → Result (Bool × SignState)) :
    List α → SignState → Result (List α × SignState)
  | [], s => .ok ([], s)
  | x :: rest, s => do
    let (met, s) ← check x s
    let (missing, s) ← collectMissing check rest s
    return (if met then missing else x :: missing, s)

def assertUnusedApprovals (s : SignState) : Result Unit := do
  require (s.unusedSignatures = []) (.txIrrelevantSig s.unusedSignatures)
  require (s.unusedApprovals = []) (.txIrrelevantApproval s.unusedApprovals)

/-- The sign state with some names marked approved and not yet used. -/
def SignState.withApprovals (s : SignState) (approvals : List AccountName) : SignState :=
  approvals.foldl (fun s id => s.approve id false) s

/-- The regular level of `verify_authority`: the sign state when no account is missing. -/
def checkRequiredRegular (args : VerifyArgs) (required : List AccountName) :
    Result SignState := do
  let s := (SignState.new args.sigs []).withApprovals args.regularApprovals
  let (missing, s) ← collectMissing args.checkRegular required s
  require (missing = []) (.txMissingRegularAuth missing s.usedSignatures)
  return s

/-- The other authorities, the active and the master level. -/
def checkRequiredActive (args : VerifyArgs) (required : RequiredAuthorities) :
    Result SignState := do
  let s := ((SignState.new args.sigs []).withApprovals args.activeApprovals).withApprovals
    args.masterApprovals
  let (missingAuths, s) ← collectMissing
    (fun auth s => s.checkAuthority args.getActive args.maxRecursionDepth auth) required.other s
  require (missingAuths = []) (.txMissingOtherAuth missingAuths)
  let (missing, s) ← collectMissing args.checkActive required.active s
  require (missing = []) (.txMissingActiveAuth missing s.usedSignatures)
  let (missing, s) ← collectMissing args.checkMaster required.master s
  require (missing = []) (.txMissingMasterAuth missing s.usedSignatures)
  return s

/-- `verify_authority` up to `assert_unused_approvals`, the last step of both levels. -/
def checkRequired (args : VerifyArgs) (ops : List Operation) : Result SignState := do
  let required := collectRequired ops
  if required.regular = [] then checkRequiredActive args required
  else
    fcAssert (required.active = []) "required_active.size() == 0"
    fcAssert (required.master = []) "required_master.size() == 0"
    fcAssert (required.other = []) "other.size() == 0"
    checkRequiredRegular args required.regular

def verifyAuthority (args : VerifyArgs) (ops : List Operation) : Result Unit := do
  let s ← checkRequired args ops
  assertUnusedApprovals s

/-! ## What `verify_authority` accepts -/

namespace VerifyArgs

/-- The authorities that can speak for an account in a transaction of the regular level. -/
def regularRules (args : VerifyArgs) (a : AccountName) (r : Rule PublicKey AccountName) : Prop :=
  ∃ auth : Authority, r = auth.rule ∧ (args.getRegular a = .ok auth ∨
    args.getActive a = .ok auth ∨ args.getMaster a = .ok auth)

/-- The authorities that can speak for an account at the active and the master level. -/
def activeRules (args : VerifyArgs) (a : AccountName) (r : Rule PublicKey AccountName) : Prop :=
  ∃ auth : Authority, r = auth.rule ∧ (args.getActive a = .ok auth ∨ args.getMaster a = .ok auth)

/-- A derivation from the given signature keys and regular approvals. -/
def RegularDerived (args : VerifyArgs) : AccountName → Prop :=
  Derived args.regularRules (· ∈ args.sigs) (· ∈ args.regularApprovals)

/-- A derivation from the given signature keys, active and master approvals. -/
def ActiveDerived (args : VerifyArgs) : AccountName → Prop :=
  Derived args.activeRules (· ∈ args.sigs)
    (fun a => a ∈ args.activeApprovals ∨ a ∈ args.masterApprovals)

/-- The account's master authority is met, or its master approval is given. -/
def MasterDerived (args : VerifyArgs) (a : AccountName) : Prop :=
  a ∈ args.masterApprovals ∨ ∃ auth : Authority, args.getMaster a = .ok auth ∧
    auth.rule.Met (· ∈ args.sigs) args.ActiveDerived

/-- Every account that the operations require has its derivation. -/
def DerivesRequired (args : VerifyArgs) (ops : List Operation) : Prop :=
  (∀ a ∈ (collectRequired ops).regular, args.RegularDerived a) ∧
    (∀ a ∈ (collectRequired ops).active, args.ActiveDerived a) ∧
    ∀ a ∈ (collectRequired ops).master, args.MasterDerived a

end VerifyArgs

open SignState

section

variable {args : VerifyArgs} {holds : AccountName → Prop} {s s' : SignState}

theorem hasKey_foldl_assign (sigs : List PublicKey) (m : List (PublicKey × Bool))
    (k : PublicKey) (h : hasKey k (sigs.foldl (fun m k => assign k false m) m) = true) :
    k ∈ sigs ∨ hasKey k m = true := by
  induction sigs generalizing m with
  | nil => exact .inr h
  | cons x sigs ih =>
    rcases ih (assign x false m) h with hk | hk
    · exact .inl (List.mem_cons_of_mem x hk)
    · simp only [hasKey_assign, Bool.or_eq_true, decide_eq_true_eq] at hk
      rcases hk with rfl | hk
      · exact .inl List.mem_cons_self
      · exact .inr hk

/-- A fresh sign state is justified as soon as the name it starts with holds. -/
theorem new_justified (sigs : List PublicKey) (htemp : holds "temp") :
    (SignState.new sigs []).Justified (· ∈ sigs) holds where
  provided k hk := by
    rcases hasKey_foldl_assign sigs [] k hk with h | h
    · exact h
    · simp [hasKey] at h
  available := by simp [SignState.new]
  approved a ha := by
    have : a = "temp" := by simpa [SignState.new, hasKey, assign, eq_comm] using ha
    exact this ▸ htemp

theorem withApprovals_justified {signed : PublicKey → Prop} (h : s.Justified signed holds)
    (approvals : List AccountName) (ha : ∀ a ∈ approvals, holds a) :
    (s.withApprovals approvals).Justified signed holds := by
  induction approvals generalizing s with
  | nil => exact h
  | cons a approvals ih =>
    exact ih (h.approve (ha a (by simp)) false) fun b hb => ha b (by simp [hb])

theorem collectMissing_sound {α : Type} {Inv : SignState → Prop} {P : α → Prop}
    {check : α → SignState → Result (Bool × SignState)}
    (hcheck : ∀ x s b s', Inv s → check x s = .ok (b, s') → Inv s' ∧ (b = true → P x))
    (l : List α) (hs : Inv s) {missing : List α}
    (hr : collectMissing check l s = .ok (missing, s')) :
    Inv s' ∧ (missing = [] → ∀ x ∈ l, P x) := by
  induction l generalizing s missing with
  | nil =>
    simp only [collectMissing, Except.ok.injEq, Prod.mk.injEq] at hr
    exact ⟨hr.2 ▸ hs, by simp⟩
  | cons x rest ih =>
    simp only [collectMissing, bind_eq_ok, pure_eq_ok, Prod.mk.injEq] at hr
    obtain ⟨⟨met, s₁⟩, hx, ⟨tail, s₂⟩, hrest, hmissing, rfl⟩ := hr
    obtain ⟨hs₁, hP⟩ := hcheck x s met s₁ hs hx
    obtain ⟨hs₂, htail⟩ := ih hs₁ hrest
    refine ⟨hs₂, fun hnil => ?_⟩
    subst hmissing
    cases met with
    | false => simp at hnil
    | true =>
      intro y hy
      rcases List.mem_cons.1 hy with rfl | hy
      · exact hP rfl
      · exact htail hnil y hy

theorem checkAccount_sound {get : AuthorityGetter} {signed : PublicKey → Prop}
    (hget : ∀ a auth, get a = .ok auth → auth.rule.Met signed holds → holds a) (levels : Nat)
    (id : AccountName) (h : s.Justified signed holds) {b : Bool}
    (hr : s.checkAccount get levels id = .ok (b, s')) :
    s'.Justified signed holds ∧ (b = true → holds id) := by
  unfold checkAccount at hr
  split at hr
  · rename_i hk
    cases hr
    exact ⟨h.approve (h.approved id hk) true, fun _ => h.approved id hk⟩
  · rw [bind_eq_ok] at hr
    obtain ⟨auth, hauth, hr⟩ := hr
    obtain ⟨hj, hmet⟩ := checkAuthority_sound hget levels auth s b s' h hr
    exact ⟨hj, fun hb => hget id auth hauth (hmet hb)⟩

theorem orElse_sound {nested get : AuthorityGetter} {signed : PublicKey → Prop} {P : Prop}
    (hnested : ∀ a auth, nested a = .ok auth → auth.rule.Met signed holds → holds a)
    (id : AccountName) (hP : ∀ auth, get id = .ok auth → auth.rule.Met signed holds → P)
    {r r' : Bool × SignState} (h : r.2.Justified signed holds) (hb : r.1 = true → P)
    (hr : args.orElse nested get id r = .ok r') :
    r'.2.Justified signed holds ∧ (r'.1 = true → P) := by
  unfold VerifyArgs.orElse at hr
  split at hr
  · cases hr
    exact ⟨h, hb⟩
  · rw [bind_eq_ok] at hr
    obtain ⟨auth, hauth, hr⟩ := hr
    obtain ⟨hj, hmet⟩ := checkAuthority_sound hnested _ auth r.2 r'.1 r'.2 h hr
    exact ⟨hj, fun hb => hP auth hauth (hmet hb)⟩

theorem checkRequiredRegular_sound (args : VerifyArgs) (holds : AccountName → Prop)
    (required : List AccountName)
    (hrules : ∀ a r, args.regularRules a r → r.Met (· ∈ args.sigs) holds → holds a)
    (htemp : holds "temp") (happ : ∀ a ∈ args.regularApprovals, holds a)
    (hr : checkRequiredRegular args required = .ok s) : ∀ a ∈ required, holds a := by
  simp only [checkRequiredRegular, bind_eq_ok, require_eq_ok] at hr
  obtain ⟨⟨missing, s'⟩, hcollect, _, hnil, -⟩ := hr
  have hinit := withApprovals_justified (new_justified args.sigs htemp) args.regularApprovals happ
  have hregular : ∀ a auth, args.getRegular a = .ok auth →
      auth.rule.Met (· ∈ args.sigs) holds → holds a :=
    fun a auth h => hrules a auth.rule ⟨auth, rfl, .inl h⟩
  refine (collectMissing_sound ?_ required hinit hcollect).2 hnil
  intro id s b s' hs hcheck
  simp only [VerifyArgs.checkRegular, bind_eq_ok] at hcheck
  obtain ⟨r₁, h₁, r₂, h₂, h₃⟩ := hcheck
  obtain ⟨hj₁, hb₁⟩ := checkAccount_sound hregular _ id hs h₁
  obtain ⟨hj₂, hb₂⟩ := orElse_sound hregular id
    (fun auth h => hrules id auth.rule ⟨auth, rfl, .inr (.inl h)⟩) hj₁ hb₁ h₂
  exact orElse_sound hregular id
    (fun auth h => hrules id auth.rule ⟨auth, rfl, .inr (.inr h)⟩) hj₂ hb₂ h₃

theorem checkRequiredActive_sound (args : VerifyArgs) (holds : AccountName → Prop)
    (required : RequiredAuthorities)
    (hrules : ∀ a r, args.activeRules a r → r.Met (· ∈ args.sigs) holds → holds a)
    (htemp : holds "temp")
    (happ : ∀ a, a ∈ args.activeApprovals ∨ a ∈ args.masterApprovals → holds a)
    (hr : checkRequiredActive args required = .ok s) :
    (∀ a ∈ required.active, holds a) ∧ ∀ a ∈ required.master, a ∈ args.masterApprovals ∨
      ∃ auth : Authority, args.getMaster a = .ok auth ∧ auth.rule.Met (· ∈ args.sigs) holds := by
  simp only [checkRequiredActive, bind_eq_ok, require_eq_ok] at hr
  obtain ⟨⟨_, s₁⟩, hother, _, -, ⟨_, s₂⟩, hactive, _, hnil₂, ⟨_, s₃⟩, hmaster, _, hnil₃, -⟩ := hr
  have hinit := withApprovals_justified
    (withApprovals_justified (new_justified args.sigs htemp) args.activeApprovals
      fun a h => happ a (.inl h)) args.masterApprovals fun a h => happ a (.inr h)
  have hget : ∀ a auth, args.getActive a = .ok auth →
      auth.rule.Met (· ∈ args.sigs) holds → holds a :=
    fun a auth h => hrules a auth.rule ⟨auth, rfl, .inl h⟩
  have hs₁ := (collectMissing_sound (P := fun auth => auth.rule.Met (· ∈ args.sigs) holds)
    (fun auth s b s' => checkAuthority_sound hget _ auth s b s') _ hinit hother).1
  have hpass := collectMissing_sound (P := holds) (fun id s b s' hs hcheck => by
    simp only [VerifyArgs.checkActive, bind_eq_ok] at hcheck
    obtain ⟨r₁, h₁, h₂⟩ := hcheck
    obtain ⟨hj₁, hb₁⟩ := checkAccount_sound hget _ id hs h₁
    exact orElse_sound hget id
      (fun auth h => hrules id auth.rule ⟨auth, rfl, .inr h⟩) hj₁ hb₁ h₂) _ hs₁ hactive
  refine ⟨hpass.2 hnil₂, (collectMissing_sound ?_ _ hpass.1 hmaster).2 hnil₃⟩
  intro id s b s' hs hcheck
  unfold VerifyArgs.checkMaster at hcheck
  split at hcheck
  · rename_i hid
    cases hcheck
    exact ⟨hs.approve (happ id (.inr hid)) true, fun _ => .inl hid⟩
  · simp only [bind_eq_ok, pure_eq_ok, Prod.mk.injEq] at hcheck
    obtain ⟨⟨met, s₁⟩, hmet, rfl, rfl⟩ := hcheck
    obtain ⟨hj, hauth⟩ := orElse_sound (P := ∃ auth : Authority, args.getMaster id = .ok auth ∧
      auth.rule.Met (· ∈ args.sigs) holds) hget id (fun auth h hm => ⟨auth, h, hm⟩) hs
      (by simp) hmet
    refine ⟨?_, fun hb => .inr (hauth hb)⟩
    cases met with
    | false => exact hj
    | true =>
      -- a met master authority also makes the account hold, so it may be marked approved
      obtain ⟨auth, hget, hm⟩ := hauth rfl
      exact hj.approve (hrules id auth.rule ⟨auth, rfl, .inr hget⟩ hm) true

end

/-! ## Derivations behind an accepted transaction -/

namespace VerifyArgs

variable (args : VerifyArgs)

/-- The same arguments with `temp` passed in as an approval. -/
def withTemp : VerifyArgs :=
  { args with
    activeApprovals := "temp" :: args.activeApprovals
    regularApprovals := "temp" :: args.regularApprovals }

/-- Some required account has a derivation when `temp` counts as approved and has none
without it. -/
def RestsOnTemp (ops : List Operation) : Prop :=
  (∃ a ∈ (collectRequired ops).regular, args.withTemp.RegularDerived a ∧ ¬ args.RegularDerived a) ∨
    (∃ a ∈ (collectRequired ops).active, args.withTemp.ActiveDerived a ∧ ¬ args.ActiveDerived a) ∨
    ∃ a ∈ (collectRequired ops).master, args.withTemp.MasterDerived a ∧ ¬ args.MasterDerived a

/-- Where `temp` has a derivation of its own, nothing rests on it. -/
theorem not_restsOnTemp (hregular : args.RegularDerived "temp") (hactive : args.ActiveDerived "temp")
    (ops : List Operation) : ¬ args.RestsOnTemp ops := by
  have hcutRegular : ∀ a, args.withTemp.RegularDerived a → args.RegularDerived a := fun a =>
    Derived.cut fun b hb => (List.mem_cons.1 hb).elim (fun h => h ▸ hregular) .grant
  have hcutActive : ∀ a, args.withTemp.ActiveDerived a → args.ActiveDerived a := fun a =>
    Derived.cut fun b hb => by
      rcases hb with hb | hb
      · exact (List.mem_cons.1 hb).elim (fun h => h ▸ hactive) fun h => .grant (.inl h)
      · exact .grant (.inr hb)
  rintro (⟨a, -, h, hnot⟩ | ⟨a, -, h, hnot⟩ | ⟨a, -, h, hnot⟩)
  · exact hnot (hcutRegular a h)
  · exact hnot (hcutActive a h)
  · rcases h with h | ⟨auth, hauth, hmet⟩
    · exact hnot (.inl h)
    · exact hnot (.inr ⟨auth, hauth, hmet.mono hcutActive⟩)

end VerifyArgs

/-- What passes the checks of `verify_authority` has derivations that start from the
signatures, the approvals and `temp`. -/
theorem derives_of_checkRequired {args : VerifyArgs} {ops : List Operation} {s : SignState}
    (hr : checkRequired args ops = .ok s) : args.withTemp.DerivesRequired ops := by
  unfold checkRequired at hr
  by_cases hreq : (collectRequired ops).regular = []
  · simp only [hreq, ↓reduceIte] at hr
    obtain ⟨ha, hm⟩ := checkRequiredActive_sound args args.withTemp.ActiveDerived _
      (fun a r => Derived.of_met) (.grant (.inl List.mem_cons_self))
      (fun a ha => .grant (ha.imp_left (List.mem_cons_of_mem "temp"))) hr
    exact ⟨by simp [hreq], ha, hm⟩
  · simp only [hreq, ↓reduceIte, fcAssert_bind_eq_ok] at hr
    obtain ⟨hactiveNil, hmasterNil, -, hr⟩ := hr
    have hall := checkRequiredRegular_sound args args.withTemp.RegularDerived _
      (fun a r => Derived.of_met) (.grant List.mem_cons_self)
      (fun a ha => .grant (List.mem_cons_of_mem "temp" ha)) hr
    exact ⟨hall, by simp [hactiveNil], by simp [hmasterNil]⟩

/-- **Authority check.**  An accepted list of operations has derivations from the
signatures and the approvals alone exactly when no required account rests on the name
`temp`, which every sign state starts with. -/
theorem verifyAuthority_derives_iff (args : VerifyArgs) (ops : List Operation)
    (hr : verifyAuthority args ops = .ok ()) :
    args.DerivesRequired ops ↔ ¬ args.RestsOnTemp ops := by
  rw [verifyAuthority, bind_eq_ok] at hr
  obtain ⟨s, hs, -⟩ := hr
  obtain ⟨hregular, hactive, hmaster⟩ := derives_of_checkRequired hs
  constructor
  · rintro ⟨h₁, h₂, h₃⟩ (⟨a, ha, -, hnot⟩ | ⟨a, ha, -, hnot⟩ | ⟨a, ha, -, hnot⟩)
    · exact hnot (h₁ a ha)
    · exact hnot (h₂ a ha)
    · exact hnot (h₃ a ha)
  · intro hrest
    refine ⟨fun a ha => ?_, fun a ha => ?_, fun a ha => ?_⟩
    · by_contra hnot
      exact hrest (.inl ⟨a, ha, hregular a ha, hnot⟩)
    · by_contra hnot
      exact hrest (.inr (.inl ⟨a, ha, hactive a ha, hnot⟩))
    · by_contra hnot
      exact hrest (.inr (.inr ⟨a, ha, hmaster a ha, hnot⟩))

/-- `alice` needs the key 7 and `bob`, everybody else the key 8. -/
def sharedAuthority : AccountName → Authority
  | "alice" => { weightThreshold := 2, keyAuths := [(7, 1)], accountAuths := [("bob", 1)] }
  | _ => { weightThreshold := 1, keyAuths := [(8, 1)] }

/-- Both keys have signed. -/
def sharedArgs : VerifyArgs :=
  { sigs := [7, 8], getActive := fun a => .ok (sharedAuthority a)
    getMaster := fun a => .ok (sharedAuthority a), getRegular := fun a => .ok (sharedAuthority a) }

/-- A custom operation that asks for the given authorities. -/
def askFor (active regular : List AccountName) : Operation :=
  .custom { requiredActiveAuths := active, requiredRegularAuths := regular, id := "", json := "" }

theorem verifyAuthority_derives_shared :
    sharedArgs.DerivesRequired [askFor ["alice", "carol"] []] := by
  have htemp (rules : AccountName → Rule PublicKey AccountName → Prop) (granted : AccountName → Prop)
      (hrule : rules "temp" (sharedAuthority "temp").rule) :
      Derived rules (· ∈ sharedArgs.sigs) granted "temp" :=
    .rule _ [(8, 1)] [] hrule (List.Sublist.refl _) (by simp [sharedArgs]) (List.Sublist.refl _)
      (by simp) (by decide)
  refine (verifyAuthority_derives_iff sharedArgs _ (by decide +kernel)).2
    (sharedArgs.not_restsOnTemp (htemp _ _ ?_) (htemp _ _ ?_) _)
  · exact ⟨_, rfl, .inl rfl⟩
  · exact ⟨_, rfl, .inl rfl⟩

/-- Nobody has signed and every account needs one key, yet an operation of the account
`temp` is accepted. -/
theorem verifyAuthority_accepts_temp :
    ¬ ∀ (args : VerifyArgs) (ops : List Operation), verifyAuthority args ops = .ok () →
      args.DerivesRequired ops := by
  intro h
  let oneKey : Authority := { weightThreshold := 1, keyAuths := [(7, 1)] }
  let args : VerifyArgs :=
    { sigs := [], getActive := fun _ => .ok oneKey, getMaster := fun _ => .ok oneKey
      getRegular := fun _ => .ok oneKey }
  have hderived : args.ActiveDerived "temp" := (h args [askFor ["temp"] []] rfl).2.1 "temp" (by decide)
  obtain ⟨r, ⟨auth, rfl, hauth⟩, ks, ns, hks, hk, hns, -, hle⟩ :=
    hderived.met_of_not_granted (by simp [args])
  obtain rfl : oneKey = auth := by simpa [args] using hauth
  -- no key is signed and the authority names no account, so nothing reaches the threshold
  have hks' : ks = [] := List.eq_nil_iff_forall_not_mem.2 fun k hmem => by simpa [args] using hk k hmem
  have hns' : ns = [] := List.eq_nil_of_sublist_nil hns
  simp [hks', hns', Authority.rule, oneKey] at hle

end VizCore.Protocol
