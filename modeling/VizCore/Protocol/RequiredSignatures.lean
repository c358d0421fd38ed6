import VizCore.Protocol.Verdicts

/-!
# Selection of signatures

`get_required_signatures` follows the authorities of a transaction with the keys that a
signer has, and `minimize_required_signatures` drops the keys without which
`verify_authority` still accepts.

* `minimizeLoop_minimal`: what the loop returns is accepted, and no key of it can be left
  out, when a larger set of keys never misses more authorities;
* `selection_sound`: the keys that are returned are accepted and minimal where every account
  is met at its own level and within the depth limit.
-/

namespace VizCore.Protocol

open VizCore.Lib SignState

/-! ## The selection -/

/-- `insert` on a set of keys. -/
def insertKey (key : PublicKey) : List PublicKey → List PublicKey
  | [] => [key]
  | k :: rest =>
    if key = k then k :: rest
    else if key < k then key :: k :: rest
    else k :: insertKey key rest

@[simp] theorem mem_insertKey (a key : PublicKey) (l : List PublicKey) :
    a ∈ insertKey key l ↔ a = key ∨ a ∈ l := by
  induction l with
  | nil => simp [insertKey]
  | cons k rest ih =>
    unfold insertKey
    by_cases h : key = k
    · simp [h]
    · by_cases hlt : key < k
      · simp [h, hlt]
      · simp [h, hlt, ih]
        tauto

/-- `erase` on a set of keys. -/
def eraseKey (key : PublicKey) (l : List PublicKey) : List PublicKey := l.filter (· ≠ key)

@[simp] theorem mem_eraseKey (a key : PublicKey) (l : List PublicKey) :
    a ∈ eraseKey key l ↔ a ∈ l ∧ a ≠ key := by
  simp [eraseKey]

def keySet (l : List PublicKey) : List PublicKey := l.foldl (fun s k => insertKey k s) []

@[simp] theorem mem_keySet (a : PublicKey) (l : List PublicKey) : a ∈ keySet l ↔ a ∈ l := by
  have hfold : ∀ s, a ∈ l.foldl (fun s k => insertKey k s) s ↔ a ∈ l ∨ a ∈ s := by
    induction l with
    | nil => simp
    | cons k l ih =>
      intro s
      simp only [List.foldl_cons, ih, mem_insertKey, List.mem_cons]
      tauto
  simpa [keySet] using hfold []

/-- The keys left after `remove_unused_signatures` that are available. -/
def SignState.selected (s : SignState) (available : List PublicKey) : List PublicKey :=
  s.usedSignatures.filter (· ∈ available)

/-- The getters and the limit of `args` with other keys and without approvals. -/
def VerifyArgs.signedWith (args : VerifyArgs) (keys : List PublicKey) : VerifyArgs :=
  { sigs := keys, getActive := args.getActive, getMaster := args.getMaster
    getRegular := args.getRegular, maxRecursionDepth := args.maxRecursionDepth }

/-- `get_required_signatures`, where `signatureKeys` is what `get_signature_keys` returns.
The verdicts of the checks are not looked at. -/
def getRequiredSignatures (args : VerifyArgs) (ops : List Operation)
    (signatureKeys : Result (List PublicKey)) (available : List PublicKey) :
    Result (List PublicKey) := do
  let required := collectRequired ops
  let sigs ← signatureKeys
  if required.regular = [] then
    let (_, s) ← collectMissing
      (fun auth s => s.checkAuthority args.getActive args.maxRecursionDepth auth) required.other
      (SignState.new sigs available)
    let (_, s) ← collectMissing
      (fun a s => s.checkAccount args.getActive args.maxRecursionDepth a) required.active s
    let (_, sMaster) ← collectMissing
      (fun a s => s.checkAccount args.getMaster args.maxRecursionDepth a) required.master
      (SignState.new sigs available)
    return keySet (s.selected available ++ sMaster.selected available)
  else
    fcAssert (required.master = []) "!required_master.size()"
    fcAssert (required.active = []) "!required_active.size()"
    let (_, s) ← collectMissing
      (fun a s => s.checkAccount args.getRegular args.maxRecursionDepth a) required.regular
      (SignState.new sigs available)
    return keySet (s.selected available)

/-- The loop of `minimize_required_signatures` over the keys still to be tried.  It catches
the exceptions for a missing authority only. -/
def minimizeLoop (verify : List PublicKey → Result Unit) :
    List PublicKey → List PublicKey → Result (List PublicKey)
  | [], result => .ok result
  | k :: rest, result =>
    match verify (eraseKey k result) with
    | .ok () => minimizeLoop verify rest (eraseKey k result)
    | .error e =>
      if e.missingAuthority then minimizeLoop verify rest (insertKey k (eraseKey k result))
      else .error e

def minimizeRequiredSignatures (args : VerifyArgs) (ops : List Operation)
    (signatureKeys : Result (List PublicKey)) (available : List PublicKey) :
    Result (List PublicKey) := do
  let s ← getRequiredSignatures args ops signatureKeys available
  minimizeLoop (fun keys => verifyAuthority (args.signedWith keys) ops) s s

theorem minimizeRequiredSignatures_of_selected {args : VerifyArgs} {ops : List Operation}
    {signatureKeys : Result (List PublicKey)} {available selected : List PublicKey}
    (h : getRequiredSignatures args ops signatureKeys available = .ok selected) :
    minimizeRequiredSignatures args ops signatureKeys available =
      minimizeLoop (fun keys => verifyAuthority (args.signedWith keys) ops) selected selected := by
  simp only [minimizeRequiredSignatures, h, bind, Except.bind]

/-! ## The loop -/

section

variable {verify : List PublicKey → Result Unit} {answers : List PublicKey → Prop}
  {available : List PublicKey}

/-- On subsets of the available keys the check misses an authority exactly when the keys do
not answer, and else it accepts or finds unused signatures; more keys answer whatever fewer
answer; keys of which none can be left out are all used. -/
structure Steady (verify : List PublicKey → Result Unit) (answers : List PublicKey → Prop)
    (available : List PublicKey) : Prop where
  passes : ∀ keys ⊆ available, answers keys →
    verify keys = .ok () ∨ ∃ unused, verify keys = .error (.txIrrelevantSig unused)
  misses : ∀ keys ⊆ available, ¬ answers keys →
    ∃ e, verify keys = .error e ∧ e.missingAuthority = true
  mono : ∀ keys keys', keys ⊆ keys' → keys' ⊆ available → answers keys → answers keys'
  needed : ∀ keys ⊆ available, answers keys → (∀ k ∈ keys, ¬ answers (eraseKey k keys)) →
    verify keys = .ok ()

theorem eraseKey_subset (k : PublicKey) (l : List PublicKey) : eraseKey k l ⊆ l :=
  fun x hx => ((mem_eraseKey x k l).1 hx).1

theorem eraseKey_mono {l l' : List PublicKey} (h : l ⊆ l') (k : PublicKey) :
    eraseKey k l ⊆ eraseKey k l' := by
  intro x hx
  obtain ⟨hx, hne⟩ := (mem_eraseKey x k l).1 hx
  exact (mem_eraseKey x k l').2 ⟨h hx, hne⟩

theorem subset_eraseKey {k : PublicKey} {l : List PublicKey} (hk : k ∉ l) : l ⊆ eraseKey k l :=
  fun x hx => (mem_eraseKey x k l).2 ⟨hx, fun hxk => hk (hxk ▸ hx)⟩

/-- A key that is put back. -/
theorem mem_insertKey_eraseKey {k : PublicKey} {l : List PublicKey} (hk : k ∈ l) (x : PublicKey) :
    x ∈ insertKey k (eraseKey k l) ↔ x ∈ l := by
  rw [mem_insertKey, mem_eraseKey]
  by_cases hxk : x = k
  · simp [hxk, hk]
  · simp [hxk]

/-- **The loop.**  From keys that answer the loop ends in an accepted subset of which every
key is needed, unless the check of some keys on the way finds unused signatures. -/
theorem minimizeLoop_minimal (h : Steady verify answers available)
    (tried todo result : List PublicKey) (hsub : result ⊆ available) (hans : answers result)
    (htodo : ∀ k ∈ result, k ∈ tried ∨ k ∈ todo)
    (htried : ∀ k ∈ result, k ∈ tried → ¬ answers (eraseKey k result)) :
    (∃ unused, minimizeLoop verify todo result = .error (.txIrrelevantSig unused)) ∨
      ∃ keys, minimizeLoop verify todo result = .ok keys ∧ keys ⊆ available ∧
        verify keys = .ok () ∧ ∀ k ∈ keys, verify (eraseKey k keys) ≠ .ok () := by
  induction todo generalizing tried result with
  | nil =>
    have hneeded : ∀ k ∈ result, ¬ answers (eraseKey k result) := fun k hk =>
      htried k hk (by simpa using htodo k hk)
    refine .inr ⟨result, rfl, hsub, h.needed result hsub hans hneeded, fun k hk hok => ?_⟩
    obtain ⟨e, he, -⟩ := h.misses _ (List.Subset.trans (eraseKey_subset k result) hsub) (hneeded k hk)
    rw [hok] at he
    cases he
  | cons k rest ih =>
    have herase := eraseKey_subset k result
    by_cases hanswers : answers (eraseKey k result)
    · rcases h.passes _ (List.Subset.trans herase hsub) hanswers with hv | ⟨unused, hv⟩
      · simp only [minimizeLoop, hv]
        refine ih (k :: tried) _ (List.Subset.trans herase hsub) hanswers (fun x hx => ?_)
          fun x hx hx' hsmall => ?_
        · rcases htodo x (herase hx) with hx' | hx'
          · exact .inl (List.mem_cons_of_mem k hx')
          · exact .inr ((List.mem_cons.1 hx').resolve_left ((mem_eraseKey x k result).1 hx).2)
        · obtain ⟨hmem, hne⟩ := (mem_eraseKey x k result).1 hx
          refine htried x hmem ((List.mem_cons.1 hx').resolve_left hne) ?_
          exact h.mono _ _ (eraseKey_mono herase x)
            (List.Subset.trans (eraseKey_subset x result) hsub) hsmall
      · -- nothing catches this exception
        refine .inl ⟨unused, ?_⟩
        simp only [minimizeLoop, hv]
        rfl
    · obtain ⟨e, hv, he⟩ := h.misses _ (List.Subset.trans herase hsub) hanswers
      -- a key that is needed is put back: the same set as before
      have hkept : k ∈ result := by
        by_contra hk
        exact hanswers (h.mono _ _ (subset_eraseKey hk) (List.Subset.trans herase hsub) hans)
      have hiff := mem_insertKey_eraseKey hkept
      have hsub' : insertKey k (eraseKey k result) ⊆ available := fun x hx => hsub ((hiff x).1 hx)
      simp only [minimizeLoop, hv, he, ↓reduceIte]
      refine ih (k :: tried) _ hsub' (h.mono _ _ (fun x hx => (hiff x).2 hx) hsub' hans)
        (fun x hx => ?_) fun x hx hx' hsmall => ?_
      · rcases htodo x ((hiff x).1 hx) with hx' | hx'
        · exact .inl (List.mem_cons_of_mem k hx')
        · rcases List.mem_cons.1 hx' with rfl | hx'
          · exact .inl List.mem_cons_self
          · exact .inr hx'
      · have hsmall' : answers (eraseKey x result) := by
          exact h.mono _ _ (eraseKey_mono (fun y hy => (hiff y).1 hy) x)
            (List.Subset.trans (eraseKey_subset x result) hsub) hsmall
        rcases List.mem_cons.1 hx' with rfl | hxt
        · exact hanswers hsmall'
        · exact htried x ((hiff x).1 hx) hxt hsmall'

end

/-! ## What the required accounts need -/

theorem signedWith_unapproved (args : VerifyArgs) (keys : List PublicKey) :
    (args.signedWith keys).Unapproved := ⟨rfl, rfl, rfl⟩

theorem signedWith_complete {args : VerifyArgs} {known : AccountName → Prop}
    (h : args.Complete known) (keys : List PublicKey) : (args.signedWith keys).Complete known :=
  ⟨h.active, h.master, h.regular⟩

namespace VerifyArgs

/-- The nested accounts that count in a transaction of the regular level. -/
def RegularNested (args : VerifyArgs) : AccountName → Prop :=
  Derived args.getRegular.rules (· ∈ args.sigs) (· = "temp")

/-- The same with derivations within the depth limit. -/
def RegularNestedIn (args : VerifyArgs) : AccountName → Prop :=
  DerivedIn args.getRegular.rules (· ∈ args.sigs) (· = "temp") args.maxRecursionDepth

/-- One of the three authorities of an account is met by the signature keys and by nested
accounts that count. -/
def SpeaksRegular (args : VerifyArgs) (counts : AccountName → Prop) (a : AccountName) : Prop :=
  a = "temp" ∨ ∃ auth : Authority, (args.getRegular a = .ok auth ∨ args.getActive a = .ok auth ∨
    args.getMaster a = .ok auth) ∧ auth.rule.Met (· ∈ args.sigs) counts

/-- The signature keys meet what is required, given the nested accounts that count at the
regular and at the active level. -/
structure Answers (args : VerifyArgs) (regularCounts counts : AccountName → Prop)
    (required : RequiredAuthorities) : Prop where
  regular : ∀ a ∈ required.regular, args.SpeaksRegular regularCounts a
  other : ∀ auth ∈ required.other, auth.rule.Met (· ∈ args.sigs) counts
  active : ∀ a ∈ required.active, args.Speaks counts a
  master : ∀ a ∈ required.master, ∃ auth : Authority, args.getMaster a = .ok auth ∧
    auth.rule.Met (· ∈ args.sigs) counts

/-- The signature keys meet what is required, however deep the accounts are nested. -/
def Answered (args : VerifyArgs) (required : RequiredAuthorities) : Prop :=
  args.Answers args.RegularNested args.Nested required

/-- The signature keys meet what is required within the depth limit. -/
def AnsweredIn (args : VerifyArgs) (required : RequiredAuthorities) : Prop :=
  args.Answers args.RegularNestedIn args.NestedIn required

/-- Every required account is met within the depth limit by its authority of the level that
is required. -/
structure OwnLevel (args : VerifyArgs) (required : RequiredAuthorities) : Prop where
  regular : ∀ a ∈ required.regular, a = "temp" ∨ ∃ auth : Authority,
    args.getRegular a = .ok auth ∧ auth.rule.Met (· ∈ args.sigs) args.RegularNestedIn
  active : ∀ a ∈ required.active, a = "temp" ∨ ∃ auth : Authority,
    args.getActive a = .ok auth ∧ auth.rule.Met (· ∈ args.sigs) args.NestedIn

end VerifyArgs

/-- Regular authorities are not required together with others. -/
def RequiredAuthorities.Unmixed (required : RequiredAuthorities) : Prop :=
  required.regular = [] ∨ required.active = [] ∧ required.master = [] ∧ required.other = []

/-- The master authorities of the required master accounts name keys only. -/
def VerifyArgs.PlainMasters (args : VerifyArgs) (required : RequiredAuthorities) : Prop :=
  ∀ a ∈ required.master, ∀ auth, args.getMaster a = .ok auth → auth.accountAuths = []

theorem met_of_keys {auth : Authority} {signed : PublicKey → Prop}
    {holds holds' : AccountName → Prop} (hauth : auth.accountAuths = [])
    (h : auth.rule.Met signed holds) : auth.rule.Met signed holds' := by
  obtain ⟨ks, ns, hks, hk, hns, -, ht⟩ := h
  have hnil : ns = [] := by
    rw [Authority.rule, hauth] at hns
    exact List.eq_nil_of_sublist_nil hns
  subst hnil
  exact ⟨ks, [], hks, hk, List.nil_sublist _, by simp, ht⟩

section

variable {args : VerifyArgs} {s s' : SignState} {required : RequiredAuthorities}
  {known : AccountName → Prop}

/-! ## The keys that are used -/

theorem regularNested_closed (args : VerifyArgs) (a : AccountName) (auth : Authority)
    (h : args.getRegular a = .ok auth)
    (hmet : auth.rule.Met (· ∈ args.sigs) args.RegularNested) : args.RegularNested a :=
  Derived.of_met ⟨auth, h, rfl⟩ hmet

theorem speaksRegular_of_nested {a : AccountName} (h : args.RegularNested a) :
    args.SpeaksRegular args.RegularNested a := by
  by_cases ha : a = "temp"
  · exact .inl ha
  · obtain ⟨r, ⟨auth, hauth, rfl⟩, hmet⟩ := h.met_of_not_granted ha
    exact .inr ⟨auth, .inl hauth, hmet⟩

theorem checkAccount_backed {get : AuthorityGetter} (levels : Nat) (a : AccountName) {b : Bool}
    (hr : s.checkAccount get levels a = .ok (b, s')) :
    Backs (Closed get) s s' fun _ holds => b = true → holds a := by
  unfold SignState.checkAccount at hr
  split at hr
  · rename_i hkey
    cases hr
    refine ⟨grows_approve s a true, fun signed holds _ _ happ => ⟨fun n hn => ?_, fun _ => happ a hkey⟩⟩
    simp only [SignState.approve, hasKey_assign, Bool.or_eq_true, decide_eq_true_eq] at hn
    rcases hn with rfl | hn
    · exact happ _ hkey
    · exact happ n hn
  · rw [bind_eq_ok] at hr
    obtain ⟨auth, hauth, hr⟩ := hr
    exact (checkAuthority_backed get levels auth s b s' hr).imp
      fun signed holds hclosed hmet hb => hclosed a auth hauth (hmet hb)

theorem orElse_backed {nested get : AuthorityGetter} (a : AccountName) {r r' : Bool × SignState}
    (hr : args.orElse nested get a r = .ok r') :
    Backs (Closed nested) r.2 r'.2 fun signed holds => r'.1 = true →
      r.1 = true ∨ ∃ auth : Authority, get a = .ok auth ∧ auth.rule.Met signed holds := by
  unfold VerifyArgs.orElse at hr
  split at hr
  · rename_i hmet
    cases hr
    exact (Backs.refl r.2).imp fun _ _ _ _ _ => .inl hmet
  · rw [bind_eq_ok] at hr
    obtain ⟨auth, hauth, hr⟩ := hr
    exact (checkAuthority_backed nested _ auth r.2 r'.1 r'.2 hr).imp
      fun _ _ _ hmet hb => .inr ⟨auth, hauth, hmet hb⟩

theorem checkActive_backed (a : AccountName) {b : Bool}
    (hr : args.checkActive a s = .ok (b, s')) :
    Backs (Closed args.getActive) s s' fun signed holds => b = true → holds a ∨
      ∃ auth : Authority, args.getMaster a = .ok auth ∧ auth.rule.Met signed holds := by
  simp only [VerifyArgs.checkActive, bind_eq_ok] at hr
  obtain ⟨⟨b₁, s₁⟩, h₁, h₂⟩ := hr
  exact ((checkAccount_backed _ a h₁).trans (orElse_backed a h₂)).imp
    fun _ _ _ h hb => (h.2 hb).imp_left h.1

theorem checkRegular_backed (a : AccountName) {b : Bool}
    (hr : args.checkRegular a s = .ok (b, s')) :
    Backs (Closed args.getRegular) s s' fun signed holds => b = true → holds a ∨
      ∃ auth : Authority, (args.getActive a = .ok auth ∨ args.getMaster a = .ok auth) ∧
        auth.rule.Met signed holds := by
  simp only [VerifyArgs.checkRegular, bind_eq_ok] at hr
  obtain ⟨⟨b₁, s₁⟩, h₁, ⟨b₂, s₂⟩, h₂, h₃⟩ := hr
  refine (((checkAccount_backed _ a h₁).trans (orElse_backed a h₂)).trans (orElse_backed a h₃)).imp
    fun _ _ _ h hb => ?_
  obtain ⟨⟨hb₁, hb₂⟩, hb₃⟩ := h
  rcases hb₃ hb with hb | ⟨auth, hauth, hmet⟩
  · rcases hb₂ hb with hb | ⟨auth, hauth, hmet⟩
    · exact .inl (hb₁ hb)
    · exact .inr ⟨auth, .inl hauth, hmet⟩
  · exact .inr ⟨auth, .inr hauth, hmet⟩

/-- A met master account is marked approved though the active authorities need not speak for
it, so that here every account may hold. -/
theorem checkMaster_backed (hargs : args.masterApprovals = []) (a : AccountName) {b : Bool}
    (hr : args.checkMaster a s = .ok (b, s')) :
    Backs (fun _ holds => ∀ n, holds n) s s' fun signed holds => b = true →
      ∃ auth : Authority, args.getMaster a = .ok auth ∧ auth.rule.Met signed holds := by
  simp only [VerifyArgs.checkMaster, hargs, List.not_mem_nil, ↓reduceIte, bind_eq_ok, pure_eq_ok,
    Prod.mk.injEq] at hr
  obtain ⟨⟨met, s₁⟩, hmet, rfl, rfl⟩ := hr
  have hback : Backs (fun _ holds => ∀ n, holds n) s s₁ _ :=
    (orElse_backed a hmet).weaken fun _ _ hall n _ _ _ => hall n
  have hauth := hback.imp (Q := fun signed holds => met = true → ∃ auth : Authority,
    args.getMaster a = .ok auth ∧ auth.rule.Met signed holds)
    fun _ _ _ h hm => (h hm).resolve_left (by simp)
  cases met with
  | false => exact hauth
  | true => exact hauth.approve (fun _ _ hall _ => hall a) true

theorem collectMissing_backed {α : Type}
    {closed : (PublicKey → Prop) → (AccountName → Prop) → Prop}
    {P : α → (PublicKey → Prop) → (AccountName → Prop) → Prop}
    {check : α → SignState → Result (Bool × SignState)}
    (hcheck : ∀ x s b s', check x s = .ok (b, s') →
      Backs closed s s' fun signed holds => b = true → P x signed holds)
    (l : List α) {missing : List α} (hr : collectMissing check l s = .ok (missing, s')) :
    Backs closed s s' fun signed holds => missing = [] → ∀ x ∈ l, P x signed holds := by
  induction l generalizing s missing with
  | nil =>
    simp only [collectMissing, Except.ok.injEq, Prod.mk.injEq] at hr
    obtain ⟨-, rfl⟩ := hr
    exact (Backs.refl s).imp fun _ _ _ _ _ x hx => absurd hx List.not_mem_nil
  | cons x rest ih =>
    simp only [collectMissing, bind_eq_ok, pure_eq_ok, Prod.mk.injEq] at hr
    obtain ⟨⟨met, s₁⟩, hx, ⟨tail, s₂⟩, hrest, hmissing, rfl⟩ := hr
    refine ((hcheck x s met s₁ hx).trans (ih hrest)).imp fun signed holds _ hP hnil => ?_
    subst hmissing
    cases met with
    | false => simp at hnil
    | true =>
      intro y hy
      rcases List.mem_cons.1 hy with rfl | hy
      · exact hP.1 rfl
      · exact hP.2 hnil y hy

theorem new_approved {keys available : List PublicKey} {holds : AccountName → Prop}
    (htemp : holds "temp") (a : AccountName)
    (ha : hasKey a (SignState.new keys available).approvedBy = true) : holds a := by
  have : a = "temp" := by simpa [SignState.new, hasKey, assign, eq_comm] using ha
  exact this ▸ htemp

/-- The keys that the checks of the active and the master level have used answer for what is
required. -/
theorem checkRequiredActive_backed (hargs : args.Unapproved) (hplain : args.PlainMasters required)
    (hr : checkRequiredActive args required = .ok s) :
    (SignState.new args.sigs []).Grows s ∧ ∀ keys, s.usedSignatures ⊆ keys →
      (∀ auth ∈ required.other, auth.rule.Met (· ∈ keys) (args.signedWith keys).Nested) ∧
      (∀ a ∈ required.active, (args.signedWith keys).Speaks (args.signedWith keys).Nested a) ∧
      ∀ a ∈ required.master, ∃ auth : Authority, args.getMaster a = .ok auth ∧
        auth.rule.Met (· ∈ keys) (args.signedWith keys).Nested := by
  simp only [checkRequiredActive, hargs.active, hargs.master, bind_eq_ok, require_eq_ok,
    pure_eq_ok] at hr
  obtain ⟨⟨_, s₁⟩, hother, _, hnil₁, ⟨_, s₂⟩, hactive, _, hnil₂, ⟨_, s₃⟩, hmaster, _, hnil₃, rfl⟩ := hr
  have hback := (collectMissing_backed (fun auth s b s' hr =>
    checkAuthority_backed args.getActive _ auth s b s' hr) _ hother).trans
    (collectMissing_backed (fun a s b s' hr => checkActive_backed a hr) _ hactive)
  have hlast := collectMissing_backed (fun a s b s' hr => checkMaster_backed hargs.master a hr) _
    hmaster
  refine ⟨hback.1.trans hlast.1, fun keys hkeys => ?_⟩
  obtain ⟨-, h₁, h₂⟩ := hback.2 (· ∈ keys) (args.signedWith keys).Nested
    (nested_closed (args.signedWith keys)) (fun k hk => hkeys (hlast.1.used k hk))
    (new_approved (.grant rfl))
  obtain ⟨-, h₃⟩ := hlast.2 (· ∈ keys) (fun _ => True) (fun _ => trivial) (fun k hk => hkeys hk)
    fun _ _ => trivial
  refine ⟨h₁ hnil₁, fun a ha => ?_, fun a ha => ?_⟩
  · rcases h₂ hnil₂ a ha with hn | ⟨auth, hauth, hmet⟩
    · exact speaks_of_nested hn
    · exact .inr ⟨auth, .inr hauth, hmet⟩
  · obtain ⟨auth, hauth, hmet⟩ := h₃ hnil₃ a ha
    exact ⟨auth, hauth, met_of_keys (hplain a ha auth hauth) hmet⟩

theorem checkRequiredRegular_backed (hargs : args.Unapproved) {l : List AccountName}
    (hr : checkRequiredRegular args l = .ok s) :
    (SignState.new args.sigs []).Grows s ∧ ∀ keys, s.usedSignatures ⊆ keys → ∀ a ∈ l,
      (args.signedWith keys).SpeaksRegular (args.signedWith keys).RegularNested a := by
  simp only [checkRequiredRegular, hargs.regular, bind_eq_ok, require_eq_ok, pure_eq_ok] at hr
  obtain ⟨⟨_, s₁⟩, hregular, _, hnil, rfl⟩ := hr
  have hback := collectMissing_backed (fun a s b s' hr => checkRegular_backed a hr) _ hregular
  refine ⟨hback.1, fun keys hkeys a ha => ?_⟩
  obtain ⟨-, h⟩ := hback.2 (· ∈ keys) (args.signedWith keys).RegularNested
    (regularNested_closed (args.signedWith keys)) (fun k hk => hkeys hk) (new_approved (.grant rfl))
  rcases h hnil a ha with hn | ⟨auth, hauth, hmet⟩
  · exact speaksRegular_of_nested hn
  · exact .inr ⟨auth, .inr hauth, hmet⟩

/-- **Used keys.**  Whatever passes the checks of `verify_authority`, the keys that it has
used answer for all that is required. -/
theorem checkRequired_backed (hargs : args.Unapproved) {ops : List Operation}
    (hplain : args.PlainMasters (collectRequired ops)) (hr : checkRequired args ops = .ok s) :
    (collectRequired ops).Unmixed ∧ (SignState.new args.sigs []).Grows s ∧
      ∀ keys, s.usedSignatures ⊆ keys → (args.signedWith keys).Answered (collectRequired ops) := by
  unfold checkRequired at hr
  by_cases hreq : (collectRequired ops).regular = []
  · simp only [hreq, ↓reduceIte] at hr
    obtain ⟨hgrows, hans⟩ := checkRequiredActive_backed hargs hplain hr
    refine ⟨.inl hreq, hgrows, fun keys hkeys => ?_⟩
    obtain ⟨hother, hactive, hmaster⟩ := hans keys hkeys
    exact ⟨by simp [hreq], hother, hactive, hmaster⟩
  · simp only [hreq, ↓reduceIte, fcAssert_bind_eq_ok] at hr
    obtain ⟨hactive, hmaster, hother, hr⟩ := hr
    obtain ⟨hgrows, hans⟩ := checkRequiredRegular_backed hargs hr
    exact ⟨.inr ⟨hactive, hmaster, hother⟩, hgrows, fun keys hkeys =>
      ⟨hans keys hkeys, by simp [hother], by simp [hactive], by simp [hmaster]⟩⟩

/-! ## Keys that answer -/

theorem checkRegular_complete (hall : args.Complete known) {a : AccountName} (ha : known a)
    (h : s.Covers (· ∈ args.sigs) (· = "temp")) :
    ∃ b s', args.checkRegular a s = .ok (b, s') ∧ s'.Covers (· ∈ args.sigs) (· = "temp") ∧
      (args.SpeaksRegular args.RegularNestedIn a → b = true) := by
  obtain ⟨b₁, s₁, h₁, hcov₁, hgrant, hmet₁⟩ :=
    checkAccount_complete hall.regular args.maxRecursionDepth ha h
  obtain ⟨b₂, s₂, h₂, hcov₂, hkeep₂, hmet₂⟩ :=
    orElse_complete hall.regular a (b₁, s₁) ((hall.active a ha).imp_left hgrant) hcov₁
  obtain ⟨b₃, s₃, h₃, hcov₃, hkeep₃, hmet₃⟩ := orElse_complete hall.regular a (b₂, s₂)
    ((hall.master a ha).imp_left fun htemp => hkeep₂ (hgrant htemp)) hcov₂
  refine ⟨b₃, s₃, ?_, hcov₃, fun hspeaks => ?_⟩
  · simp only [VerifyArgs.checkRegular, h₁, h₂, bind, Except.bind]
    exact h₃
  · rcases hspeaks with ha | ⟨auth, hauth | hauth | hauth, hm⟩
    · exact hkeep₃ (hkeep₂ (hgrant ha))
    · exact hkeep₃ (hkeep₂ (hmet₁ auth hauth hm))
    · exact hkeep₃ (hmet₂ auth hauth hm)
    · exact hmet₃ auth hauth hm

theorem checkRequiredRegular_ends (hargs : args.Unapproved) (hall : args.Complete known)
    {l : List AccountName} (hl : ∀ a ∈ l, known a) :
    (∃ s, checkRequiredRegular args l = .ok s ∧ s.unusedApprovals = []) ∨
      ∃ e, checkRequiredRegular args l = .error e ∧ e.missingAuthority = true ∧
        ¬ ∀ a ∈ l, args.SpeaksRegular args.RegularNestedIn a := by
  obtain ⟨missing, s, hrun, hcov, hnil⟩ := collectMissing_complete
    (P := args.SpeaksRegular args.RegularNestedIn) (new_covers args.sigs) l
    fun a ha s hs => checkRegular_complete hall (hl a ha) hs
  simp only [checkRequiredRegular, hargs.regular, SignState.withApprovals, List.foldl_nil, bind,
    Except.bind, hrun, require]
  by_cases h : missing = []
  · simp only [h, ↓reduceIte]
    exact .inl ⟨s, rfl, hcov.unusedApprovals⟩
  · simp only [h, ↓reduceIte]
    exact .inr ⟨_, rfl, rfl, fun hspeak => h (hnil hspeak)⟩

/-- The checks end in a state or miss an authority, and they miss none that is met within the
depth limit. -/
theorem checkRequired_ends (hargs : args.Unapproved) (hall : args.Complete known)
    {ops : List Operation} (hwithin : (collectRequired ops).Within known)
    (hmix : (collectRequired ops).Unmixed) :
    (∃ s, checkRequired args ops = .ok s ∧ s.unusedApprovals = []) ∨
      ∃ e, checkRequired args ops = .error e ∧ e.missingAuthority = true ∧
        ¬ args.AnsweredIn (collectRequired ops) := by
  unfold checkRequired
  by_cases hreq : (collectRequired ops).regular = []
  · simp only [hreq, ↓reduceIte]
    rcases checkRequiredActive_ends hargs hall hwithin with h | ⟨e, he, hmiss, hnot⟩
    · exact .inl h
    · exact .inr ⟨e, he, hmiss, fun h => hnot ⟨h.other, h.active, h.master⟩⟩
  · obtain ⟨hactive, hmaster, hnone⟩ := hmix.resolve_left hreq
    simp only [hreq, ↓reduceIte, hactive, hmaster, hnone, fcAssert, require, bind, Except.bind]
    rcases checkRequiredRegular_ends hargs hall hwithin.regular with h | ⟨e, he, hmiss, hnot⟩
    · exact .inl h
    · exact .inr ⟨e, he, hmiss, fun h => hnot h.regular⟩

theorem Answered.of_more_keys {keys keys' : List PublicKey} (hsub : keys ⊆ keys')
    (h : (args.signedWith keys).Answered required) : (args.signedWith keys').Answered required := by
  have hnested : ∀ a, (args.signedWith keys).Nested a → (args.signedWith keys').Nested a :=
    fun a ha => Derived.of_more_signed ha fun k hk => hsub hk
  have hregular : ∀ a, (args.signedWith keys).RegularNested a →
      (args.signedWith keys').RegularNested a :=
    fun a ha => Derived.of_more_signed ha fun k hk => hsub hk
  have hmet {r : Rule PublicKey AccountName} {holds holds' : AccountName → Prop}
      (hh : ∀ n, holds n → holds' n) (hm : r.Met (· ∈ (args.signedWith keys).sigs) holds) :
      r.Met (· ∈ (args.signedWith keys').sigs) holds' :=
    (hm.mono hh).of_more_signed fun k hk => hsub hk
  refine ⟨fun a ha => ?_, fun auth hauth => hmet hnested (h.other auth hauth), fun a ha => ?_,
    fun a ha => ?_⟩
  · rcases h.regular a ha with hm | ⟨auth, hauth, hm⟩
    · exact .inl hm
    · exact .inr ⟨auth, hauth, hmet hregular hm⟩
  · rcases h.active a ha with hm | ⟨auth, hauth, hm⟩
    · exact .inl hm
    · exact .inr ⟨auth, hauth, hmet hnested hm⟩
  · obtain ⟨auth, hauth, hm⟩ := h.master a ha
    exact ⟨auth, hauth, hmet hnested hm⟩

/-! ## The keys that are selected -/

theorem new_covers_available (sigs available : List PublicKey) :
    (SignState.new sigs available).Covers (· ∈ available) (· = "temp") where
  signs k hk := .inr hk
  grants a ha := by simp [SignState.new, assign, hasKey, ha]
  used p hp := by
    simp only [SignState.new, assign, List.mem_singleton] at hp
    rw [hp]

/-- Every used key of a state that has grown from a fresh one is selected. -/
theorem mem_selected {sigs available : List PublicKey} (hsigs : sigs ⊆ available)
    (h : (SignState.new sigs available).Grows s) (k : PublicKey) (hk : k ∈ s.usedSignatures) :
    k ∈ s.selected available := by
  refine List.mem_filter.2 ⟨hk, decide_eq_true ?_⟩
  rcases h.provided k (hasKey_of_used hk) with hk | hk
  · rcases hasKey_foldl_assign sigs [] k hk with hk | hk
    · exact hsigs hk
    · simp [hasKey] at hk
  · exact hk

/-- A list of known accounts that are granted or met by their authorities within the limit:
none of them is missed, and the keys that are used in the end account for them. -/
theorem collectAccounts_selects {get : AuthorityGetter} {signed : PublicKey → Prop}
    {granted : AccountName → Prop} (hget : get.Complete known granted) (levels : Nat)
    (l : List AccountName) (hknown : ∀ a ∈ l, known a)
    (hl : ∀ a ∈ l, granted a ∨ ∃ auth : Authority, get a = .ok auth ∧
      auth.rule.Met signed (DerivedIn get.rules signed granted levels))
    (h : s.Covers signed granted) :
    ∃ s', collectMissing (fun a s => s.checkAccount get levels a) l s = .ok ([], s') ∧
      s'.Covers signed granted ∧ Backs (Closed get) s s' fun _ holds => ∀ a ∈ l, holds a := by
  obtain ⟨missing, s', hrun, hcov, hnil⟩ := collectMissing_complete
    (P := fun a => granted a ∨ ∃ auth : Authority, get a = .ok auth ∧
      auth.rule.Met signed (DerivedIn get.rules signed granted levels)) h l fun a ha s hs => by
      obtain ⟨b, s', hrun, hcov, hgrant, hmet⟩ := checkAccount_complete hget levels (hknown a ha) hs
      exact ⟨b, s', hrun, hcov, fun h => h.elim hgrant fun ⟨auth, hauth, hm⟩ => hmet auth hauth hm⟩
  rw [hnil hl] at hrun
  refine ⟨s', hrun, hcov, ?_⟩
  have hback := collectMissing_backed (P := fun a _ holds => holds a)
    (fun a s b s' hr => checkAccount_backed levels a hr) l hrun
  exact hback.imp fun _ _ _ hall => hall rfl

theorem collectAuths_selects {get : AuthorityGetter} {signed : PublicKey → Prop}
    {granted : AccountName → Prop} (hget : get.Complete known granted) (levels : Nat)
    (l : List Authority) (hwithin : ∀ auth ∈ l, auth.Within known)
    (hl : ∀ auth ∈ l, auth.rule.Met signed (DerivedIn get.rules signed granted levels))
    (h : s.Covers signed granted) :
    ∃ s', collectMissing (fun auth s => s.checkAuthority get levels auth) l s = .ok ([], s') ∧
      s'.Covers signed granted ∧
      Backs (Closed get) s s' fun signed holds => ∀ auth ∈ l, auth.rule.Met signed holds := by
  obtain ⟨missing, s', hrun, hcov, hnil⟩ := collectMissing_complete
    (P := fun auth => auth.rule.Met signed (DerivedIn get.rules signed granted levels)) h l
    fun auth hauth s hs => checkAuthority_complete hget levels auth s (hwithin auth hauth) hs
  rw [hnil hl] at hrun
  refine ⟨s', hrun, hcov, ?_⟩
  have hback := collectMissing_backed (P := fun auth signed holds => auth.rule.Met signed holds)
    (fun auth s b s' hr => checkAuthority_backed get levels auth s b s' hr) l hrun
  exact hback.imp fun _ _ _ hall => hall rfl

end

/-! ## Agreement -/

/-- What the selection relies on: the carried signatures are by available keys, required
master accounts have plain authorities, an account that the available keys meet is met at
its own level, and the depth limit leaves out no derivation. -/
structure Selectable (args : VerifyArgs) (known : AccountName → Prop) (ops : List Operation)
    (sigs available : List PublicKey) : Prop where
  complete : args.Complete known
  within : (collectRequired ops).Within known
  signatures : sigs ⊆ available
  masters : args.PlainMasters (collectRequired ops)
  ownLevel : (args.signedWith available).Answered (collectRequired ops) →
    (args.signedWith available).OwnLevel (collectRequired ops)
  shallow : ∀ keys ⊆ available, (args.signedWith keys).Answered (collectRequired ops) →
    (args.signedWith keys).AnsweredIn (collectRequired ops)

section

variable {args : VerifyArgs} {known : AccountName → Prop} {ops : List Operation}
  {sigs available : List PublicKey} {required : RequiredAuthorities}

/-- The keys selected at the active level answer for the other authorities and for the
active accounts. -/
theorem active_selected (hall : args.Complete known) (hsigs : sigs ⊆ available)
    (hwithin : required.Within known) (hin : (args.signedWith available).AnsweredIn required)
    (hown : (args.signedWith available).OwnLevel required) :
    ∃ s₁ s₂, collectMissing
        (fun auth s => s.checkAuthority args.getActive args.maxRecursionDepth auth) required.other
        (SignState.new sigs available) = .ok ([], s₁) ∧
      collectMissing (fun a s => s.checkAccount args.getActive args.maxRecursionDepth a)
        required.active s₁ = .ok ([], s₂) ∧
      ∀ keys, s₂.selected available ⊆ keys →
        (∀ auth ∈ required.other, auth.rule.Met (· ∈ keys) (args.signedWith keys).Nested) ∧
        ∀ a ∈ required.active, (args.signedWith keys).Speaks (args.signedWith keys).Nested a := by
  obtain ⟨s₁, hrun₁, hcov₁, hback₁⟩ := collectAuths_selects hall.active args.maxRecursionDepth
    required.other hwithin.other hin.other (new_covers_available sigs available)
  obtain ⟨s₂, hrun₂, -, hback₂⟩ := collectAccounts_selects hall.active args.maxRecursionDepth
    required.active hwithin.active hown.active hcov₁
  refine ⟨s₁, s₂, hrun₁, hrun₂, fun keys hkeys => ?_⟩
  obtain ⟨hgrows, hback⟩ := hback₁.trans hback₂
  obtain ⟨-, hother, hactive⟩ := hback (· ∈ keys) (args.signedWith keys).Nested
    (nested_closed (args.signedWith keys)) (fun k hk => hkeys (mem_selected hsigs hgrows k hk))
    (new_approved (.grant rfl))
  exact ⟨hother, fun a ha => speaks_of_nested (hactive a ha)⟩

theorem master_selected (hall : args.Complete known) (hsigs : sigs ⊆ available)
    (hwithin : required.Within known) (hplain : args.PlainMasters required)
    (hin : (args.signedWith available).AnsweredIn required) :
    ∃ s, collectMissing (fun a s => s.checkAccount args.getMaster args.maxRecursionDepth a)
        required.master (SignState.new sigs available) = .ok ([], s) ∧
      ∀ keys, s.selected available ⊆ keys → ∀ a ∈ required.master, ∃ auth : Authority,
        args.getMaster a = .ok auth ∧ auth.rule.Met (· ∈ keys) (args.signedWith keys).Nested := by
  obtain ⟨s, hrun, -, hgrows, hback⟩ := collectAccounts_selects hall.master args.maxRecursionDepth
    required.master (fun a ha => (hwithin.master a ha).1) (fun a ha => by
      obtain ⟨auth, hauth, hmet⟩ := hin.master a ha
      exact .inr ⟨auth, hauth, met_of_keys (hplain a ha auth hauth) hmet⟩)
    (new_covers_available sigs available)
  refine ⟨s, hrun, fun keys hkeys a ha => ?_⟩
  -- the nested accounts follow the master authorities here, but there are none
  obtain ⟨-, hmaster⟩ := hback (· ∈ keys) (Derived args.getMaster.rules (· ∈ keys) (· = "temp"))
    (fun a auth hauth hmet => Derived.of_met ⟨auth, hauth, rfl⟩ hmet)
    (fun k hk => hkeys (mem_selected hsigs hgrows k hk)) (new_approved (.grant rfl))
  obtain ⟨r, ⟨auth, hauth, rfl⟩, hmet⟩ := (hmaster a ha).met_of_not_granted (hwithin.master a ha).2
  exact ⟨auth, hauth, met_of_keys (hplain a ha auth hauth) hmet⟩

theorem regular_selected (hall : args.Complete known) (hsigs : sigs ⊆ available)
    (hwithin : required.Within known) (hown : (args.signedWith available).OwnLevel required) :
    ∃ s, collectMissing (fun a s => s.checkAccount args.getRegular args.maxRecursionDepth a)
        required.regular (SignState.new sigs available) = .ok ([], s) ∧
      ∀ keys, s.selected available ⊆ keys → ∀ a ∈ required.regular,
        (args.signedWith keys).SpeaksRegular (args.signedWith keys).RegularNested a := by
  obtain ⟨s, hrun, -, hgrows, hback⟩ := collectAccounts_selects hall.regular args.maxRecursionDepth
    required.regular hwithin.regular hown.regular (new_covers_available sigs available)
  refine ⟨s, hrun, fun keys hkeys a ha => ?_⟩
  obtain ⟨-, hregular⟩ := hback (· ∈ keys) (args.signedWith keys).RegularNested
    (regularNested_closed (args.signedWith keys))
    (fun k hk => hkeys (mem_selected hsigs hgrows k hk)) (new_approved (.grant rfl))
  exact speaksRegular_of_nested (hregular a ha)

/-- `get_required_signatures` selects available keys that meet what is required. -/
theorem getRequiredSignatures_answers (h : Selectable args known ops sigs available)
    (hmix : (collectRequired ops).Unmixed)
    (ha : (args.signedWith available).Answered (collectRequired ops)) :
    ∃ keys, getRequiredSignatures args ops (.ok sigs) available = .ok keys ∧ keys ⊆ available ∧
      (args.signedWith keys).Answered (collectRequired ops) := by
  have hin := h.shallow available (List.Subset.refl _) ha
  have hown := h.ownLevel ha
  by_cases hreq : (collectRequired ops).regular = []
  · obtain ⟨s₁, s₂, hother, hactive, hsel⟩ :=
      active_selected h.complete h.signatures h.within hin hown
    obtain ⟨s₃, hmaster, hselMaster⟩ :=
      master_selected h.complete h.signatures h.within h.masters hin
    refine ⟨keySet (s₂.selected available ++ s₃.selected available), ?_, fun k hk => ?_, ?_⟩
    · simp only [getRequiredSignatures, hreq, ↓reduceIte, hother, hactive, hmaster, bind,
        Except.bind, pure, Except.pure]
    · rw [mem_keySet, List.mem_append] at hk
      rcases hk with hk | hk
      · exact of_decide_eq_true (List.mem_filter.1 hk).2
      · exact of_decide_eq_true (List.mem_filter.1 hk).2
    · obtain ⟨hotherMet, hactiveMet⟩ := hsel (keySet (s₂.selected available ++
        s₃.selected available)) fun k hk => (mem_keySet k _).2 (List.mem_append_left _ hk)
      refine ⟨by simp [hreq], hotherMet, hactiveMet, hselMaster _ fun k hk => ?_⟩
      exact (mem_keySet k _).2 (List.mem_append_right _ hk)
  · obtain ⟨hactive, hmaster, hother⟩ := hmix.resolve_left hreq
    obtain ⟨s, hregular, hsel⟩ := regular_selected h.complete h.signatures h.within hown
    refine ⟨keySet (s.selected available), ?_, fun k hk => ?_, ?_⟩
    · simp only [getRequiredSignatures, hreq, ↓reduceIte, hactive, hmaster, fcAssert, require,
        hregular, bind, Except.bind, pure, Except.pure]
    · rw [mem_keySet] at hk
      exact of_decide_eq_true (List.mem_filter.1 hk).2
    · exact ⟨hsel _ fun k hk => (mem_keySet k _).2 hk, by simp [hother], by simp [hactive],
        by simp [hmaster]⟩

theorem new_providedSignatures_nodup (keys available : List PublicKey) :
    ((SignState.new keys available).providedSignatures.map Prod.fst).Nodup := by
  have hfold : ∀ m : List (PublicKey × Bool), (m.map Prod.fst).Nodup →
      ((keys.foldl (fun m k => assign k false m) m).map Prod.fst).Nodup := by
    induction keys with
    | nil => exact fun m hm => hm
    | cons k keys ih => exact fun m hm => ih _ (nodup_assign k false m hm)
  exact hfold [] List.nodup_nil

/-- A key that a check has left unused is not among the keys that it has used. -/
theorem usedSignatures_subset_erase {keys : List PublicKey} {s : SignState}
    (h : (SignState.new keys []).Grows s) {k : PublicKey} (hk : k ∈ s.unusedSignatures) :
    k ∈ keys ∧ s.usedSignatures ⊆ eraseKey k keys := by
  have hprovided (x : PublicKey) (hx : hasKey x s.providedSignatures = true) : x ∈ keys := by
    rcases h.provided x hx with hx | hx
    · exact (hasKey_foldl_assign keys [] x hx).resolve_right (by simp [hasKey])
    · exact absurd hx (by simp [SignState.new])
  obtain ⟨⟨_, used⟩, hmem, rfl⟩ := List.mem_map.1 hk
  obtain ⟨hmem, hfalse⟩ := List.mem_filter.1 hmem
  obtain rfl : used = false := by simpa using hfalse
  refine ⟨hprovided _ ((mem_keys_iff _ _).1 (List.mem_map_of_mem hmem)), fun x hx => ?_⟩
  refine (mem_eraseKey x _ keys).2 ⟨hprovided x (hasKey_of_used hx), fun hxk => ?_⟩
  have hpair := List.inj_on_of_nodup_map (h.distinct (new_providedSignatures_nodup keys []))
    (mem_usedSignatures.1 hx) hmem hxk
  cases hpair

theorem verify_steady (h : Selectable args known ops sigs available)
    (hmix : (collectRequired ops).Unmixed) :
    Steady (fun keys => verifyAuthority (args.signedWith keys) ops)
      (fun keys => (args.signedWith keys).Answered (collectRequired ops)) available := by
  -- the checks miss an authority exactly when the keys do not answer
  have hends (keys : List PublicKey) :=
    checkRequired_ends (signedWith_unapproved args keys) (signedWith_complete h.complete keys)
      h.within hmix
  have hanswers {keys : List PublicKey} {s : SignState}
      (hs : checkRequired (args.signedWith keys) ops = .ok s) :=
    checkRequired_backed (signedWith_unapproved args keys) h.masters hs
  have hpasses (keys : List PublicKey) (hsub : keys ⊆ available)
      (ha : (args.signedWith keys).Answered (collectRequired ops)) :
      ∃ s, checkRequired (args.signedWith keys) ops = .ok s ∧ s.unusedApprovals = [] :=
    (hends keys).resolve_right fun ⟨_, _, _, hnot⟩ => hnot (h.shallow keys hsub ha)
  refine ⟨fun keys hsub ha => ?_, fun keys _ hnot => ?_, fun keys keys' hsub _ ha =>
    Answered.of_more_keys hsub ha, fun keys hsub ha hall => ?_⟩
  · obtain ⟨s, hs, hnil⟩ := hpasses keys hsub ha
    exact missesNone_of_checkRequired hs hnil
  · rcases hends keys with ⟨s, hs, -⟩ | ⟨e, he, hmiss, -⟩
    · obtain ⟨-, hgrows, hback⟩ := hanswers hs
      refine absurd (hback keys fun k hk => ?_) hnot
      rcases hgrows.provided k (hasKey_of_used hk) with hk | hk
      · exact (hasKey_foldl_assign keys [] k hk).resolve_right (by simp [hasKey])
      · exact absurd hk (by simp [SignState.new])
    · refine ⟨e, ?_, hmiss⟩
      simp only [verifyAuthority, he, bind, Except.bind]
  · obtain ⟨s, hs, hnil⟩ := hpasses keys hsub ha
    obtain ⟨-, hgrows, hback⟩ := hanswers hs
    have hunused : s.unusedSignatures = [] := List.eq_nil_iff_forall_not_mem.2 fun k hk => by
      obtain ⟨hmem, hused⟩ := usedSignatures_subset_erase hgrows hk
      exact hall k hmem (hback _ hused)
    simp [verifyAuthority, hs, assertUnusedApprovals, require, hunused, hnil, bind, Except.bind]

end

/-- When some of the available keys are accepted, `minimize_required_signatures` returns
available keys that are accepted and of which none can be left out. -/
def SelectionAgrees (args : VerifyArgs) (ops : List Operation) (sigs available : List PublicKey) :
    Prop :=
  (∃ keys, keys ⊆ available ∧ verifyAuthority (args.signedWith keys) ops = .ok ()) →
    ∃ result, minimizeRequiredSignatures args ops (.ok sigs) available = .ok result ∧
      result ⊆ available ∧ verifyAuthority (args.signedWith result) ops = .ok () ∧
      ∀ k ∈ result, verifyAuthority (args.signedWith (eraseKey k result)) ops ≠ .ok ()

/-- The same, unless the check of some keys that are tried on the way finds unused
signatures. -/
def SelectionSound (args : VerifyArgs) (ops : List Operation) (sigs available : List PublicKey) :
    Prop :=
  (∀ unused, minimizeRequiredSignatures args ops (.ok sigs) available ≠
    .error (.txIrrelevantSig unused)) → SelectionAgrees args ops sigs available

/-- **Selection and check.**  Where the selection can follow the authorities it agrees with
`verify_authority`. -/
theorem selection_sound (args : VerifyArgs) (known : AccountName → Prop) (ops : List Operation)
    (sigs available : List PublicKey) (h : Selectable args known ops sigs available) :
    SelectionSound args ops sigs available := by
  rintro hthrows ⟨keys, hkeys, hok⟩
  rw [verifyAuthority, bind_eq_ok] at hok
  obtain ⟨s, hs, hpass⟩ := hok
  obtain ⟨hmix, hgrows, hback⟩ :=
    checkRequired_backed (signedWith_unapproved args keys) h.masters hs
  have ha := hback available fun k hk => by
    rcases hgrows.provided k (hasKey_of_used hk) with hk | hk
    · exact hkeys ((hasKey_foldl_assign keys [] k hk).resolve_right (by simp [hasKey]))
    · exact absurd hk (by simp [SignState.new])
  obtain ⟨selected, hrun, hsub, hselected⟩ := getRequiredSignatures_answers h hmix ha
  have hminimize := minimizeRequiredSignatures_of_selected hrun
  rcases minimizeLoop_minimal (verify_steady h hmix) [] selected selected hsub hselected
    (fun k hk => .inr hk) (by simp) with ⟨unused, hloop⟩ | ⟨result, hloop, hres⟩
  · exact absurd (hminimize.trans hloop) (hthrows unused)
  · exact ⟨result, hminimize.trans hloop, hres⟩

/-! ## Where the selection goes astray -/

/-- Of the keys 8 and 9 each carries the crowd one too far. -/
def crowdedAuthority : Authority :=
  { weightThreshold := 2 ^ 32 - 1, keyAuths := [(7, 0), (8, 1), (9, 1)]
    accountAuths := crowd 65537 }

/-- `carol` has two keys of which one is enough; `ben` depends on `zoe` twice; `dora` names an
account that does not exist, `gus` a crowd; `amy` and `bea` both depend on `zora`. -/
def selectionActive : AccountName → Authority
  | "carol" => { weightThreshold := 1, keyAuths := [(7, 1), (9, 1)] }
  | "ben" => { weightThreshold := 2, accountAuths := [("gina", 1), ("hugo", 1)] }
  | "gina" => { weightThreshold := 1, accountAuths := [("xena", 1), ("zoe", 1)] }
  | "hugo" => { weightThreshold := 1, accountAuths := [("walt", 1)] }
  | "walt" => { weightThreshold := 1, accountAuths := [("zoe", 1)] }
  | "xena" => { weightThreshold := 1, keyAuths := [(9, 1)] }
  | "dora" => { weightThreshold := 1, keyAuths := [(7, 1)], accountAuths := [("ghost", 1)] }
  | "gus" => crowdedAuthority
  | "amy" =>
    { weightThreshold := 2, accountAuths := [("quin", 1), ("ursa", 1), ("vera", 1), ("xara", 1)] }
  | "bea" => { weightThreshold := 1, accountAuths := [("zora", 1)] }
  | "pete" => { weightThreshold := 1, keyAuths := [(2, 1)] }
  | "quin" => { weightThreshold := 1, keyAuths := [(3, 1)] }
  | "ursa" => { weightThreshold := 1, keyAuths := [(1, 1)] }
  | "vera" => { weightThreshold := 2, keyAuths := [(3, 1)], accountAuths := [("zora", 1)] }
  | "xara" => { weightThreshold := 1, keyAuths := [(3, 1)] }
  | "zora" => { weightThreshold := 1, accountAuths := [("pete", 1), ("quin", 1)] }
  | _ => keySeven

/-- The master authority of `bob` is the account `alice`. -/
def selectionMaster : AccountName → Authority
  | "bob" => { weightThreshold := 1, accountAuths := [("alice", 1)] }
  | "gus" => { weightThreshold := 1 }
  | _ => { weightThreshold := 1, keyAuths := [(8, 1)] }

def selectionArgs : VerifyArgs :=
  { sigs := []
    getActive := fun a =>
      if a = "ghost" then .error (.unknownKey "account_authority by_account")
      else .ok (selectionActive a)
    getMaster := fun a => .ok (selectionMaster a)
    getRegular := fun a => .ok (selectionActive a) }

theorem collectRequired_two :
    (collectRequired [askFor ["carol", "xena"] []]).active = ["carol", "xena"] := by decide

theorem selectable_two :
    Selectable selectionArgs (· ∈ ["carol", "xena"]) [askFor ["carol", "xena"] []] [] [7, 9] := by
  have hmem : ∀ a ∈ (collectRequired [askFor ["carol", "xena"] []]).active, a ∈ ["carol", "xena"] :=
    fun a ha => collectRequired_two ▸ ha
  have hnone : ∀ {α : Type} {P : α → Prop}, ∀ a ∈ ([] : List α), P a :=
    fun _ ha => absurd ha List.not_mem_nil
  -- both accounts have authorities that name keys only
  have hplain : ∀ a ∈ ["carol", "xena"],
      selectionArgs.getActive a = .ok (selectionActive a) ∧ (selectionActive a).accountAuths = [] ∧
        (selectionMaster a).accountAuths = [] ∧ (selectionActive a).Within (· ∈ ["carol", "xena"]) ∧
        (selectionMaster a).Within (· ∈ ["carol", "xena"]) := by
    intro a ha
    simp only [List.mem_cons, List.not_mem_nil, or_false] at ha
    rcases ha with rfl | rfl <;>
      exact ⟨rfl, rfl, rfl, ⟨.inr (by decide), hnone⟩, ⟨.inr (by decide), hnone⟩⟩
  refine ⟨⟨fun a ha => .inr ⟨_, (hplain a ha).1, (hplain a ha).2.2.2.1⟩,
    fun a ha => .inr ⟨_, rfl, (hplain a ha).2.2.2.2⟩,
    fun a ha => .inr ⟨_, rfl, (hplain a ha).2.2.2.1⟩⟩, ⟨hmem, hnone, hnone, hnone⟩,
    List.nil_subset _, hnone, fun _ => ⟨hnone, fun a ha => ?_⟩,
    fun keys _ h => ⟨hnone, hnone, fun a ha => ?_, hnone⟩⟩
  · have ha' := hmem a ha
    simp only [List.mem_cons, List.not_mem_nil, or_false] at ha'
    rcases ha' with rfl | rfl
    · exact .inr ⟨_, rfl, [(7, 1)], [], by decide, by simp [VerifyArgs.signedWith],
        List.nil_sublist _, by simp, by decide⟩
    · exact .inr ⟨_, rfl, [(9, 1)], [], by decide, by simp [VerifyArgs.signedWith],
        List.nil_sublist _, by simp, by decide⟩
  · rcases h.active a ha with hm | ⟨auth, hauth, hm⟩
    · exact .inl hm
    · refine .inr ⟨auth, hauth, met_of_keys ?_ hm⟩
      obtain ⟨hget, hactive, hmaster, -⟩ := hplain a (hmem a ha)
      rcases hauth with hauth | hauth
      · rw [show (selectionArgs.signedWith keys).getActive a = _ from hget, Except.ok.injEq] at hauth
        exact hauth ▸ hactive
      · cases hauth
        exact hmaster

/-- Of the keys 7 and 9, which both speak for `carol`, only the one that `xena` needs is left. -/
theorem selection_sound_two :
    minimizeRequiredSignatures selectionArgs [askFor ["carol", "xena"] []] (.ok []) [7, 9] =
        .ok [9] ∧
      SelectionSound selectionArgs [askFor ["carol", "xena"] []] [] [7, 9] :=
  ⟨by decide +kernel, selection_sound _ _ _ _ _ selectable_two⟩


theorem selection_member (i : Nat) : selectionArgs.getActive (memberName i) = .ok keySeven := by
  have hhead := memberName_head i
  have hother (a : AccountName) (ha : a.toList.head? = some 'm') :
      selectionActive a = keySeven := by
    unfold selectionActive
    split <;> first | rfl | exact absurd ha (by decide)
  show (if memberName i = "ghost" then _ else _) = _
  rw [if_neg fun h => ?_, hother _ hhead]
  rw [h] at hhead
  exact absurd hhead (by decide)

theorem selection_gus_authority :
    selectionArgs.getActive "gus" = .ok crowdedAuthority := rfl

/-- The provided keys, and no approval that is unused. -/
def Provides (provided : List (PublicKey × Bool)) (s : SignState) : Prop :=
  s.providedSignatures = provided ∧ ∀ p ∈ s.approvedBy, p.2 = true

/-- With the key 7 the crowd of `gus` is enough if neither 8 nor 9 is counted. -/
theorem selection_gus_signed (s : SignState) (provided : List (PublicKey × Bool))
    (available : List PublicKey) (total : Nat) (htotal : total < 2 ^ 16 - 1)
    (hkeys : checkKeyAuths (2 ^ 32 - 1) [(7, 0), (8, 1), (9, 1)] 0 s =
      ((false, total), ⟨provided, available, [("temp", true)]⟩))
    (hseven : hasKey 7 provided = true ∧ assign 7 true provided = provided) :
    ∃ s', Provides provided s' ∧ checkAuthority selectionArgs.getActive 2 crowdedAuthority s =
      .ok (decide (total = 0), s') := by
  obtain ⟨s', hs', hrun⟩ := checkAccountAuths_crowd 1 (Provides provided) selection_member
    (fun s h => h.1 ▸ hseven.1) (fun s h a => ⟨by rw [h.1]; exact hseven.2, mem_assign_used a _ h.2⟩)
    (s := ⟨provided, available, [("temp", true)]⟩) ⟨rfl, by simp⟩ total htotal
  refine ⟨s', hs', ?_⟩
  rw [crowdedAuthority, checkAuthority_of_keys 1 _ hkeys]
  exact hrun

/-- Without the key 7 nobody of the crowd is counted. -/
theorem selection_gus_unsigned :
    checkAuthority selectionArgs.getActive 2 crowdedAuthority (SignState.new [8, 9] []) =
      .ok (false, ⟨[(8, true), (9, true)], [], [("temp", true)]⟩) := by
  have happ (i : Nat) : hasKey (memberName i) [("temp", true)] = false := by
    have hne : ¬ "temp" = memberName i := fun h => by
      have hhead := memberName_head i
      rw [← h] at hhead
      exact absurd hhead (by decide)
    simp [hasKey, hne]
  have hkeys : checkKeyAuths (2 ^ 32 - 1) [(7, 0), (8, 1), (9, 1)] 0 (SignState.new [8, 9] []) =
      ((false, 2), ⟨[(8, true), (9, true)], [], [("temp", true)]⟩) := rfl
  rw [crowdedAuthority, checkAuthority_of_keys 1 _ hkeys]
  exact checkAccountAuths_crowd_absent 1 selection_member rfl happ (2 ^ 32 - 1) 2 65537

/-- What `verify_authority` says of an operation that asks for `gus`. -/
theorem verify_gus (keys : List PublicKey) {b : Bool} {s : SignState}
    (h : checkAuthority selectionArgs.getActive 2 crowdedAuthority (SignState.new keys []) =
      .ok (b, s)) :
    verifyAuthority (selectionArgs.signedWith keys) [askFor ["gus"] []] =
      if b then assertUnusedApprovals s
      else .error (.txMissingActiveAuth ["gus"] s.usedSignatures) := by
  have hkey : hasKey "gus" (SignState.new keys []).approvedBy = false := rfl
  have hcheck := checkActive_of_authority (selectionArgs.signedWith keys) hkey
    selection_gus_authority h
  have helse : (selectionArgs.signedWith keys).orElse selectionArgs.getActive
      selectionArgs.getMaster "gus" (b, s) = .ok (b, s) := by
    cases b <;> rfl
  rw [show (selectionArgs.signedWith keys).getActive = selectionArgs.getActive from rfl,
    show (selectionArgs.signedWith keys).getMaster = selectionArgs.getMaster from rfl, helse] at hcheck
  have hrun := checkRequired_of_collect (signedWith_unapproved selectionArgs keys)
    [askFor ["gus"] []] (onlyActive_alone "gus") rfl (collectMissing_cons hcheck rfl)
  unfold verifyAuthority
  rw [hrun]
  cases b with
  | false => rfl
  | true => rfl

theorem verify_gus_missing (keys : List PublicKey) {b : Bool} {s : SignState}
    (h : checkAuthority selectionArgs.getActive 2 crowdedAuthority (SignState.new keys []) =
      .ok (b, s)) (hb : b = false) :
    ∃ e, verifyAuthority (selectionArgs.signedWith keys) [askFor ["gus"] []] = .error e ∧
      e.missingAuthority = true := by
  subst hb
  rw [verify_gus keys h]
  exact ⟨_, if_neg Bool.false_ne_true, rfl⟩

theorem minimizeLoop_keeps (verify : List PublicKey → Result Unit) (k : PublicKey)
    (rest result keys : List PublicKey) (hkeys : eraseKey k result = keys)
    (hback : insertKey k keys = result)
    (hv : ∃ e, verify keys = .error e ∧ e.missingAuthority = true) :
    minimizeLoop verify (k :: rest) result = minimizeLoop verify rest result := by
  obtain ⟨e, hv, he⟩ := hv
  simp only [minimizeLoop, hkeys, hv, he, ↓reduceIte, hback]

theorem getRequiredSignatures_of_collect (args : VerifyArgs) {ops : List Operation}
    (hops : OnlyActive ops) {l missing : List AccountName} {sigs available : List PublicKey}
    {s : SignState} (hl : (collectRequired ops).active = l)
    (h : collectMissing (fun a s => s.checkAccount args.getActive args.maxRecursionDepth a) l
      (SignState.new sigs available) = .ok (missing, s)) :
    getRequiredSignatures args ops (.ok sigs) available = .ok (keySet (s.selected available ++
      (SignState.new sigs available).selected available)) := by
  simp only [getRequiredSignatures, hops.regular, hops.other, hops.master, hl, ↓reduceIte,
    collectMissing, bind, Except.bind, h, pure, Except.pure]

/-- The three keys are selected for `gus`. -/
theorem select_gus : getRequiredSignatures selectionArgs [askFor ["gus"] []] (.ok []) [7, 8, 9] =
    .ok [7, 8, 9] := by
  obtain ⟨s, hs, hauth⟩ := selection_gus_signed (SignState.new [] [7, 8, 9])
    [(7, true), (8, true), (9, true)] [7, 8, 9] 2 (by norm_num) rfl ⟨rfl, rfl⟩
  have hkey : hasKey "gus" (SignState.new [] [7, 8, 9]).approvedBy = false := rfl
  have hcheck := checkAccount_of_authority hkey selection_gus_authority hauth
  have hcollect : collectMissing (fun a s => s.checkAccount selectionArgs.getActive 2 a) ["gus"]
      (SignState.new [] [7, 8, 9]) = .ok (if decide (2 = 0) then [] else ["gus"], s) :=
    collectMissing_cons hcheck rfl
  have hselect := getRequiredSignatures_of_collect selectionArgs (onlyActive_alone "gus") rfl
    hcollect
  rw [SignState.selected, usedSignatures, hs.1] at hselect
  exact hselect

/-- None of the three keys can be left out of the three. -/
theorem minimize_gus :
    minimizeRequiredSignatures selectionArgs [askFor ["gus"] []] (.ok []) [7, 8, 9] =
      .ok [7, 8, 9] := by
  obtain ⟨s₁, -, h₁⟩ := selection_gus_signed (SignState.new [7, 9] [])
    [(7, true), (9, true)] [] 1 (by norm_num) rfl ⟨rfl, rfl⟩
  obtain ⟨s₂, -, h₂⟩ := selection_gus_signed (SignState.new [7, 8] [])
    [(7, true), (8, true)] [] 1 (by norm_num) rfl ⟨rfl, rfl⟩
  have h₇ := verify_gus_missing [8, 9] selection_gus_unsigned rfl
  have h₈ := verify_gus_missing [7, 9] h₁ rfl
  have h₉ := verify_gus_missing [7, 8] h₂ rfl
  have hloop (verify : List PublicKey → Result Unit)
      (h₇ : ∃ e, verify [8, 9] = .error e ∧ e.missingAuthority = true)
      (h₈ : ∃ e, verify [7, 9] = .error e ∧ e.missingAuthority = true)
      (h₉ : ∃ e, verify [7, 8] = .error e ∧ e.missingAuthority = true) :
      minimizeLoop verify [7, 8, 9] [7, 8, 9] = .ok [7, 8, 9] := by
    rw [minimizeLoop_keeps verify 7 [8, 9] [7, 8, 9] [8, 9] rfl rfl h₇,
      minimizeLoop_keeps verify 8 [9] [7, 8, 9] [7, 9] rfl rfl h₈,
      minimizeLoop_keeps verify 9 [] [7, 8, 9] [7, 8] rfl rfl h₉]
    rfl
  exact (minimizeRequiredSignatures_of_selected select_gus).trans (hloop _ h₇ h₈ h₉)

/-- Transactions for which some available key is accepted and the selection is not.  Only the
higher authority of `alice` can be met; `carol` has been signed for by a key that is not
available; `bob` depends on the active authority of `alice`; `temp` counts as approved; `ben`
is met beyond the depth limit; `dora` names an account that does not exist; the sum of weights
of `gus` leaves its 32 bits; and for `amy` and `bea` a key that is tried is of no use. -/
theorem selection_disagrees :
    ¬ SelectionAgrees selectionArgs [askFor ["alice"] []] [] [8] ∧
    ¬ SelectionAgrees selectionArgs [askFor ["carol"] []] [7] [9] ∧
    ¬ SelectionAgrees selectionArgs
      [.changeRecoveryAccount { accountToRecover := "bob", newRecoveryAccount := "carol" }] [] [7, 8] ∧
    ¬ SelectionAgrees selectionArgs
      [.changeRecoveryAccount { accountToRecover := "temp", newRecoveryAccount := "carol" }] [] [8] ∧
    ¬ SelectionAgrees selectionArgs [askFor ["ben"] []] [] [7, 9] ∧
    ¬ SelectionAgrees selectionArgs [askFor ["dora"] []] [] [7] ∧
    ¬ SelectionAgrees selectionArgs [askFor ["gus"] []] [] [7, 8, 9] ∧
    ¬ SelectionAgrees selectionArgs [askFor ["amy", "bea"] []] [] [1, 2, 3] := by
  have hrefute (ops : List Operation) (sigs available keys result : List PublicKey)
      (hsub : keys ⊆ available) (hok : verifyAuthority (selectionArgs.signedWith keys) ops = .ok ())
      (hrun : minimizeRequiredSignatures selectionArgs ops (.ok sigs) available = .ok result)
      (hbad : verifyAuthority (selectionArgs.signedWith result) ops ≠ .ok ()) :
      ¬ SelectionAgrees selectionArgs ops sigs available := by
    intro h
    obtain ⟨result', hrun', -, hok', -⟩ := h ⟨keys, hsub, hok⟩
    rw [hrun, Except.ok.injEq] at hrun'
    subst hrun'
    exact hbad hok'
  have hthrow (ops : List Operation) (sigs available keys : List PublicKey) (e : Exception)
      (hsub : keys ⊆ available) (hok : verifyAuthority (selectionArgs.signedWith keys) ops = .ok ())
      (hrun : minimizeRequiredSignatures selectionArgs ops (.ok sigs) available = .error e) :
      ¬ SelectionAgrees selectionArgs ops sigs available := by
    intro h
    obtain ⟨result, hrun', -⟩ := h ⟨keys, hsub, hok⟩
    rw [hrun] at hrun'
    cases hrun'
  refine ⟨?_, ?_, ?_, ?_, ?_, ?_, ?_, ?_⟩
  · exact hrefute _ _ _ [8] [] (by decide) (by decide +kernel) (by decide +kernel) (by decide +kernel)
  · exact hrefute _ _ _ [9] [] (by decide) (by decide +kernel) (by decide +kernel) (by decide +kernel)
  · exact hrefute _ _ _ [7] [8] (by decide) (by decide +kernel) (by decide +kernel) (by decide +kernel)
  · exact hrefute _ _ _ [8] [] (by decide) (by decide +kernel) (by decide +kernel) (by decide +kernel)
  · exact hrefute _ _ _ [7] [9] (by decide) (by decide +kernel) (by decide +kernel) (by decide +kernel)
  · exact hthrow _ _ _ [7] _ (by decide) (by decide +kernel)
      (show _ = Except.error (.unknownKey "account_authority by_account") by decide +kernel)
  · obtain ⟨s₁, hs₁, h₁⟩ := selection_gus_signed (SignState.new [7] []) [(7, true)] [] 0
      (by norm_num) rfl ⟨rfl, rfl⟩
    obtain ⟨s₂, -, h₂⟩ := selection_gus_signed (SignState.new [7, 8, 9] [])
      [(7, true), (8, true), (9, true)] [] 2 (by norm_num) rfl ⟨rfl, rfl⟩
    refine hrefute _ _ _ [7] [7, 8, 9] (by decide) ?_ minimize_gus ?_
    · rw [verify_gus [7] h₁]
      have happrovals : s₁.unusedApprovals = [] := by
        simp only [unusedApprovals, List.map_eq_nil_iff, List.filter_eq_nil_iff]
        intro p hp
        simp [hs₁.2 p hp]
      simp [assertUnusedApprovals, unusedSignatures, hs₁.1, happrovals, require, bind, Except.bind]
    · rw [verify_gus [7, 8, 9] h₂]
      simp
  · exact hthrow _ _ _ [3] (.txIrrelevantSig [2]) (by decide) (by decide +kernel) (by decide +kernel)

end VizCore.Protocol
