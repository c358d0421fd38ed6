import VizCore.Chain.Drift
import VizCore.Chain.Energy
import VizCore.Chain.Genesis
import VizCore.Protocol.AccountNames

/-!
# The names of new accounts

Four operations create an account, and each checks the new name in its own way.

* `evaluate_names`: an operation that creates no account keeps the names;
* `evaluate_newName_iff`: a new name follows the rules for new accounts exactly when the operation
  does not leave its length unchecked.
-/

namespace VizCore.Chain

open VizCore.Lib VizCore.Protocol

namespace Db

variable {fc : Fc} {db db' : Db} {name : AccountName}

/-! ## What keeps the names -/

theorem names_core (db : Db) : db.names = db.core.accounts.rows.map (·.name) := by
  show _ = (db.accounts.rows.map AccountObject.core).map (·.name)
  rw [List.map_map]
  rfl

theorem names_of_core (h : db'.core = db.core) : db'.names = db.names := by
  rw [names_core, names_core, h]

theorem names_of_view (h : db'.view .stake = db.view .stake) : db'.names = db.names := by
  have hrows (d : Db) : d.names = (d.view .stake).rows.rows.map StakeRow.name := by
    show _ = ((d.accounts.rows.map AccountObject.core).map fun a =>
      StakeRow.mk a.name a.shares).map StakeRow.name
    rw [List.map_map, List.map_map]
    rfl
  rw [hrows, hrows, h]

theorem names_of_fundsOnly (h : FundsOnly db db') : db'.names = db.names := by
  have hrows (d : Db) : d.names =
      (d.accounts.image AccountObject.withoutFunds).rows.map (·.name) := by
    show _ = (d.accounts.rows.map AccountObject.withoutFunds).map (·.name)
    rw [List.map_map]
    rfl
  rw [hrows, hrows, h.accounts]

theorem names_modifyAccount (db : Db) (key : AccountName) {f : AccountObject → AccountObject}
    (hf : ∀ a, (f a).name = a.name) : (db.modifyAccount key f).names = db.names :=
  Table.map_update db.accounts (·.name) key f (·.name) fun a _ => hf a

theorem findAccount_eq_none_iff : db.findAccount name = none ↔ name ∉ db.names :=
  Table.get_eq_none_iff

theorem names_registerAccount {mk : Nat → AccountObject} {key : PublicKey}
    (hmk : ∀ id, (mk id).name = name) (h : db.registerAccount mk name key = .ok db') :
    name ∉ db.names ∧ db'.names = db.names ++ [name] := by
  simp only [registerAccount, bind_eq_ok, pure_eq_ok] at h
  obtain ⟨db₁, hcreate, rfl⟩ := h
  simp only [createAccount, require_bind_eq_ok, pure_eq_ok] at hcreate
  obtain ⟨hnew, rfl⟩ := hcreate
  rw [hmk, findAccount_eq_none_iff] at hnew
  refine ⟨hnew, ?_⟩
  show (db.accounts.rows ++ [mk db.accounts.nextId]).map (·.name) = _
  rw [List.map_append, List.map_singleton, hmk]
  rfl

theorem witnessUpdate_names {o : WitnessUpdateOperation} (h : db.witnessUpdate o = .ok db') :
    db'.names = db.names := by
  simp only [witnessUpdate, bind_eq_ok] at h
  obtain ⟨_, -, h⟩ := h
  split at h
  · rw [pure_eq_ok] at h
    rw [← h]
    rfl
  · simp only [bind_eq_ok, pure_eq_ok] at h
    obtain ⟨db₁, hfee, rfl⟩ := h
    have hkept : db₁.names = db.names := names_of_core (payFee_core hfee)
    exact hkept

theorem updateProps_names {owner : AccountName} {props : VersionedChainProperties}
    (h : db.updateProps owner props = .ok db') : db'.names = db.names := by
  simp only [updateProps, bind_eq_ok] at h
  obtain ⟨_, -, h⟩ := h
  split at h
  · rw [pure_eq_ok] at h
    rw [← h]
    rfl
  · rw [pure_eq_ok] at h
    rw [← h]
    rfl

theorem spendEnergy_names (db : Db) (energy : Int) : (db.spendEnergy name energy).names = db.names :=
  names_of_core (spendEnergy_core db name energy)

theorem names_of_claims (h : db.Claims db') : db'.names = db.names :=
  names_of_view (view_of_withoutRewards (by decide) h.core)

theorem payAward_names {db₁ db₂ : Db} {tokens total rest : Int} {receiver : AccountName}
    {l : List BeneficiaryRoute} (hparts : payBeneficiaries tokens l 0 db₁ = .ok (total, db₂))
    (hrest : payReceiver receiver rest db₂ = .ok db') : db'.names = db₁.names :=
  names_of_fundsOnly ((payBeneficiaries_fundsOnly l hparts).trans (payReceiver_fundsOnly hrest))

/-! ## Buying accounts -/

theorem buyNow_names {o : BuyAccountOperation} {a buyer : AccountObject}
    (h : db.buyNow o a buyer = .ok db') : db'.names = db.names := by
  simp only [buyNow, bind_eq_ok, pure_eq_ok] at h
  obtain ⟨_, -, _, -, _, -, _, -, _, -, db₁, hpay, db₂, hdebit, db₃, hvest, rfl⟩ := h
  have hpaid := (payPrice_fundsOnly hpay).trans
    ((adjustBalance_fundsOnly hdebit).trans (createVesting_fundsOnly hvest))
  rw [← names_of_fundsOnly hpaid]
  exact Table.map_update db₃.accounts (·.name) o.account _ (·.name) fun _ _ => rfl

theorem buyExisting_names {clock : TimePointSec} {o : BuyAccountOperation}
    {a buyer : AccountObject} (h : db.buyExisting clock o a buyer = .ok db') :
    db'.names = db.names := by
  simp only [buyExisting, bind_eq_ok] at h
  obtain ⟨_, -, _, -, _, -, _, -, h⟩ := h
  split at h
  · exact names_of_view (bidAccount_view (by decide) (by decide) h)
  · exact buyNow_names h

/-! ## Operations that create no account -/

end Db

/-- The operations that may create an account. -/
def Operation.mayCreate : Operation → Bool
  | .transfer _ | .accountCreate _ | .inviteRegistration _ | .buyAccount _ => true
  | _ => false

/-- **Other operations** keep the names. -/
theorem evaluate_names {fc : Fc} {producing : Bool} {clock : TimePointSec} {op : Operation}
    {db db' : Db} (hop : Operation.mayCreate op = false)
    (h : Db.evaluate fc producing clock db op = .ok db') : db'.names = db.names := by
  cases op with
  | vote o => cases h
  | content o => cases h
  | deleteContent o => cases h
  | transfer o => cases hop
  | accountCreate o => cases hop
  | inviteRegistration o => cases hop
  | buyAccount o => cases hop
  | transferToVesting o =>
    simp only [Db.evaluate, Db.transferToVesting, bind_eq_ok] at h
    obtain ⟨_, -, _, -, _, -, db₁, hpay, hvest⟩ := h
    exact Db.names_of_fundsOnly
      ((Db.adjustBalance_fundsOnly hpay).trans (Db.createVesting_fundsOnly hvest))
  | witnessUpdate o => exact Db.witnessUpdate_names h
  | chainPropertiesUpdate o => exact Db.updateProps_names h
  | versionedChainPropertiesUpdate o => exact Db.updateProps_names h
  | useInviteBalance o =>
    simp only [Db.evaluate, Db.useInviteBalance, bind_eq_ok, pure_eq_ok] at h
    obtain ⟨_, -, _, -, _, -, db₁, hvest, rfl⟩ := h
    have hkept : db₁.names = db.names := Db.names_of_fundsOnly (Db.createVesting_fundsOnly hvest)
    exact hkept
  | award o =>
    simp only [Db.evaluate, Db.award, bind_eq_ok] at h
    obtain ⟨_, -, _, -, _, -, _, -, _, -, _, hrshares, ⟨tokens, db₁⟩, hclaim, h⟩ := h
    have hclaims := Db.claimCountedAward_claims (Db.rsharesOf_inInt64 hrshares) hclaim
    rw [← Db.names_of_claims hclaims, ← Db.spendEnergy_names db₁]
    split at h
    · simp only [bind_eq_ok] at h
      obtain ⟨_, -, ⟨total, db₂⟩, hparts, _, -, hrest⟩ := h
      exact Db.payAward_names hparts hrest
    · rw [pure_eq_ok] at h
      rw [← h]
  | fixedAward o =>
    simp only [Db.evaluate, Db.fixedAward, bind_eq_ok] at h
    obtain ⟨quote, hquote, ⟨tokens, db₁⟩, hclaim, _, -, _, -, _, -, _, -, ⟨total, db₂⟩, hparts, _,
      -, db₃, hrest, h⟩ := h
    have hclaims : db.Claims db₁ := .inr ⟨_, _, Db.fixedAwardQuote_inInt64 hquote, hclaim⟩
    rw [← Db.names_of_claims hclaims, ← Db.spendEnergy_names db₁, ← Db.payAward_names hparts hrest]
    split at h
    · exact Db.names_of_core (Db.addCommitteeFund_core h)
    · rw [pure_eq_ok] at h
      rw [← h]
  | accountMetadata o => exact Db.names_of_core (Db.accountMetadataUpdate_core h)
  | custom o => exact Db.names_of_core (Db.custom_core h)
  | escrowTransfer o => exact Db.names_of_core (Db.escrowTransfer_core h)
  | escrowApprove o => exact Db.names_of_core (Db.escrowApprove_core h)
  | escrowDispute o => exact Db.names_of_core (Db.escrowDispute_core h)
  | escrowRelease o => exact Db.names_of_core (Db.escrowRelease_core h)
  | createInvite o => exact Db.names_of_core (Db.createInvite_core h)
  | claimInviteBalance o => exact Db.names_of_core (Db.claimInviteBalance_core h)
  | setSubaccountPrice o => exact Db.names_of_core (Db.setSubaccountPrice_core h)
  | withdrawVesting o => exact Db.names_of_view (Db.withdrawVesting_view (by decide) (by decide) h)
  | setWithdrawVestingRoute o => exact Db.names_of_view (Db.setWithdrawVestingRoute_view (by decide) h)
  | accountUpdate o => exact Db.names_of_view (Db.accountUpdate_view (by decide) (by decide) h)
  | accountWitnessVote o => exact Db.names_of_view (Db.accountWitnessVote_view (by decide) (by decide) h)
  | accountWitnessProxy o => exact Db.names_of_view (Db.accountWitnessProxy_view (by decide) (by decide) h)
  | requestAccountRecovery o => exact Db.names_of_view (Db.requestAccountRecovery_view (by decide) h)
  | recoverAccount o => exact Db.names_of_view (Db.recoverAccount_view (by decide) h)
  | changeRecoveryAccount o => exact Db.names_of_view (Db.changeRecoveryAccount_view (by decide) h)
  | delegateVestingShares o =>
    exact Db.names_of_view (Db.delegateVestingShares_view (by decide) (by decide) h)
  | setAccountPrice o => exact Db.names_of_view (Db.setAccountPrice_view (by decide) (by decide) h)
  | targetAccountSale o => exact Db.names_of_view (Db.targetAccountSale_view (by decide) (by decide) h)
  | proposalDelete o =>
    simp only [Db.evaluate, Db.proposalDelete, bind_eq_ok, pure_eq_ok] at h
    obtain ⟨p, -, _, -, rfl⟩ := h
    rfl
  | committeeWorkerCreateRequest o =>
    exact Db.names_of_view
      (Db.view_of_withoutRequests (by decide) (Db.committeeWorkerCreateRequest_core h))
  | committeeWorkerCancelRequest o =>
    exact Db.names_of_view
      (Db.view_of_withoutRequests (by decide) (Db.committeeWorkerCancelRequest_core h))
  | committeeVoteRequest o =>
    exact Db.names_of_view (Db.view_of_withoutRequests (by decide) (Db.committeeVoteRequest_core h))
  | setPaidSubscription o =>
    exact Db.names_of_view (Db.view_of_withoutSubscribes (by decide) (Db.setPaidSubscription_core h))
  | paidSubscribe o =>
    exact Db.names_of_view (Db.view_of_withoutSubscribes (by decide) (Db.paidSubscribe_core h))
  | proposalCreate => cases h
  | proposalUpdate o => cases h

/-! ## New names -/

/-- The creator or initiator that an operation names. -/
def Operation.creator? : Operation → Option AccountName
  | .accountCreate o => some o.creator
  | .inviteRegistration o => some o.initiator
  | _ => none

/-- The rules for the name of a new account. -/
structure NewName (db : Db) (op : Operation) (name : AccountName) : Prop where
  valid : isValidAccountName name = true
  length : isValidCreateAccountName name = true
  free : db.findAccount name = none
  parent : ∀ label parent, splitAtFirst '.' name = some (label, parent) →
    ∃ a, db.findAccount parent = some a ∧
      (parent ∈ Operation.creator? op ∨ parent = "anonymous" ∨ a.subaccountOnSale = true)

/-- An invite or a memo asks for a name of three bytes or more. -/
def Operation.LongName (fc : Fc) : Operation → Prop
  | .inviteRegistration o => 3 ≤ o.newAccountName.utf8ByteSize
  | .transfer o => ∀ login key, splitAtFirst ':' (fc.trim o.memo) = some (login, key) →
    3 ≤ login.utf8ByteSize
  | _ => True

theorem stoi_bounds {s : String} {n : Int} (h : stoi s = .ok n) : -2 ^ 31 ≤ n ∧ n < 2 ^ 31 := by
  simp only [stoi, bind_eq_ok, require_eq_ok, pure_eq_ok] at h
  obtain ⟨_, -, _, hbounds, rfl⟩ := h
  exact hbounds

/-- A name with every property but perhaps the length. -/
theorem NewName.iff_of_length {db : Db} {op : Operation} {name : AccountName}
    (hvalid : isValidAccountName name = true) (hfree : name ∉ db.names)
    (hparent : ∀ label parent, splitAtFirst '.' name = some (label, parent) →
      ∃ a, db.findAccount parent = some a ∧
        (parent ∈ Operation.creator? op ∨ parent = "anonymous" ∨ a.subaccountOnSale = true)) :
    NewName db op name ↔ 3 ≤ name.utf8ByteSize := by
  constructor
  · intro h
    exact (isValidCreateAccountName_iff hvalid).1 h.length
  · intro hlong
    exact ⟨hvalid, (isValidCreateAccountName_iff hvalid).2 hlong,
      Db.findAccount_eq_none_iff.2 hfree, hparent⟩

/-- At most one name is new, and it follows the rules exactly when `P` holds. -/
def Names (db db' : Db) (op : Operation) (P : Prop) : Prop :=
  ∃ created, db'.names = db.names ++ created ∧ created.length ≤ 1 ∧
    ∀ name ∈ created, (NewName db op name ↔ P)

theorem Names.of_same {db db' : Db} {op : Operation} {P : Prop} (h : db'.names = db.names) :
    Names db db' op P :=
  ⟨[], h.trans (List.append_nil _).symm, Nat.zero_le 1, fun _ hmem => nomatch hmem⟩

theorem Names.of_new {db db' : Db} {op : Operation} {P : Prop} {name : AccountName}
    (h : db'.names = db.names ++ [name]) (hname : NewName db op name ↔ P) : Names db db' op P := by
  refine ⟨[name], h, Nat.le_refl 1, ?_⟩
  intro x hx
  rw [List.mem_singleton.1 hx]
  exact hname

namespace Db

variable {fc : Fc} {db db' : Db}

theorem accountCreate_newName {o : AccountCreateOperation} (hv : o.validate fc = .ok ())
    (h : db.accountCreate o = .ok db') : Names db db' (.accountCreate o) True := by
  simp only [AccountCreateOperation.validate, validateCreateAccountName, validateAccountName,
    validateDomainName, bind_eq_ok, fcAssert_eq_ok] at hv
  obtain ⟨_, hlong, _, hvalid, _, -, _, hdomain, -⟩ := hv
  obtain ⟨creator, db₁, minTime, hcreator, hfree, -, -, hcore, hrest⟩ := accountCreate_core h
  have hopened : db₁.names = db.names ++ [o.newAccountName] := by
    have hkept (delegated : Int) := Table.map_update db.core.accounts (·.name) o.creator
      (·.withDelegated delegated) (·.name) fun _ _ => rfl
    rw [names_core, names_core, hcore]
    unfold Core.openAccount
    split
    all_goals
      dsimp only [Table.create]
      rw [List.map_append, List.map_singleton, hkept]
      rfl
  have hnames : db'.names = db.names ++ [o.newAccountName] := by
    rcases hrest with hvest | rfl
    · rw [names_of_fundsOnly (createVesting_fundsOnly hvest), hopened]
    · exact hopened
  refine .of_new hnames (iff_true_intro ⟨hvalid, hlong, hfree, ?_⟩)
  intro label parent hsplit
  rw [isValidDomainName_iff.1 hdomain label parent hsplit]
  exact ⟨creator, hcreator, .inl rfl⟩

theorem inviteRegistration_newName {o : InviteRegistrationOperation}
    (hv : Operation.validate fc (.inviteRegistration o) = .ok ())
    (h : inviteRegistration fc db o = .ok db') :
    Names db db' (.inviteRegistration o) (3 ≤ o.newAccountName.utf8ByteSize) := by
  simp only [Operation.validate, validateAccountName, validateDomainName, bind_eq_ok,
    fcAssert_eq_ok] at hv
  obtain ⟨_, -, _, hvalid, hdomain⟩ := hv
  simp only [inviteRegistration, getAccount, bind_eq_ok, getOrThrow_eq_ok, pure_eq_ok] at h
  obtain ⟨initiator, hinitiator, invite, -, db₁, hregister, db₂, hvest, rfl⟩ := h
  obtain ⟨hfree, hnew⟩ := names_registerAccount (fun _ => rfl) hregister
  have hkept : db₂.names = db₁.names := names_of_fundsOnly (createVesting_fundsOnly hvest)
  have hnames : db₂.names = db.names ++ [o.newAccountName] := hkept.trans hnew
  refine .of_new hnames (NewName.iff_of_length hvalid hfree ?_)
  intro label parent hsplit
  rw [isValidDomainName_iff.1 hdomain label parent hsplit]
  exact ⟨initiator, hinitiator, .inl rfl⟩

/-- The name that a memo asks for. -/
theorem anonymousAccount_newName {db₁ : Db} {memo : String} {name : AccountName} {key : PublicKey}
    {op : Operation} (hany : (db.findAccount "anonymous").isSome = true)
    (hfree : name ∉ db.names) (h : anonymousAccount fc db₁ memo = .ok (name, key, db')) :
    NewName db op name ↔
      ∀ login key, splitAtFirst ':' (fc.trim memo) = some (login, key) → 3 ≤ login.utf8ByteSize := by
  obtain ⟨a, ha⟩ := Option.isSome_iff_exists.1 hany
  unfold anonymousAccount at h
  split at h
  · rename_i login text hsplit
    simp only [bind_eq_ok, fcAssert_eq_ok, pure_eq_ok, Prod.mk.injEq] at h
    obtain ⟨_, -, _, hdomain, _, hvalid, _, -, rfl, -, -⟩ := h
    have hname : NewName db op login ↔ 3 ≤ login.utf8ByteSize := by
      refine NewName.iff_of_length hvalid hfree ?_
      intro label parent hparent
      rw [isValidDomainName_iff.1 hdomain label parent hparent]
      exact ⟨a, ha, .inr (.inl rfl)⟩
    rw [hname]
    constructor
    · intro hlong login' key' heq
      rw [hsplit] at heq
      cases heq
      exact hlong
    · intro hall
      exact hall login text hsplit
  · rename_i hnone
    simp only [bind_eq_ok, pure_eq_ok, Prod.mk.injEq] at h
    obtain ⟨_, -, record, -, num, hnum, rfl, -, -⟩ := h
    obtain ⟨hlow, hhigh⟩ := stoi_bounds hnum
    have hvalid := isValidAccountName_numbered (k := num + 1) (by omega) (by omega)
    have hdot := splitAtFirst_numbered (num + 1)
    have hlong := length_of_dot hvalid (mem_of_splitAtFirst hdot)
    refine iff_of_true ((NewName.iff_of_length hvalid hfree ?_).2 (by omega)) ?_
    · intro label parent hparent
      rw [hdot] at hparent
      cases hparent
      exact ⟨a, ha, .inr (.inl rfl)⟩
    · intro login key' heq
      rw [hnone] at heq
      cases heq

theorem transfer_newName {o : TransferOperation} (h : transfer fc db o = .ok db') :
    Names db db' (.transfer o) (Operation.LongName fc (.transfer o)) := by
  simp only [transfer, getAccount, bind_eq_ok, getOrThrow_eq_ok] at h
  obtain ⟨sender, -, receiver, hreceiver, _, -, _, -, db₁, hfrom, db₂, hto, h⟩ := h
  have hpaid : db₂.names = db.names :=
    names_of_fundsOnly ((adjustBalance_fundsOnly hfrom).trans (adjustBalance_fundsOnly hto))
  split at h
  · rename_i hany
    rw [hany] at hreceiver
    simp only [createAnonymous, bind_eq_ok] at h
    obtain ⟨_, -, h⟩ := h
    split at h
    · rw [pure_eq_ok] at h
      rw [← h]
      exact .of_same hpaid
    · simp only [bind_eq_ok] at h
      obtain ⟨⟨name, key, db₃⟩, hname, db₄, hregister, db₅, hpay, hvest⟩ := h
      obtain ⟨hfree, hnew⟩ := names_registerAccount (fun _ => rfl) hregister
      have hstored : db₃.names = db₂.names := by
        unfold anonymousAccount at hname
        split at hname
        · simp only [bind_eq_ok, pure_eq_ok, Prod.mk.injEq] at hname
          obtain ⟨_, -, _, -, _, -, _, -, -, -, rfl⟩ := hname
          rfl
        · simp only [bind_eq_ok, pure_eq_ok, Prod.mk.injEq] at hname
          obtain ⟨_, -, _, -, _, -, -, -, rfl⟩ := hname
          exact names_of_core (storeAccountJsonMetadata_core db₂ _ _ _)
      have hkept : db'.names = db₄.names :=
        names_of_fundsOnly ((adjustBalance_fundsOnly hpay).trans (createVesting_fundsOnly hvest))
      rw [hstored, hpaid] at hfree hnew
      have hfound : (db.findAccount "anonymous").isSome = true := by
        rw [hreceiver]
        rfl
      exact .of_new (hkept.trans hnew) (anonymousAccount_newName hfound hfree hname)
  · rw [pure_eq_ok] at h
    rw [← h]
    exact .of_same hpaid

theorem buyAccount_newName {clock : TimePointSec} {o : BuyAccountOperation}
    (hfc : fc.KeepsUnblank) (hv : o.validate = .ok ())
    (h : buyAccount fc clock db o = .ok db') : Names db db' (.buyAccount o) True := by
  simp only [BuyAccountOperation.validate, List.forM_eq_forM, List.forM_cons, validateAccountName,
    bind_eq_ok, fcAssert_eq_ok] at hv
  obtain ⟨_, ⟨_, -, _, hvalid, -⟩, -⟩ := hv
  simp only [buyAccount, bind_eq_ok] at h
  obtain ⟨buyer, -, _, -, _, -, h⟩ := h
  split at h
  · exact .of_same (buyExisting_names h)
  · have htrim : fc.trim o.account = o.account := hfc o.account (isBlank_of_valid hvalid)
    simp only [buySubaccount, htrim, bind_eq_ok, getOrThrow_eq_ok, fcAssert_eq_ok] at h
    obtain ⟨⟨label, parent⟩, hsplit, a, ha, _, -, _, -, _, -, _, hsale, _, -, _, -, _, -, _, -, db₁,
      hpay, db₂, hregister, db₃, hdebit, hvest⟩ := h
    obtain ⟨hfree, hnew⟩ := names_registerAccount (fun _ => rfl) hregister
    have hkept : db'.names = db₂.names :=
      names_of_fundsOnly ((adjustBalance_fundsOnly hdebit).trans (createVesting_fundsOnly hvest))
    rw [names_of_fundsOnly (payPrice_fundsOnly hpay)] at hfree hnew
    refine .of_new (hkept.trans hnew) (iff_true_intro ?_)
    have hlong := length_of_dot hvalid (mem_of_splitAtFirst hsplit)
    refine (NewName.iff_of_length hvalid hfree ?_).2 (by omega)
    intro label' parent' hparent
    rw [hsplit] at hparent
    cases hparent
    exact ⟨a, ha, .inr (.inr hsale)⟩

end Db

/-- **New names.**  A new name follows the rules for new accounts exactly when the operation is no
invite or memo that asks for a shorter name. -/
theorem evaluate_newName_iff {fc : Fc} (hfc : fc.KeepsUnblank) {producing : Bool}
    {clock : TimePointSec} {op : Operation} {db db' : Db} (hv : op.validate fc = .ok ())
    (h : Db.evaluate fc producing clock db op = .ok db') :
    Names db db' op (Operation.LongName fc op) := by
  by_cases hop : Operation.mayCreate op = false
  · exact .of_same (evaluate_names hop h)
  · cases op with
    | transfer o => exact Db.transfer_newName h
    | accountCreate o => exact Db.accountCreate_newName hv h
    | inviteRegistration o => exact Db.inviteRegistration_newName hv h
    | buyAccount o => exact Db.buyAccount_newName hfc hv h
    | _ => exact absurd rfl hop

/-- The texts of keys, with one key. -/
def keyFc : Fc :=
  { smallEnv.fc with
    parsePublicKey := fun s =>
      if s = "VIZ6Yt7d6LsngBoXQr47aLv97bJVs7jyr7esZTM4UUSpLUf3nbRKS" then some 5 else none }

/-- bob asks for the account `login`. -/
def orderedAccount (login : String) : TransferOperation :=
  { fromAccount := "bob", toAccount := "anonymous", amount := ⟨1000, tokenSymbol⟩
    memo := login ++ ":VIZ6Yt7d6LsngBoXQr47aLv97bJVs7jyr7esZTM4UUSpLUf3nbRKS" }

def orderDb : Db := (smallStore [{ id := 4, name := "bob", balance := 5000 }]).db

theorem evaluate_newName_iff_ordered :
    ∃ db', Db.evaluate keyFc false 33 orderDb (.transfer (orderedAccount "abc")) = .ok db' ∧
      "abc" ∈ db'.names ∧ NewName orderDb (.transfer (orderedAccount "abc")) "abc" := by
  have hrun : returns (Db.evaluate keyFc false 33 orderDb (.transfer (orderedAccount "abc")))
      (fun d => d.names = orderDb.names ++ ["abc"]) = true := by decide +kernel
  have hvalid : Operation.validate keyFc (.transfer (orderedAccount "abc")) = .ok () := by
    decide +kernel
  obtain ⟨db', hdb', hcheck⟩ := returns_eq_true hrun
  have hnames := of_decide_eq_true hcheck
  have hkeys : keyFc.KeepsUnblank := fun _ _ => rfl
  obtain ⟨created, hcreated, -, hall⟩ := evaluate_newName_iff hkeys hvalid hdb'
  rw [hnames] at hcreated
  have hmem : "abc" ∈ created := by
    rw [← List.append_cancel_left hcreated]
    exact List.mem_singleton_self _
  refine ⟨db', hdb', ?_, (hall "abc" hmem).2 ?_⟩
  · rw [hnames]
    exact List.mem_append_right _ (List.mem_singleton_self _)
  · have hsplit : splitAtFirst ':' (keyFc.trim (orderedAccount "abc").memo) =
        some ("abc", "VIZ6Yt7d6LsngBoXQr47aLv97bJVs7jyr7esZTM4UUSpLUf3nbRKS") := by decide +kernel
    intro login key heq
    rw [hsplit] at heq
    cases heq
    decide

/-- A memo creates an account with a name of two bytes. -/
theorem transfer_short_name :
    ∃ db', Operation.validate keyFc (.transfer (orderedAccount "ab")) = .ok () ∧
      Db.evaluate keyFc false 33 orderDb (.transfer (orderedAccount "ab")) = .ok db' ∧
      db'.names = orderDb.names ++ ["ab"] ∧ isValidCreateAccountName "ab" = false ∧
      ¬ NewName orderDb (.transfer (orderedAccount "ab")) "ab" := by
  have hrun : returns (Db.evaluate keyFc false 33 orderDb (.transfer (orderedAccount "ab")))
      (fun d => d.names = orderDb.names ++ ["ab"]) = true := by decide +kernel
  have hvalid : Operation.validate keyFc (.transfer (orderedAccount "ab")) = .ok () := by
    decide +kernel
  have hshort : isValidCreateAccountName "ab" = false := by decide +kernel
  obtain ⟨db', hdb', hcheck⟩ := returns_eq_true hrun
  refine ⟨db', hvalid, hdb', of_decide_eq_true hcheck, hshort, ?_⟩
  intro hname
  have hlong := hname.length
  rw [hshort] at hlong
  cases hlong

end VizCore.Chain
