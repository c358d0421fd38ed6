import VizCore.Chain.Flow

/-!
# Accounts, recovery and delegation

Evaluators that create accounts, change their authorities and delegate vesting
shares.

* `accountCreate_flow`: the creation fee becomes shares of the new account;
* the other evaluators of this module do not touch the ledger.
-/

namespace VizCore.Chain

open VizCore.Lib VizCore.Protocol

namespace Db

/-- Every account that an authority names exists. -/
def checkAuthorityAccounts (db : Db) (auth : Authority) : Result Unit :=
  auth.accountAuths.forM fun item => do
    let _ ← db.getAccount item.1

def createDelegation (db : Db) (delegator delegatee : AccountName) (shares : Int)
    (minTime : TimePointSec) : Result Db := do
  require ((db.vestingDelegations.get (fun d => (d.delegator, d.delegatee))
    (delegator, delegatee)).isNone) (Exception.duplicateKey "vesting_delegation by_delegation")
  return { db with
    vestingDelegations := db.vestingDelegations.create fun id =>
      ⟨id, delegator, delegatee, shares, minTime⟩ }

/-- The creator's delegation to the new account, if there is one. -/
def delegateToNewAccount (db : Db) (o : AccountCreateOperation) (minTime : TimePointSec) :
    Result Db :=
  if 0 < o.delegation.amount then
    db.createDelegation o.creator o.newAccountName o.delegation.amount minTime
  else .ok db

/-- `account_create_evaluator::do_apply` -/
def accountCreate (db : Db) (o : AccountCreateOperation) : Result Db := do
  let creator ← db.getAccount o.creator
  let now := db.headBlockTime
  fcAssert (o.fee.amount ≤ creator.balance) "Insufficient balance to create account."
  let available ← creator.availableVestingShares true
  fcAssert (o.delegation.amount ≤ available)
    "Insufficient vesting shares to delegate to new account."
  fcAssert (0 < o.delegation.amount → 0 ≤ creator.currentEnergy now)
    "Cannot delegate with negative energy."
  let props := db.medianProps
  let targetTokens ← safeMul props.accountCreationFee.amount props.createAccountDelegationRatio
  let target ← db.tokensToShares targetTokens
  let currentTokens ← safeMul o.fee.amount props.createAccountDelegationRatio
  let current ← db.tokensToShares currentTokens
  let current ← safeAdd current o.delegation.amount
  fcAssert (target ≤ current) "Inssufficient Delegation $\x7bf\x7d required, $\x7bp\x7d provided."
  db.checkAuthorityAccounts o.master
  db.checkAuthorityAccounts o.active
  db.checkAuthorityAccounts o.regular
  let db ← db.sharesSenderRecalcEnergy o.creator o.delegation.amount
  let creator ← db.getAccount o.creator
  let balance ← safeSub creator.balance o.fee.amount
  let delegated ← safeAdd creator.delegatedVestingShares o.delegation.amount
  let db := db.modifyAccount o.creator fun c =>
    { c with balance := balance, delegatedVestingShares := delegated }
  require (o.referrer ≠ "" → (db.findAccount o.referrer).isSome)
    (Exception.unknownKey "account by_name")
  let db ← db.createAccount fun id =>
    { id := id, name := o.newAccountName, memoKey := o.memoKey, created := now
      lastVoteTime := now, recoveryAccount := o.creator
      receivedVestingShares := o.delegation.amount, referrer := o.referrer }
  let db := db.storeAccountJsonMetadata o.newAccountName o.jsonMetadata
  let db := db.createAuthority fun id =>
    { id := id, account := o.newAccountName, master := o.master, active := o.active
      regular := o.regular, lastMasterUpdate := 0 }
  let db ← db.delegateToNewAccount o (now + props.createAccountDelegationTime)
  if 0 < o.fee.amount then db.createVesting o.newAccountName o.fee.amount else return db

/-- The part of an account update that replaces the master authority. -/
def changeMaster (db : Db) (o : AccountUpdateOperation) (lastUpdate : TimePointSec) :
    Result Db :=
  match o.master with
  | none => .ok db
  | some master => do
    fcAssert ((lastUpdate : Int) + 3600 < db.headBlockTime)
      "Master authority can only be updated once an hour."
    db.checkAuthorityAccounts master
    db.updateMasterAuthority o.account master

/-- `account_update_evaluator::do_apply` -/
def accountUpdate (db : Db) (o : AccountUpdateOperation) : Result Db := do
  fcAssert (o.account ≠ "invite") "Cannot update invite account."
  (o.regular.toList).forM Authority.validate
  let _ ← db.getAccount o.account
  let auth ← db.getAuthority o.account
  let db ← db.changeMaster o auth.lastMasterUpdate
  (o.active.toList).forM db.checkAuthorityAccounts
  (o.regular.toList).forM db.checkAuthorityAccounts
  let db := db.modifyAccount o.account fun a =>
    { a with
      memoKey := if o.memoKey = 0 then a.memoKey else o.memoKey
      lastAccountUpdate := db.headBlockTime }
  let db := db.storeAccountJsonMetadata o.account o.jsonMetadata true
  return { db with
    accountAuthorities := db.accountAuthorities.update (·.account) o.account fun a =>
      { a with active := o.active.getD a.active, regular := o.regular.getD a.regular } }

/-- `account_metadata_evaluator::do_apply` -/
def accountMetadataUpdate (db : Db) (o : AccountMetadataOperation) : Result Db := do
  let _ ← db.getAccount o.account
  let db := db.modifyAccount o.account fun a => { a with lastAccountUpdate := db.headBlockTime }
  return db.storeAccountJsonMetadata o.account o.jsonMetadata

/-- The order of `by_vote_name`: more votes first, then by name. -/
def witnessVoteOrder (a b : WitnessObject) : Bool :=
  b.votes < a.votes || (a.votes = b.votes && a.owner < b.owner)

/-- An account without a recovery partner is recovered by the top witness. -/
def checkRecoveryPartner (db : Db) (partner recoveryAccount : AccountName) : Result Unit :=
  if partner ≠ "" then
    fcAssert (partner = recoveryAccount)
      "Cannot recover an account that does not have you as there recovery partner."
  else
    fcAssert (((orderBy witnessVoteOrder db.witnesses.rows).head?.map (·.owner)) =
      some recoveryAccount) "Top witness must recover an account with no recovery partner."

/-- `request_account_recovery_evaluator::do_apply` -/
def requestAccountRecovery (db : Db) (o : RequestAccountRecoveryOperation) : Result Db := do
  let _ ← db.getAccount o.recoveryAccount
  let account ← db.getAccount o.accountToRecover
  db.checkRecoveryPartner account.recoveryAccount o.recoveryAccount
  let expires := db.headBlockTime + 24 * 60 * 60
  match db.accountRecoveryRequests.get (·.accountToRecover) o.accountToRecover with
  | none =>
    fcAssert (!o.newMasterAuthority.isImpossible) "Cannot recover using an impossible authority."
    fcAssert (o.newMasterAuthority.weightThreshold ≠ 0) "Cannot recover using an open authority."
    db.checkAuthorityAccounts o.newMasterAuthority
    return { db with
      accountRecoveryRequests := db.accountRecoveryRequests.create fun id =>
        ⟨id, o.accountToRecover, o.newMasterAuthority, expires⟩ }
  | some request =>
    if o.newMasterAuthority.weightThreshold = 0 then
      return { db with accountRecoveryRequests := db.accountRecoveryRequests.erase (·.id) request.id }
    else
      fcAssert (!o.newMasterAuthority.isImpossible) "Cannot recover using an impossible authority."
      db.checkAuthorityAccounts o.newMasterAuthority
      return { db with
        accountRecoveryRequests := db.accountRecoveryRequests.update (·.id) request.id fun r =>
          { r with newMasterAuthority := o.newMasterAuthority, expires := expires } }

/-- `recover_account_evaluator::do_apply` -/
def recoverAccount (db : Db) (o : RecoverAccountOperation) : Result Db := do
  let account ← db.getAccount o.accountToRecover
  fcAssert ((account.lastAccountRecovery : Int) + 3600 < db.headBlockTime)
    "Master authority can only be updated once an hour."
  let request ← getOrThrow
    (db.accountRecoveryRequests.get (·.accountToRecover) o.accountToRecover)
    (.assertion "There are no active recovery requests for this account.")
  fcAssert (request.newMasterAuthority = o.newMasterAuthority)
    "New master authority does not match recovery request."
  fcAssert (db.masterAuthorityHistory.rows.any fun h =>
    h.account = o.accountToRecover && h.previousMasterAuthority = o.recentMasterAuthority)
    "Recent authority not found in authority history."
  let db := { db with
    accountRecoveryRequests := db.accountRecoveryRequests.erase (·.id) request.id }
  let db ← db.updateMasterAuthority o.accountToRecover o.newMasterAuthority
  return db.modifyAccount o.accountToRecover fun a =>
    { a with
      lastAccountRecovery := db.headBlockTime
      accountSeller := ""
      accountOfferPrice := 0
      accountOnSale := false
      accountOnSaleStartTime := 0 }

/-- `change_recovery_account_evaluator::do_apply` -/
def changeRecoveryAccount (db : Db) (o : ChangeRecoveryAccountOperation) : Result Db := do
  let _ ← db.getAccount o.newRecoveryAccount
  let account ← db.getAccount o.accountToRecover
  let effectiveOn := db.headBlockTime + 30 * 24 * 60 * 60
  match db.changeRecoveryAccountRequests.get (·.accountToRecover) o.accountToRecover with
  | none =>
    return { db with
      changeRecoveryAccountRequests := db.changeRecoveryAccountRequests.create fun id =>
        ⟨id, o.accountToRecover, o.newRecoveryAccount, effectiveOn⟩ }
  | some request =>
    if account.recoveryAccount ≠ o.newRecoveryAccount then
      return { db with
        changeRecoveryAccountRequests :=
          db.changeRecoveryAccountRequests.update (·.id) request.id fun r =>
            { r with recoveryAccount := o.newRecoveryAccount, effectiveOn := effectiveOn } }
    else
      return { db with
        changeRecoveryAccountRequests :=
          db.changeRecoveryAccountRequests.erase (·.id) request.id }

/-! ## Delegation -/

/-- A first delegation between two accounts must reach the minimum. -/
def createIfNew (db : Db) (op : DelegateVestingSharesOperation) (isNew : Bool)
    (minDelegation : Int) : Result Db :=
  if isNew then do
    fcAssert (minDelegation ≤ op.vestingShares.amount)
      "Account must delegate a minimum of $\x7bv\x7d"
    db.createDelegation op.delegator op.delegatee op.vestingShares.amount db.headBlockTime
  else .ok db

/-- The delegator takes on `delta` more delegated shares. -/
def increaseDelegation (db : Db) (op : DelegateVestingSharesOperation) (isNew : Bool)
    (minDelegation delta : Int) : Result Db := do
  let delegator ← db.getAccount op.delegator
  let available ← delegator.availableVestingShares true
  fcAssert (delta ≤ available) "Account does not have enough vesting shares to delegate."
  fcAssert (0 ≤ delegator.currentEnergy db.headBlockTime) "Cannot delegate with negative energy."
  let db ← db.createIfNew op isNew minDelegation
  let db ← db.sharesSenderRecalcEnergy op.delegator delta
  let delegator ← db.getAccount op.delegator
  let delegated ← safeAdd delegator.delegatedVestingShares delta
  return db.modifyAccount op.delegator fun a => { a with delegatedVestingShares := delegated }

/-- Shares taken back stay in limbo until they expire. -/
def decreaseDelegation (db : Db) (op : DelegateVestingSharesOperation)
    (delegation : VestingDelegationObject) (minDelegation delta : Int) : Result Db := do
  fcAssert (op.vestingShares.amount = 0 ∨ minDelegation ≤ op.vestingShares.amount)
    "Delegation must be removed or leave minimum delegation amount of $\x7bv\x7d"
  let back ← safeSub 0 delta
  let expiration := max (db.headBlockTime + energyRegenerationSeconds) delegation.minDelegationTime
  return { db with
    vestingDelegationExpirations := db.vestingDelegationExpirations.create fun id =>
      ⟨id, op.delegator, back, expiration⟩ }

/-- The delegation object follows the new amount; zero removes it. -/
def storeDelegation (db : Db) (delegation : VestingDelegationObject) (shares : Int) : Db :=
  if 0 < shares then
    { db with
      vestingDelegations := db.vestingDelegations.update (·.id) delegation.id fun d =>
        { d with vestingShares := shares } }
  else { db with vestingDelegations := db.vestingDelegations.erase (·.id) delegation.id }

/-- The delegatee receives `delta` more shares. -/
def addReceived (db : Db) (name : AccountName) (delta : Int) : Result Db := do
  let a ← db.getAccount name
  let received ← safeAdd a.receivedVestingShares delta
  return db.modifyAccount name fun a => { a with receivedVestingShares := received }

/-- `delegate_vesting_shares_evaluator::do_apply` -/
def delegateVestingShares (db : Db) (op : DelegateVestingSharesOperation) : Result Db := do
  let _ ← db.getAccount op.delegator
  let _ ← db.getAccount op.delegatee
  let minDelegation ← db.tokensToShares db.medianProps.minDelegation.amount
  match db.vestingDelegations.get (fun d => (d.delegator, d.delegatee))
    (op.delegator, op.delegatee) with
  | none =>
    fcAssert (op.vestingShares.amount ≠ 0) "Delegation did not exist for initiate revoke."
    -- a negative amount does not pass `validate`
    fcAssert (0 < op.vestingShares.amount) "vesting_shares.amount > 0"
    let db ← db.increaseDelegation op true minDelegation op.vestingShares.amount
    db.addReceived op.delegatee op.vestingShares.amount
  | some delegation =>
    let delta ← safeSub op.vestingShares.amount delegation.vestingShares
    if 0 < delta then
      let db ← db.increaseDelegation op false minDelegation delta
      let db ← db.addReceived op.delegatee delta
      return db.storeDelegation delegation op.vestingShares.amount
    else
      let db ← db.decreaseDelegation op delegation minDelegation delta
      let db ← db.addReceived op.delegatee delta
      return db.storeDelegation delegation op.vestingShares.amount

/-! ## What the evaluators do to the ledger -/

variable {fc : Fc} {g : Prop} {db db' : Db}

theorem storeAccountJsonMetadata_ledger (db : Db) (name : AccountName) (json : String)
    (skipEmpty : Bool) : (db.storeAccountJsonMetadata name json skipEmpty).ledger = db.ledger := by
  unfold storeAccountJsonMetadata
  split
  · rfl
  · split <;> rfl

theorem createDelegation_ledger {delegator delegatee : AccountName} {shares : Int}
    {minTime : TimePointSec} (h : db.createDelegation delegator delegatee shares minTime = .ok db') :
    db'.ledger = db.ledger := by
  simp only [createDelegation, require_bind_eq_ok, pure_eq_ok] at h
  rw [← h.2]
  rfl

theorem delegateToNewAccount_ledger {o : AccountCreateOperation} {minTime : TimePointSec}
    (h : db.delegateToNewAccount o minTime = .ok db') : db'.ledger = db.ledger := by
  unfold delegateToNewAccount at h
  split at h
  · exact createDelegation_ledger h
  · cases h
    rfl

theorem accountCreate_fee_nonneg {o : AccountCreateOperation} (hv : o.validate fc = .ok ()) :
    0 ≤ o.fee.amount := by
  simp only [AccountCreateOperation.validate, bind_eq_ok, fcAssert_eq_ok] at hv
  obtain ⟨_, -, _, -, _, -, _, -, _, -, _, -, _, hfee, -⟩ := hv
  exact hfee

theorem accountCreate_flow {o : AccountCreateOperation} (hv : o.validate fc = .ok ())
    (h : db.accountCreate o = .ok db') : Flow fc db.Ready 0 0 db db' := by
  have hfee := accountCreate_fee_nonneg hv
  simp only [accountCreate, getAccount, bind_eq_ok, getOrThrow_eq_ok, fcAssert_eq_ok,
    require_eq_ok, safeSub_eq_ok] at h
  obtain ⟨creator, hcreator, _, hcover, _, -, _, -, _, -, _, -, _, -, _, -, _, -, _, -, _, -, _, -,
    _, -, _, -, db₁, hrecalc, creator', hcreator', _, ⟨-, rfl⟩, delegated, -, _, -, db₂, hcreate,
    db₃, hdelegate, h⟩ := h
  have hl₁ := sharesSenderRecalcEnergy_ledger hrecalc
  obtain ⟨_, hsame, hpurse⟩ := findAccount_of_ledger_eq hl₁ hcreator'
  rw [hcreator] at hsame
  cases hsame
  have hbalance : creator.balance = creator'.balance := congrArg Purse.balance hpurse
  have hpay : Flow fc db.Ready (-o.fee.amount) 0 db₁ db₂ := by
    refine Flow.then_neutral ?_ (createAccount_flow hcreate fun _ => rfl)
    exact modifyAccount_pay hcreator' _ _ (fun _ => rfl) fun _ _ => by omega
  have hmeta := storeAccountJsonMetadata_ledger db₂ o.newAccountName o.jsonMetadata false
  have hdeleg := delegateToNewAccount_ledger hdelegate
  have hbefore : Flow fc db.Ready (-o.fee.amount) 0 db db₃ :=
    (hpay.after_same hl₁).then_same (hdeleg.trans hmeta)
  split at h
  · have hvest : Flow fc db.Ready o.fee.amount 0 db₃ db' := by
      refine createVesting_flow h fun hg _ => ⟨hfee, ?_⟩
      exact hcover.trans (hg.balance_le hcreator)
    exact (hbefore.trans hvest).cast (by omega) rfl
  · rename_i hzero
    rw [pure_eq_ok] at h
    subst h
    exact hbefore.cast (by omega) rfl

theorem updateMasterAuthority_ledger {name : AccountName} {master : Authority}
    (h : db.updateMasterAuthority name master = .ok db') : db'.ledger = db.ledger := by
  simp only [updateMasterAuthority, bind_eq_ok, pure_eq_ok] at h
  obtain ⟨_, -, rfl⟩ := h
  split <;> rfl

theorem changeMaster_ledger {o : AccountUpdateOperation} {lastUpdate : TimePointSec}
    (h : db.changeMaster o lastUpdate = .ok db') : db'.ledger = db.ledger := by
  unfold changeMaster at h
  split at h
  · cases h
    rfl
  · simp only [bind_eq_ok] at h
    obtain ⟨_, -, _, -, h⟩ := h
    exact updateMasterAuthority_ledger h

theorem accountUpdate_ledger {o : AccountUpdateOperation} (h : db.accountUpdate o = .ok db') :
    db'.ledger = db.ledger := by
  simp only [accountUpdate, bind_eq_ok, pure_eq_ok] at h
  obtain ⟨_, -, _, -, _, -, _, -, db₁, hmaster, _, -, _, -, rfl⟩ := h
  let f : AccountObject → AccountObject := fun a =>
    { a with
      memoKey := if o.memoKey = 0 then a.memoKey else o.memoKey
      lastAccountUpdate := db₁.headBlockTime }
  have hmeta := storeAccountJsonMetadata_ledger (db₁.modifyAccount o.account f) o.account
    o.jsonMetadata true
  have hmodify := ledger_modifyAccount_of_same db₁ o.account f fun _ => rfl
  exact (hmeta.trans hmodify).trans (changeMaster_ledger hmaster)

theorem accountMetadataUpdate_ledger {o : AccountMetadataOperation}
    (h : db.accountMetadataUpdate o = .ok db') : db'.ledger = db.ledger := by
  simp only [accountMetadataUpdate, bind_eq_ok, pure_eq_ok] at h
  obtain ⟨_, -, rfl⟩ := h
  rw [storeAccountJsonMetadata_ledger]
  exact ledger_modifyAccount_of_same db o.account _ fun _ => rfl

theorem requestAccountRecovery_ledger {o : RequestAccountRecoveryOperation}
    (h : db.requestAccountRecovery o = .ok db') : db'.ledger = db.ledger := by
  simp only [requestAccountRecovery, bind_eq_ok] at h
  obtain ⟨_, -, _, -, _, -, h⟩ := h
  split at h
  · simp only [bind_eq_ok, pure_eq_ok] at h
    obtain ⟨_, -, _, -, _, -, rfl⟩ := h
    rfl
  · split at h
    · rw [pure_eq_ok] at h
      rw [← h]
      rfl
    · simp only [bind_eq_ok, pure_eq_ok] at h
      obtain ⟨_, -, _, -, rfl⟩ := h
      rfl

theorem recoverAccount_ledger {o : RecoverAccountOperation}
    (h : db.recoverAccount o = .ok db') : db'.ledger = db.ledger := by
  simp only [recoverAccount, bind_eq_ok, pure_eq_ok] at h
  obtain ⟨_, -, _, -, _, -, _, -, _, -, db₁, hmaster, rfl⟩ := h
  have hmodify := ledger_modifyAccount_of_same db₁ o.accountToRecover (fun a =>
    { a with
      lastAccountRecovery := db₁.headBlockTime
      accountSeller := ""
      accountOfferPrice := 0
      accountOnSale := false
      accountOnSaleStartTime := 0 }) fun _ => rfl
  have hauth := updateMasterAuthority_ledger hmaster
  exact hmodify.trans hauth

theorem changeRecoveryAccount_ledger {o : ChangeRecoveryAccountOperation}
    (h : db.changeRecoveryAccount o = .ok db') : db'.ledger = db.ledger := by
  simp only [changeRecoveryAccount, bind_eq_ok] at h
  obtain ⟨_, -, _, -, h⟩ := h
  split at h
  · rw [pure_eq_ok] at h
    rw [← h]
    rfl
  · split at h <;> rw [pure_eq_ok] at h <;> rw [← h] <;> rfl

theorem addReceived_ledger {name : AccountName} {delta : Int}
    (h : db.addReceived name delta = .ok db') : db'.ledger = db.ledger := by
  simp only [addReceived, bind_eq_ok, pure_eq_ok] at h
  obtain ⟨_, -, _, -, rfl⟩ := h
  exact ledger_modifyAccount_of_same db name _ fun _ => rfl

theorem createIfNew_ledger {op : DelegateVestingSharesOperation} {isNew : Bool}
    {minDelegation : Int} (h : db.createIfNew op isNew minDelegation = .ok db') :
    db'.ledger = db.ledger := by
  unfold createIfNew at h
  split at h
  · simp only [bind_eq_ok] at h
    obtain ⟨_, -, h⟩ := h
    exact createDelegation_ledger h
  · cases h
    rfl

theorem increaseDelegation_ledger {op : DelegateVestingSharesOperation} {isNew : Bool}
    {minDelegation delta : Int} (h : db.increaseDelegation op isNew minDelegation delta = .ok db') :
    db'.ledger = db.ledger := by
  simp only [increaseDelegation, bind_eq_ok, pure_eq_ok] at h
  obtain ⟨_, -, _, -, _, -, _, -, db₁, hnew, db₂, hrecalc, _, -, delegated, -, rfl⟩ := h
  have hmodify := ledger_modifyAccount_of_same db₂ op.delegator
    (fun a => { a with delegatedVestingShares := delegated }) fun _ => rfl
  exact hmodify.trans ((sharesSenderRecalcEnergy_ledger hrecalc).trans (createIfNew_ledger hnew))

theorem decreaseDelegation_ledger {op : DelegateVestingSharesOperation}
    {delegation : VestingDelegationObject} {minDelegation delta : Int}
    (h : db.decreaseDelegation op delegation minDelegation delta = .ok db') :
    db'.ledger = db.ledger := by
  simp only [decreaseDelegation, bind_eq_ok, pure_eq_ok] at h
  obtain ⟨_, -, _, -, rfl⟩ := h
  rfl

theorem storeDelegation_ledger (db : Db) (delegation : VestingDelegationObject) (shares : Int) :
    (db.storeDelegation delegation shares).ledger = db.ledger := by
  unfold storeDelegation
  split <;> rfl

theorem delegateVestingShares_ledger {op : DelegateVestingSharesOperation}
    (h : db.delegateVestingShares op = .ok db') : db'.ledger = db.ledger := by
  simp only [delegateVestingShares, bind_eq_ok] at h
  obtain ⟨_, -, _, -, _, -, h⟩ := h
  split at h
  · simp only [bind_eq_ok] at h
    obtain ⟨_, -, _, -, db₁, hincrease, h⟩ := h
    exact (addReceived_ledger h).trans (increaseDelegation_ledger hincrease)
  · simp only [bind_eq_ok] at h
    obtain ⟨delta, -, h⟩ := h
    split at h
    · simp only [bind_eq_ok, pure_eq_ok] at h
      obtain ⟨db₁, hincrease, db₂, hreceived, rfl⟩ := h
      rw [storeDelegation_ledger]
      exact (addReceived_ledger hreceived).trans (increaseDelegation_ledger hincrease)
    · simp only [bind_eq_ok, pure_eq_ok] at h
      obtain ⟨db₁, hdecrease, db₂, hreceived, rfl⟩ := h
      rw [storeDelegation_ledger]
      exact (addReceived_ledger hreceived).trans (decreaseDelegation_ledger hdecrease)

end Db

end VizCore.Chain
