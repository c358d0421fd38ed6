import VizCore.Chain.Aspect

/-!
# Operations and steps that drift

What the operations and steps that change stake or control do to the aspects that they do
not touch.

* `evaluate_drift`: an operation drifts in every aspect that it does not touch;
* `BlockStep.run_drift`: so does every step of a block.
-/

namespace VizCore.Chain

open VizCore.Lib VizCore.Protocol

namespace Db

variable {fc : Fc} {x : Aspect} {db db' : Db} {name : AccountName}

/-! ## Stake and delegation -/

theorem withdrawVesting_view {o : WithdrawVestingOperation} (hx : x ≠ .burdens)
    (hx' : x ≠ .powerDowns) (h : db.withdrawVesting o = .ok db') : db'.view x = db.view x := by
  simp only [withdrawVesting, bind_eq_ok] at h
  obtain ⟨account, -, _, -, available, -, _, -, _, -, h⟩ := h
  split at h
  · simp only [bind_eq_ok, pure_eq_ok] at h
    obtain ⟨_, -, rfl⟩ := h
    refine view_modifyAccount_of_same x db o.account _ fun a => ?_
    cases x with
    | burdens => exact absurd rfl hx
    | powerDowns => exact absurd rfl hx'
    | _ => rfl
  · simp only [bind_eq_ok, pure_eq_ok] at h
    obtain ⟨share, -, _, -, rfl⟩ := h
    refine view_modifyAccount_of_same x db o.account _ fun a => ?_
    cases x with
    | burdens => exact absurd rfl hx
    | powerDowns => exact absurd rfl hx'
    | _ => rfl

theorem view_setRoutes (hx : x ≠ .routes) (db : Db) (t : Table WithdrawVestingRouteObject) :
    ({ db with withdrawVestingRoutes := t } : Db).view x = db.view x := by
  cases x with
  | routes => exact absurd rfl hx
  | _ => rfl

theorem changeRouteCount_view (db : Db) (f : Nat → Nat) :
    (db.changeRouteCount name f).view x = db.view x :=
  view_of_core (core_modifyAccount_of_same db name _ fun _ => rfl)

theorem setWithdrawVestingRoute_view {o : SetWithdrawVestingRouteOperation} (hx : x ≠ .routes)
    (h : db.setWithdrawVestingRoute o = .ok db') : db'.view x = db.view x := by
  simp only [setWithdrawVestingRoute, bind_eq_ok, pure_eq_ok] at h
  obtain ⟨sender, -, receiver, -, db₁, hstore, _, -, rfl⟩ := h
  unfold storeRoute at hstore
  split at hstore
  · simp only [bind_eq_ok, pure_eq_ok] at hstore
    obtain ⟨_, -, _, -, rfl⟩ := hstore
    rw [changeRouteCount_view]
    exact view_setRoutes hx db _
  · split at hstore
    · rw [pure_eq_ok] at hstore
      rw [← hstore, changeRouteCount_view]
      exact view_setRoutes hx db _
    · rw [pure_eq_ok] at hstore
      rw [← hstore]
      exact view_setRoutes hx db _

end Db

/-- The core after `account_create`, before the fee is vested. -/
def Core.openAccount (c : Core) (o : AccountCreateOperation) (delegated : Int)
    (minTime : TimePointSec) : Core :=
  { c with
    accounts := (c.accounts.update (·.name) o.creator (·.withDelegated delegated)).create fun id =>
      { AccountCore.fresh id o.newAccountName o.creator o.memoKey with
        received := o.delegation.amount }
    authorities := c.authorities.create fun id =>
      ⟨id, o.newAccountName, o.master, o.active, o.regular, 0⟩
    delegations := if 0 < o.delegation.amount then
        c.delegations.create fun id => ⟨id, o.creator, o.newAccountName, o.delegation.amount, minTime⟩
      else c.delegations }

namespace Db

variable {fc : Fc} {x : Aspect} {db db' : Db} {name : AccountName}

/-- Where the cores agree, the accounts that are found agree. -/
theorem findAccount_of_core {db₁ : Db} {a b : AccountObject} (h : db₁.core = db.core)
    (ha : db.findAccount name = some a) (hb : db₁.findAccount name = some b) :
    b.core = a.core := by
  have hget := find_core db₁ name
  rw [h, find_core, ha, hb] at hget
  exact (Option.some.inj hget).symm

theorem createDelegation_core {delegator delegatee : AccountName} {shares : Int}
    {minTime : TimePointSec} (h : db.createDelegation delegator delegatee shares minTime = .ok db') :
    db'.core = { db.core with
      delegations := db.core.delegations.create fun id => ⟨id, delegator, delegatee, shares, minTime⟩ } := by
  simp only [createDelegation, require_bind_eq_ok, pure_eq_ok] at h
  rw [← h.2]
  rfl

/-- **Creating an account.** -/
theorem accountCreate_core {o : AccountCreateOperation} (h : db.accountCreate o = .ok db') :
    ∃ creator db₁ minTime, db.findAccount o.creator = some creator ∧
      db.findAccount o.newAccountName = none ∧ o.fee.amount ≤ creator.balance ∧
      o.delegation.amount ≤ creator.vestingShares - creator.delegatedVestingShares -
        (creator.toWithdraw - creator.withdrawn) ∧
      db₁.core = db.core.openAccount o (creator.delegatedVestingShares + o.delegation.amount) minTime ∧
      (db₁.createVesting o.newAccountName o.fee.amount = .ok db' ∨ db' = db₁) := by
  simp only [accountCreate, AccountObject.availableVestingShares, getAccount, bind_eq_ok,
    getOrThrow_eq_ok, safeSub_eq_ok, safeAdd_eq_ok, fcAssert_eq_ok, if_true] at h
  obtain ⟨creator, hcreator, _, hcover, _, ⟨_, ⟨-, rfl⟩, _, ⟨-, rfl⟩, -, rfl⟩, _, havailable, _, -, _, -, _,
    -, _, -, _, -, _, -, _, -, _, -, _, -, _, -, db₁, hrecalc, creator', hcreator', balance, -, _,
    ⟨-, rfl⟩, _, -, db₃, hcreate, db₄, hdelegate, h⟩ := h
  have hcore₁ := sharesSenderRecalcEnergy_core hrecalc
  have hcreator₁ : creator'.delegatedVestingShares = creator.delegatedVestingShares :=
    congrArg AccountCore.delegated (findAccount_of_core hcore₁ hcreator hcreator')
  rw [hcreator₁] at hcreate
  generalize hsum : creator.delegatedVestingShares + o.delegation.amount = delegated at hcreate
  generalize db.headBlockTime + db.medianProps.createAccountDelegationTime = minTime at hdelegate
  generalize hdebit : db₁.modifyAccount o.creator _ = db₂ at hcreate
  have hcore₂ : db₂.core = { db.core with
      accounts := db.core.accounts.update (·.name) o.creator (·.withDelegated delegated) } := by
    rw [← hdebit, ← hcore₁]
    exact core_modifyAccount db₁ o.creator _ _ fun _ => rfl
  obtain ⟨hnew, hcore₃⟩ := @core_createAccount _ _ o.newAccountName _
    (fun id => { AccountCore.fresh id o.newAccountName o.creator o.memoKey with
      received := o.delegation.amount }) (fun _ => rfl) (fun _ => rfl) hcreate
  have hfree : db.findAccount o.newAccountName = none := by
    have hget := find_core db₂ o.newAccountName
    rw [hnew, hcore₂] at hget
    have hnone := (Table.get_update_eq_none db.core.accounts (·.name) o.creator o.newAccountName
      (·.withDelegated delegated) fun _ => rfl).1 hget
    rw [find_core] at hnone
    exact Option.map_eq_none_iff.1 hnone
  have hmeta := storeAccountJsonMetadata_core db₃ o.newAccountName o.jsonMetadata false
  refine ⟨creator, db₄, minTime, hcreator, hfree, hcover, havailable, ?_, ?_⟩
  · generalize hauth : (db₃.storeAccountJsonMetadata _ _).createAuthority _ = db₅ at hdelegate
    have hcore₅ : db₅.core = { db₃.core with
        authorities := db₃.core.authorities.create fun id =>
          ⟨id, o.newAccountName, o.master, o.active, o.regular, 0⟩ } := by
      rw [← hauth, ← hmeta]
      rfl
    rw [hcore₃, hcore₂] at hcore₅
    rw [hsum]
    unfold delegateToNewAccount at hdelegate
    unfold Core.openAccount
    split at hdelegate
    · rename_i hpos
      rw [createDelegation_core hdelegate, hcore₅, if_pos hpos]
    · rename_i hpos
      cases hdelegate
      rw [hcore₅, if_neg hpos]
  · split at h
    · exact .inl h
    · rw [pure_eq_ok] at h
      exact .inr h.symm

theorem accountCreate_drift {o : AccountCreateOperation} (hx : x ≠ .loans) (hx' : x ≠ .burdens)
    (h : db.accountCreate o = .ok db') : Drift x (db.VestsUp o.fee.amount) db db' := by
  obtain ⟨creator, db₁, minTime, -, hnew, -, -, hcore, hvest⟩ := accountCreate_core h
  generalize creator.delegatedVestingShares + o.delegation.amount = delegated at hcore
  have hdelegated : (db.core.accounts.update (·.name) o.creator (·.withDelegated delegated)).image
      x.row = db.core.accounts.image x.row := by
    refine Table.image_update_of_same _ _ _ _ _ fun a => ?_
    cases x with
    | loans => exact absurd rfl hx
    | burdens => exact absurd rfl hx'
    | _ => rfl
  have hrow (id : Nat) : x.row { AccountCore.fresh id o.newAccountName o.creator o.memoKey with
      received := o.delegation.amount } = 
        x.row (.fresh id o.newAccountName o.creator o.memoKey) := by
    cases x with
    | loans => exact absurd rfl hx
    | _ => rfl
  have hview : db₁.view x = (db.core.register o.newAccountName o.creator o.memoKey fun id =>
      ⟨id, o.newAccountName, o.master, o.active, o.regular, 0⟩).view x := by
    unfold view
    rw [hcore]
    show Aspect.View.mk (Table.image (Table.create _ _) x.row) _ =
      Aspect.View.mk (Table.image (Table.create _ _) x.row) _
    rw [Table.image_create, Table.image_create, hdelegated]
    simp only [hrow]
    cases x with
    | loans => exact absurd rfl hx
    | _ => rfl
  have hregister : Drift x (db.VestsUp o.fee.amount) db db₁ :=
    .single (.register o.newAccountName o.creator o.memoKey _ (fun _ => rfl) hnew hview)
  rcases hvest with hvest | rfl
  · refine hregister.trans (.single (.vest _ _ (fun hg => ?_) hvest))
    have hfund := congrArg Core.totalFund hcore
    have hshares := congrArg Core.totalShares hcore
    exact hg.of_totals hfund hshares
  · exact hregister

/-- Delegations show in one aspect only. -/
theorem view_setDelegations (hx : x ≠ .loans) (db : Db) (t : Table VestingDelegationObject)
    (e : Table VestingDelegationExpirationObject) :
    ({ db with vestingDelegations := t, vestingDelegationExpirations := e } : Db).view x =
      db.view x := by
  cases x with
  | loans => exact absurd rfl hx
  | _ => rfl

theorem createIfNew_view {op : DelegateVestingSharesOperation} {isNew : Bool} {minDelegation : Int}
    (hx : x ≠ .loans) (h : db.createIfNew op isNew minDelegation = .ok db') :
    db'.view x = db.view x := by
  unfold createIfNew at h
  split at h
  · simp only [createDelegation, bind_eq_ok, require_eq_ok, pure_eq_ok] at h
    obtain ⟨_, -, _, -, rfl⟩ := h
    exact view_setDelegations hx db _ db.vestingDelegationExpirations
  · cases h
    rfl

theorem increaseDelegation_view {op : DelegateVestingSharesOperation} {isNew : Bool}
    {minDelegation delta : Int} (hx : x ≠ .loans) (hx' : x ≠ .burdens)
    (h : db.increaseDelegation op isNew minDelegation delta = .ok db') :
    db'.view x = db.view x := by
  simp only [increaseDelegation, bind_eq_ok, pure_eq_ok] at h
  obtain ⟨_, -, _, -, _, -, _, -, db₁, hnew, db₂, henergy, _, -, delegated, -, rfl⟩ := h
  rw [← createIfNew_view hx hnew, ← view_of_core (sharesSenderRecalcEnergy_core henergy)]
  refine view_modifyAccount_of_same x db₂ op.delegator _ fun a => ?_
  cases x with
  | loans => exact absurd rfl hx
  | burdens => exact absurd rfl hx'
  | _ => rfl

theorem decreaseDelegation_view {op : DelegateVestingSharesOperation}
    {d : VestingDelegationObject} {minDelegation delta : Int} (hx : x ≠ .loans)
    (h : db.decreaseDelegation op d minDelegation delta = .ok db') : db'.view x = db.view x := by
  simp only [decreaseDelegation, bind_eq_ok, pure_eq_ok] at h
  obtain ⟨_, -, back, -, rfl⟩ := h
  exact view_setDelegations hx db db.vestingDelegations _

theorem storeDelegation_view (hx : x ≠ .loans) (db : Db) (d : VestingDelegationObject)
    (shares : Int) : (db.storeDelegation d shares).view x = db.view x := by
  unfold storeDelegation
  split
  · exact view_setDelegations hx db _ db.vestingDelegationExpirations
  · exact view_setDelegations hx db _ db.vestingDelegationExpirations

theorem addReceived_view {delta : Int} (hx : x ≠ .loans) (h : db.addReceived name delta = .ok db') :
    db'.view x = db.view x := by
  simp only [addReceived, bind_eq_ok, pure_eq_ok] at h
  obtain ⟨_, -, received, -, rfl⟩ := h
  refine view_modifyAccount_of_same x db name _ fun a => ?_
  cases x with
  | loans => exact absurd rfl hx
  | _ => rfl

theorem delegateVestingShares_view {op : DelegateVestingSharesOperation} (hx : x ≠ .loans)
    (hx' : x ≠ .burdens) (h : db.delegateVestingShares op = .ok db') : db'.view x = db.view x := by
  simp only [delegateVestingShares, bind_eq_ok] at h
  obtain ⟨_, -, _, -, minDelegation, -, h⟩ := h
  split at h
  · simp only [bind_eq_ok] at h
    obtain ⟨_, -, _, -, db₁, hincrease, hreceived⟩ := h
    rw [addReceived_view hx hreceived, increaseDelegation_view hx hx' hincrease]
  · simp only [bind_eq_ok] at h
    obtain ⟨delta, -, h⟩ := h
    split at h
    · simp only [bind_eq_ok, pure_eq_ok] at h
      obtain ⟨db₁, hincrease, db₂, hreceived, rfl⟩ := h
      rw [storeDelegation_view hx, addReceived_view hx hreceived,
        increaseDelegation_view hx hx' hincrease]
    · simp only [bind_eq_ok, pure_eq_ok] at h
      obtain ⟨db₁, hdecrease, db₂, hreceived, rfl⟩ := h
      rw [storeDelegation_view hx, addReceived_view hx hreceived, decreaseDelegation_view hx hdecrease]

/-! ## Authorities and recovery -/

/-- Authorities, their history and the requests to change them show in one aspect only. -/
theorem view_setControl (hx : x ≠ .control) (db : Db) (t : Table AccountAuthorityObject)
    (h : Table MasterAuthorityHistoryObject) (r : Table AccountRecoveryRequestObject)
    (c : Table ChangeRecoveryAccountRequestObject) :
    ({ db with
      accountAuthorities := t, masterAuthorityHistory := h, accountRecoveryRequests := r
      changeRecoveryAccountRequests := c } : Db).view x = db.view x := by
  cases x with
  | control => exact absurd rfl hx
  | _ => rfl

theorem updateMasterAuthority_view {master : Authority} (hx : x ≠ .control)
    (h : db.updateMasterAuthority name master = .ok db') : db'.view x = db.view x := by
  simp only [updateMasterAuthority, bind_eq_ok, pure_eq_ok] at h
  obtain ⟨auth, -, rfl⟩ := h
  split
  · exact view_setControl hx db _ _ db.accountRecoveryRequests db.changeRecoveryAccountRequests
  · exact view_setControl hx db _ db.masterAuthorityHistory db.accountRecoveryRequests
      db.changeRecoveryAccountRequests

theorem changeMaster_view {o : AccountUpdateOperation} {t : TimePointSec} (hx : x ≠ .control)
    (h : db.changeMaster o t = .ok db') : db'.view x = db.view x := by
  unfold changeMaster at h
  split at h
  · cases h
    rfl
  · simp only [bind_eq_ok] at h
    obtain ⟨_, -, _, -, hmaster⟩ := h
    exact updateMasterAuthority_view hx hmaster

theorem accountUpdate_view {o : AccountUpdateOperation} (hx : x ≠ .control) (hx' : x ≠ .memos)
    (h : db.accountUpdate o = .ok db') : db'.view x = db.view x := by
  simp only [accountUpdate, bind_eq_ok, pure_eq_ok] at h
  obtain ⟨_, -, _, -, _, -, auth, -, db₁, hmaster, _, -, _, -, rfl⟩ := h
  rw [← changeMaster_view hx hmaster]
  refine (view_setControl hx (Db.storeAccountJsonMetadata _ o.account o.jsonMetadata true)
    _ _ _ _).trans ?_
  refine (view_of_core (storeAccountJsonMetadata_core _ _ _ _)).trans ?_
  refine view_modifyAccount_of_same x db₁ o.account _ fun a => ?_
  cases x with
  | memos => exact absurd rfl hx'
  | _ => rfl

theorem requestAccountRecovery_view {o : RequestAccountRecoveryOperation} (hx : x ≠ .control)
    (h : db.requestAccountRecovery o = .ok db') : db'.view x = db.view x := by
  simp only [requestAccountRecovery, bind_eq_ok] at h
  obtain ⟨_, -, _, -, _, -, h⟩ := h
  have hset := fun r => view_setControl hx db db.accountAuthorities db.masterAuthorityHistory r
    db.changeRecoveryAccountRequests
  split at h
  · simp only [bind_eq_ok, pure_eq_ok] at h
    obtain ⟨_, -, _, -, _, -, rfl⟩ := h
    exact hset _
  · split at h
    · rw [pure_eq_ok] at h
      rw [← h]
      exact hset _
    · simp only [bind_eq_ok, pure_eq_ok] at h
      obtain ⟨_, -, _, -, rfl⟩ := h
      exact hset _

theorem recoverAccount_view {o : RecoverAccountOperation} (hx : x ≠ .control)
    (h : db.recoverAccount o = .ok db') : db'.view x = db.view x := by
  simp only [recoverAccount, bind_eq_ok, pure_eq_ok] at h
  obtain ⟨_, -, _, -, request, -, _, -, _, -, db₁, hmaster, rfl⟩ := h
  have hrow := updateMasterAuthority_view hx hmaster
  refine (view_modifyAccount_of_same x db₁ o.accountToRecover _ fun a => ?_).trans (hrow.trans ?_)
  · cases x with
    | control => exact absurd rfl hx
    | _ => rfl
  · exact view_setControl hx db db.accountAuthorities db.masterAuthorityHistory _
      db.changeRecoveryAccountRequests

theorem changeRecoveryAccount_view {o : ChangeRecoveryAccountOperation} (hx : x ≠ .control)
    (h : db.changeRecoveryAccount o = .ok db') : db'.view x = db.view x := by
  simp only [changeRecoveryAccount, bind_eq_ok] at h
  obtain ⟨_, -, account, -, h⟩ := h
  have hset := view_setControl hx db db.accountAuthorities db.masterAuthorityHistory
    db.accountRecoveryRequests
  split at h
  · rw [pure_eq_ok] at h
    rw [← h]
    exact hset _
  · split at h <;>
    · rw [pure_eq_ok] at h
      rw [← h]
      exact hset _

/-! ## Votes -/

theorem setProxy_view (hx : x ≠ .ballots) (db : Db) (name proxy : AccountName) :
    (db.setProxy name proxy).view x = db.view x := by
  refine view_modifyAccount_of_same x db name _ fun a => ?_
  cases x with
  | ballots => exact absurd rfl hx
  | _ => rfl

theorem view_setVotes (hx : x ≠ .ballots) (db : Db) (t : Table WitnessVoteObject) :
    ({ db with witnessVotes := t } : Db).view x = db.view x := by
  cases x with
  | ballots => exact absurd rfl hx
  | _ => rfl

theorem clearWitnessVotes_view (hx : x ≠ .ballots) (h : db.clearWitnessVotes name = .ok db') :
    db'.view x = db.view x := by
  simp only [clearWitnessVotes, bind_eq_ok, pure_eq_ok] at h
  obtain ⟨a, -, rfl⟩ := h
  refine (view_modifyAccount_of_same x _ name _ fun b => ?_).trans (view_setVotes hx db _)
  cases x with
  | ballots => exact absurd rfl hx
  | _ => rfl

theorem adjustVotesOf_view {account : Nat} {delta : Int} (hx : x ≠ .ballots) (hx' : x ≠ .panel)
    (h : db.adjustVotesOf account delta = .ok db') : db'.view x = db.view x :=
  foldlM_invariant (fun s => s.view x = db.view x) _ _
    (fun _ _ _ _ hs hv => (view_of_votesOnly hx hx' (adjustWitnessVote_votesOnly hv)).trans hs)
    db db' rfl h

theorem reweighVotes_view {count : Nat → Nat} (hx : x ≠ .ballots) (hx' : x ≠ .panel)
    (h : db.reweighVotes name count = .ok db') : db'.view x = db.view x := by
  simp only [reweighVotes, bind_eq_ok] at h
  obtain ⟨_, -, weight, -, h⟩ := h
  refine (adjustVotesOf_view hx hx' h).trans ?_
  refine (view_modifyAccount_of_same x _ name _ fun a => ?_).trans
    (view_modifyAccount_of_same x db name _ fun a => ?_)
  · cases x with
    | ballots => exact absurd rfl hx
    | _ => rfl
  · cases x with
    | ballots => exact absurd rfl hx
    | _ => rfl

theorem clearProxy_view (hx : x ≠ .ballots) (hx' : x ≠ .panel) (h : db.clearProxy name = .ok db') :
    db'.view x = db.view x := by
  simp only [clearProxy, bind_eq_ok] at h
  obtain ⟨_, -, h⟩ := h
  split at h
  · rw [pure_eq_ok] at h
    rw [h]
  · simp only [bind_eq_ok, pure_eq_ok] at h
    obtain ⟨_, -, db₁, hremove, rfl⟩ := h
    rw [setProxy_view hx]
    exact view_of_votesOnly hx hx' (adjustProxiedWitnessVotesArray_votesOnly hremove)

theorem accountWitnessProxy_view {o : AccountWitnessProxyOperation} (hx : x ≠ .ballots) (hx' : x ≠ .panel)
    (h : db.accountWitnessProxy o = .ok db') : db'.view x = db.view x := by
  simp only [accountWitnessProxy, bind_eq_ok] at h
  obtain ⟨_, -, _, -, _, -, db₁, hremove, h⟩ := h
  have hview₁ := view_of_votesOnly hx hx' (adjustProxiedWitnessVotesArray_votesOnly hremove)
  split at h
  · rw [pure_eq_ok] at h
    rw [← h, setProxy_view hx, hview₁]
  · simp only [bind_eq_ok] at h
    obtain ⟨_, -, _, -, db₂, hclear, _, -, hadd⟩ := h
    rw [view_of_votesOnly hx hx' (adjustProxiedWitnessVotesArray_votesOnly hadd), setProxy_view hx,
      clearWitnessVotes_view hx hclear, hview₁]

theorem accountWitnessVote_view {o : AccountWitnessVoteOperation} (hx : x ≠ .ballots) (hx' : x ≠ .panel)
    (h : db.accountWitnessVote o = .ok db') : db'.view x = db.view x := by
  simp only [accountWitnessVote, bind_eq_ok] at h
  obtain ⟨db₁, hproxy, _, -, _, -, _, -, h⟩ := h
  split at h
  · simp only [bind_eq_ok] at h
    obtain ⟨_, -, _, -, db₂, hvotes, h⟩ := h
    rw [reweighVotes_view hx hx' h, ← clearProxy_view hx hx' hproxy, ← adjustVotesOf_view hx hx' hvotes]
    exact view_setVotes hx db₂ _
  · simp only [bind_eq_ok] at h
    obtain ⟨_, -, db₂, hvotes, h⟩ := h
    rw [reweighVotes_view hx hx' h, ← clearProxy_view hx hx' hproxy, ← adjustVotesOf_view hx hx' hvotes]
    exact view_setVotes hx db₂ _

/-! ## Sales -/

/-- A change of the sale or the auction of an account. -/
theorem view_modifySale (hx : x ≠ .control) (hx' : x ≠ .auctions) (db : Db) (name : AccountName)
    (f : AccountObject → AccountObject)
    (hf : ∀ a, ∃ s r o b n, (f a).core = { a.core with
      onSale := s, reserved := r, onAuction := o, bid := b, bidder := n }) :
    (db.modifyAccount name f).view x = db.view x := by
  refine view_modifyAccount_of_same x db name f fun a => ?_
  obtain ⟨s, r, o, b, n, h⟩ := hf a
  rw [h]
  cases x with
  | control => exact absurd rfl hx
  | auctions => exact absurd rfl hx'
  | _ => rfl

theorem returnBid_view (hx : x ≠ .control) (hx' : x ≠ .auctions)
    (h : db.returnBid name = .ok db') : db'.view x = db.view x := by
  simp only [returnBid, bind_eq_ok, pure_eq_ok] at h
  obtain ⟨a, -, bidder, -, reserved, -, balance, -, rfl⟩ := h
  exact view_modifySale hx hx' db a.currentBidder _ fun _ => ⟨_, _, _, _, _, rfl⟩

theorem resetBid_view (hx : x ≠ .control) (hx' : x ≠ .auctions)
    (h : db.resetBid name = .ok db') : db'.view x = db.view x := by
  simp only [resetBid, bind_eq_ok, pure_eq_ok] at h
  obtain ⟨db₁, hreturn, rfl⟩ := h
  rw [← returnBid_view hx hx' hreturn]
  exact view_modifySale hx hx' db₁ name _ fun _ => ⟨_, _, _, _, _, rfl⟩

theorem resetBidIf_view {c : Prop} [Decidable c] (hx : x ≠ .control) (hx' : x ≠ .auctions)
    (h : resetBidIf c db name = .ok db') : db'.view x = db.view x := by
  unfold resetBidIf at h
  split at h
  · exact resetBid_view hx hx' h
  · rw [pure_eq_ok] at h
    rw [h]

theorem returnBidIf_view {c : Prop} [Decidable c] (hx : x ≠ .control) (hx' : x ≠ .auctions)
    (h : returnBidIf c db name = .ok db') : db'.view x = db.view x := by
  unfold returnBidIf at h
  split at h
  · exact returnBid_view hx hx' h
  · rw [pure_eq_ok] at h
    rw [h]

/-- The fee is paid and the seller noted; the core shows neither. -/
theorem setAccountSeller_core (db : Db) (name seller : AccountName) :
    (db.setAccountSeller name seller).core = db.core :=
  core_modifyAccount_of_same db name _ fun _ => rfl

theorem setAccountPrice_view {o : SetAccountPriceOperation} (hx : x ≠ .control)
    (hx' : x ≠ .auctions) (h : db.setAccountPrice o = .ok db') : db'.view x = db.view x := by
  simp only [setAccountPrice, bind_eq_ok] at h
  obtain ⟨account, -, _, -, db₁, hfee, a, -, h⟩ := h
  have hstart : (db₁.setAccountSeller o.account o.accountSeller).view x = db.view x :=
    view_of_core ((setAccountSeller_core db₁ _ _).trans (paySaleFee_core hfee))
  split at h
  · simp only [bind_eq_ok, pure_eq_ok] at h
    obtain ⟨db₂, hreset, rfl⟩ := h
    rw [← hstart, ← resetBidIf_view hx hx' hreset]
    exact view_modifySale hx hx' db₂ o.account _ fun _ => ⟨_, _, _, _, _, rfl⟩
  · simp only [bind_eq_ok, pure_eq_ok] at h
    obtain ⟨db₂, hreturn, rfl⟩ := h
    rw [← hstart, ← returnBidIf_view hx hx' hreturn]
    exact view_modifySale hx hx' db₂ o.account _ fun _ => ⟨_, _, _, _, _, rfl⟩

theorem targetAccountSale_view {o : TargetAccountSaleOperation} (hx : x ≠ .control)
    (hx' : x ≠ .auctions) (h : db.targetAccountSale o = .ok db') : db'.view x = db.view x := by
  simp only [targetAccountSale, bind_eq_ok] at h
  obtain ⟨account, -, _, -, _, -, db₁, hfee, a, -, h⟩ := h
  have hstart : (db₁.setAccountSeller o.account o.accountSeller).view x = db.view x :=
    view_of_core ((setAccountSeller_core db₁ _ _).trans (paySaleFee_core hfee))
  split at h
  · simp only [bind_eq_ok, pure_eq_ok] at h
    obtain ⟨db₂, hreset, rfl⟩ := h
    rw [← hstart, ← resetBidIf_view hx hx' hreset]
    refine (view_modifySale hx hx' _ o.account _ ?_).trans ?_
    · exact fun _ => ⟨_, _, _, _, _, rfl⟩
    · exact view_modifySale hx hx' db₂ o.account _ fun _ => ⟨_, _, _, _, _, rfl⟩
  · simp only [bind_eq_ok, pure_eq_ok] at h
    obtain ⟨db₂, hreturn, rfl⟩ := h
    rw [← hstart, ← returnBidIf_view hx hx' hreturn]
    refine (view_modifySale hx hx' _ o.account _ ?_).trans ?_
    · exact fun _ => ⟨_, _, _, _, _, rfl⟩
    · exact view_modifySale hx hx' db₂ o.account _ fun _ => ⟨_, _, _, _, _, rfl⟩

theorem bidAccount_view {clock : TimePointSec} {o : BuyAccountOperation} {a : AccountObject}
    (hx : x ≠ .control) (hx' : x ≠ .auctions) (h : db.bidAccount clock o a = .ok db') :
    db'.view x = db.view x := by
  simp only [bidAccount, reserveBid, bind_eq_ok, pure_eq_ok] at h
  obtain ⟨_, -, _, -, db₁, hreturn, ⟨reserved, balance⟩, -, rfl⟩ := h
  rw [← returnBidIf_view hx hx' hreturn]
  refine (view_modifySale hx hx' _ o.buyer _ ?_).trans ?_
  · exact fun _ => ⟨_, _, _, _, _, rfl⟩
  · exact view_modifySale hx hx' db₁ o.account _ fun _ => ⟨_, _, _, _, _, rfl⟩

theorem payPrice_core {buyer seller : AccountName} {price : Int}
    (h : db.payPrice buyer seller price = .ok db') : db'.core = db.core := by
  simp only [payPrice, bind_eq_ok] at h
  obtain ⟨db₁, hout, hin⟩ := h
  rw [adjustBalance_core hin, adjustBalance_core hout]

/-- The purchase up to the change of hands. -/
theorem buyNow_turns {o : BuyAccountOperation} {a buyer : AccountObject}
    (h : db.buyNow o a buyer = .ok db') :
    ∃ db₁, Turns (db.VestsUp o.tokensToShares.amount) db db₁ ∧
      db₁.view .control = db.view .control ∧ db' = setAuthorities (db₁.modifyAccount o.account fun a =>
      { a.clearSale with
        accountSeller := ""
        subaccountSeller := "", subaccountOfferPrice := 0, subaccountOnSale := false
        memoKey := o.accountAuthoritiesKey
        recoveryAccount := o.buyer
        lastAccountUpdate := db₁.headBlockTime }) o.account o.accountAuthoritiesKey := by
  simp only [buyNow, bind_eq_ok, pure_eq_ok] at h
  obtain ⟨_, -, _, -, _, -, _, -, _, -, db₁, hpay, db₂, hdebit, db₃, hvest, rfl⟩ := h
  have hcore : db₂.core = db.core := (adjustBalance_core hdebit).trans (payPrice_core hpay)
  have hview := (createVesting_view (x := .control) rfl hvest).trans (view_of_core hcore)
  exact ⟨db₃, .after_quiet hcore (.vest (fun hg => hg.of_core hcore) hvest), hview, rfl⟩

theorem buySubaccount_turns {o : BuyAccountOperation} {buyer : AccountObject}
    (h : buySubaccount fc db o buyer = .ok db') :
    Turns (db.VestsUp o.tokensToShares.amount) db db' := by
  simp only [buySubaccount, bind_eq_ok] at h
  obtain ⟨_, -, _, -, _, -, _, -, _, -, _, -, _, -, _, -, _, -, _, -, db₁, hpay, db₂, hregister,
    db₃, hdebit, hvest⟩ := h
  have hturn : Turn (db.VestsUp o.tokensToShares.amount) db₁ db₂ :=
    registerAccount_turn (fun _ => rfl) hregister
  have hopen := Turns.after_quiet (payPrice_core hpay) (.single hturn)
  refine (hopen.then_quiet (adjustBalance_core hdebit)).trans (.vest (fun hg => ?_) hvest)
  have hsame := registerAccount_totals hregister
  have hup := (hg.of_core (payPrice_core hpay)).of_totals hsame.1 hsame.2
  exact hup.of_core (adjustBalance_core hdebit)

theorem buyAccount_drift {clock : TimePointSec} {o : BuyAccountOperation} (hx : x ≠ .control)
    (hx' : x ≠ .auctions) (hx'' : x ≠ .memos) (h : buyAccount fc clock db o = .ok db') :
    Drift x (db.VestsUp o.tokensToShares.amount) db db' := by
  simp only [buyAccount, bind_eq_ok] at h
  obtain ⟨buyer, -, _, -, _, -, h⟩ := h
  split at h
  · rename_i a ha
    simp only [buyExisting, bind_eq_ok] at h
    obtain ⟨_, -, _, -, _, -, _, -, h⟩ := h
    split at h
    · exact .same (bidAccount_view hx hx' h)
    · obtain ⟨db₁, hturns, -, rfl⟩ := buyNow_turns h
      refine (hturns.drift x).trans (.same ?_)
      refine (view_setControl hx _ _ db₁.masterAuthorityHistory db₁.accountRecoveryRequests
        db₁.changeRecoveryAccountRequests).trans ?_
      refine view_modifyAccount_of_same x db₁ o.account _ fun b => ?_
      cases x with
      | control => exact absurd rfl hx
      | auctions => exact absurd rfl hx'
      | memos => exact absurd rfl hx''
      | _ => rfl
  · exact (buySubaccount_turns h).drift x

/-! ## Rewards -/

/-- Turns after a change of the reward shares. -/
theorem rewarded_drift {g : Prop} {db₁ : Db} (hx : x ≠ .rewards)
    (hcore : db₁.core.withoutRewards = db.core.withoutRewards) (h : Turns g db₁ db') :
    Drift x g db db' := by
  have hview : Drift x g db db₁ := .same (view_of_withoutRewards hx hcore)
  exact hview.trans (h.drift x)

/-! ## Finality, proposals and transactions -/

theorem view_setIrreversible (hx : x ≠ .finality) (db : Db) (num : Nat) (id : BlockId) :
    (db.modifyDgp fun p =>
      { p with lastIrreversibleBlockNum := num, lastIrreversibleBlockId := id }).view x =
      db.view x := by
  cases x with
  | finality => exact absurd rfl hx
  | _ => rfl

theorem view_setValidations (hx : x ≠ .finality) (db : Db) (t : Table BlockPostValidationObject) :
    ({ db with blockPostValidations := t } : Db).view x = db.view x := by
  cases x with
  | finality => exact absurd rfl hx
  | _ => rfl

theorem view_setProposals (hx : x ≠ .proposals) (db : Db) (t : Table ProposalObject)
    (r : Table RequiredApprovalObject) :
    ({ db with proposals := t, requiredApprovals := r } : Db).view x = db.view x := by
  cases x with
  | proposals => exact absurd rfl hx
  | _ => rfl

theorem openTransaction_view {env : Env} {skip : Skip} {trx : SignedTransaction}
    (hx : x ≠ .records) (h : db.openTransaction env skip trx = .ok db') :
    db'.view x = db.view x := by
  unfold view
  rw [openTransaction_core h]
  cases x with
  | records => exact absurd rfl hx
  | _ => rfl

/-! ## Steps -/

theorem updateGlobalDynamicData_view {env : Env} {skip : Skip} {b : SignedBlock}
    (hx : x ≠ .records) (hx' : x ≠ .panel) (hx'' : x ≠ .slots) (hcapacity : x ≠ .capacity)
    (hsupports : x ≠ .supports)
    (h : db.updateGlobalDynamicData env skip b = .ok db') : db'.view x = db.view x := by
  have hview (c : Core) : c.view x = c.withoutPanel.view x := by
    cases x with
    | panel => exact absurd rfl hx'
    | capacity => exact absurd rfl hcapacity
    | _ => rfl
  unfold view
  rw [hview, updateGlobalDynamicData_core h]
  cases x with
  | records => exact absurd rfl hx
  | panel => exact absurd rfl hx'
  | slots => exact absurd rfl hx''
  | capacity => exact absurd rfl hcapacity
  | supports => exact absurd rfl hsupports
  | _ => rfl

theorem updateWitnessSchedule_view (hx : x ≠ .panel) (hx' : x ≠ .capacity) (hx'' : x ≠ .seats)
    (h : db.updateWitnessSchedule = .ok db') : db'.view x = db.view x := by
  have hview (c : Core) : c.view x = c.withoutPanel.view x := by
    cases x with
    | panel => exact absurd rfl hx
    | capacity => exact absurd rfl hx'
    | _ => rfl
  unfold view
  rw [hview, updateWitnessSchedule_core h]
  cases x with
  | panel => exact absurd rfl hx
  | capacity => exact absurd rfl hx'
  | seats => exact absurd rfl hx''
  | _ => rfl

theorem updateSigningWitness_view (hx : x ≠ .supports) (db : Db) (b : SignedBlock) :
    (db.updateSigningWitness b).view x = db.view x := by
  unfold view
  rw [updateSigningWitness_core]
  cases x with
  | supports => exact absurd rfl hx
  | _ => rfl

theorem returnDelegation_view {d : VestingDelegationExpirationObject} (hx : x ≠ .loans)
    (hx' : x ≠ .burdens) (h : db.returnDelegation d = .ok db') : db'.view x = db.view x := by
  simp only [returnDelegation, bind_eq_ok, pure_eq_ok] at h
  obtain ⟨a, -, delegated, -, db₁, henergy, rfl⟩ := h
  refine (view_setDelegations hx db₁ db₁.vestingDelegations _).trans ?_
  rw [view_of_core (sharesSenderRecalcEnergy_core henergy)]
  refine view_modifyAccount_of_same x db d.delegator _ fun b => ?_
  cases x with
  | loans => exact absurd rfl hx
  | burdens => exact absurd rfl hx'
  | _ => rfl

theorem view_modifyShares (hx : x.vests = false) (db : Db) (name : AccountName) (s : Int) :
    (db.modifyAccount name fun a => { a with vestingShares := s }).view x = db.view x := by
  refine view_modifyAccount_of_same x db name _ fun a => ?_
  cases x with
  | stake | burdens | ballots | panel => cases hx
  | _ => rfl

theorem redeemVesting_view {tokens shares : Int} (hx : x.vests = false)
    (h : db.redeemVesting tokens shares = .ok db') : db'.view x = db.view x := by
  simp only [redeemVesting, bind_eq_ok, pure_eq_ok] at h
  obtain ⟨_, -, _, -, rfl⟩ := h
  cases x with
  | stake => cases hx
  | _ => rfl

theorem ne_ballots_of_vests (hx : x.vests = false) : x ≠ .ballots := by
  rintro rfl
  cases hx

theorem ne_panel_of_vests (hx : x.vests = false) : x ≠ .panel := by
  rintro rfl
  cases hx

theorem depositShares_view {amount : Int} {s s' : Int × Db} {r : WithdrawVestingRouteObject}
    (hx : x.vests = false) (h : depositShares amount s r = .ok s') :
    s'.2.view x = s.2.view x := by
  unfold depositShares at h
  split at h
  · simp only [bind_eq_ok] at h
    obtain ⟨deposit, -, total, -, h⟩ := h
    split at h
    · simp only [addVestingShares, bind_eq_ok, pure_eq_ok] at h
      obtain ⟨a, -, db₁, ⟨b, -, shares, -, hvotes⟩, rfl⟩ := h
      rw [view_of_votesOnly (ne_ballots_of_vests hx) (ne_panel_of_vests hx)
        (adjustProxiedWitnessVotes_votesOnly hvotes)]
      exact view_modifyShares hx s.2 a.name shares
    · rw [pure_eq_ok] at h
      rw [← h]
  · cases h
    rfl

theorem depositTokens_view {amount : Int} {s s' : Int × Db} {r : WithdrawVestingRouteObject}
    (hx : x.vests = false) (h : depositTokens amount s r = .ok s') :
    s'.2.view x = s.2.view x := by
  unfold depositTokens at h
  split at h
  · cases h
    rfl
  · simp only [bind_eq_ok] at h
    obtain ⟨a, -, deposit, -, total, -, tokens, -, h⟩ := h
    split at h
    · simp only [bind_eq_ok, pure_eq_ok] at h
      obtain ⟨db₁, hpay, db₂, hredeem, rfl⟩ := h
      exact (redeemVesting_view hx hredeem).trans (view_of_core (adjustBalance_core hpay))
    · rw [pure_eq_ok] at h
      rw [← h]

theorem finishWithdrawal_view {amount tokens : Int} (hx : x.withdraws = false)
    (h : db.finishWithdrawal name amount tokens = .ok db') : db'.view x = db.view x := by
  simp only [finishWithdrawal, bind_eq_ok, pure_eq_ok] at h
  obtain ⟨a, -, shares, -, balance, -, withdrawn, -, rfl⟩ := h
  refine view_modifyAccount_of_same x db name _ fun b => ?_
  unfold afterWithdrawal
  split
  · cases x with
    | stake | burdens | powerDowns | ballots | panel => cases hx
    | _ => rfl
  · cases x with
    | stake | burdens | powerDowns | ballots | panel => cases hx
    | _ => rfl

theorem withdrawFrom_view {a : AccountObject} (hx : x.withdraws = false)
    (h : db.withdrawFrom a = .ok db') : db'.view x = db.view x := by
  simp only [withdrawFrom, bind_eq_ok] at h
  obtain ⟨amount, -, ⟨vested, db₁⟩, hvested, ⟨paid, db₂⟩, hpaid, _, -, _, -, tokens, -, _, -, db₃,
    henergy, db₄, hfinish, db₅, hredeem, h⟩ := h
  have hvests : x.vests = false := (Bool.or_eq_false_iff.1 hx).1
  have hview₁ : db₁.view x = db.view x :=
    foldlM_invariant (fun s : Int × Db => s.2.view x = db.view x) _ _
      (fun _ _ _ _ hs hstep => (depositShares_view hvests hstep).trans hs) _ _ rfl hvested
  have hview₂ : db₂.view x = db.view x :=
    foldlM_invariant (fun s : Int × Db => s.2.view x = db.view x) _ _
      (fun _ _ _ _ hs hstep => (depositTokens_view hvests hstep).trans hs) _ _ hview₁ hpaid
  have hview₅ : db₅.view x = db.view x := by
    rw [redeemVesting_view hvests hredeem, finishWithdrawal_view hx hfinish,
      view_of_core (sharesSenderRecalcEnergy_core henergy), hview₂]
  split at h
  · rw [← hview₅]
    exact view_of_votesOnly (ne_ballots_of_vests hvests) (ne_panel_of_vests hvests)
        (adjustProxiedWitnessVotes_votesOnly h)
  · rw [pure_eq_ok] at h
    rw [← h, hview₅]

theorem withdrawLoop_view {fuel : Nat} {next : Option AccountName} (hx : x.withdraws = false)
    (h : withdrawLoop fuel db next = .ok db') : db'.view x = db.view x := by
  induction fuel generalizing db next with
  | zero => cases h
  | succ fuel ih =>
    cases next with
    | none =>
      cases h
      rfl
    | some n =>
      simp only [withdrawLoop, bind_eq_ok] at h
      obtain ⟨a, -, h⟩ := h
      split at h
      · simp only [bind_eq_ok] at h
        obtain ⟨db₁, hstep, hrest⟩ := h
        exact (ih hrest).trans (withdrawFrom_view hx hstep)
      · rw [pure_eq_ok] at h
        rw [h]

theorem drainAccount_view {total : Int} (hx : x.vests = false)
    (h : db.drainAccount name = .ok (total, db')) : db'.view x = db.view x := by
  simp only [drainAccount, bind_eq_ok] at h
  obtain ⟨⟨balance, db₁⟩, hbalance, ⟨tokens, db₂⟩, hshares, h⟩ := h
  simp only [pure_eq_ok, Prod.mk.injEq] at h
  obtain ⟨_, -, -, rfl⟩ := h
  have hview₁ : db₁.view x = db.view x := by
    simp only [drainBalance, bind_eq_ok] at hbalance
    obtain ⟨a, -, h⟩ := hbalance
    split at h
    · simp only [bind_eq_ok, pure_eq_ok, Prod.mk.injEq] at h
      obtain ⟨db₃, hpay, -, rfl⟩ := h
      exact view_of_core (adjustBalance_core hpay)
    · simp only [pure_eq_ok, Prod.mk.injEq] at h
      rw [h.2]
  simp only [drainShares, bind_eq_ok] at hshares
  obtain ⟨a, -, h⟩ := hshares
  split at h
  · simp only [bind_eq_ok, pure_eq_ok, Prod.mk.injEq] at h
    obtain ⟨_, -, db₃, hredeem, -, rfl⟩ := h
    rw [← hview₁, ← redeemVesting_view hx hredeem]
    exact view_modifyShares hx db₃ name 0
  · simp only [pure_eq_ok, Prod.mk.injEq] at h
    rw [← h.2, hview₁]

theorem burnBalance_view (hx : x.vests = false) (h : db.burnBalance name = .ok db') :
    db'.view x = db.view x := by
  simp only [burnBalance, bind_eq_ok] at h
  obtain ⟨⟨total, db₁⟩, hdrain, h⟩ := h
  rw [← drainAccount_view hx hdrain]
  split at h
  · exact view_of_core (burnAsset_core h)
  · rw [pure_eq_ok] at h
    rw [← h]

theorem claimCommitteeAccountBalance_view (hx : x.vests = false)
    (h : db.claimCommitteeAccountBalance = .ok db') : db'.view x = db.view x := by
  simp only [claimCommitteeAccountBalance, bind_eq_ok] at h
  obtain ⟨⟨total, db₁⟩, hdrain, h⟩ := h
  rw [← drainAccount_view hx hdrain]
  split at h
  · exact view_of_core (addCommitteeFund_core h)
  · rw [pure_eq_ok] at h
    rw [← h]

theorem accountRecoveryProcessing_view (hx : x ≠ .control)
    (h : db.accountRecoveryProcessing = .ok db') : db'.view x = db.view x := by
  have hdrop : db.dropExpiredRecovery.view x = db.view x :=
    view_setControl hx db db.accountAuthorities _ _ db.changeRecoveryAccountRequests
  refine foldlM_invariant (fun s => s.view x = db.view x) _ _ (fun r _ s s' hs hstep => ?_) _ _
    hdrop h
  simp only [applyRecoveryChange, bind_eq_ok, pure_eq_ok] at hstep
  obtain ⟨_, -, rfl⟩ := hstep
  refine (view_setControl hx (s.modifyAccount r.accountToRecover _) _ s.masterAuthorityHistory
    s.accountRecoveryRequests _).trans ?_
  rw [← hs]
  refine view_modifyAccount_of_same x s r.accountToRecover _ fun a => ?_
  cases x with
  | control => exact absurd rfl hx
  | _ => rfl

theorem settleAuction_view {a : AccountObject} (hx : x ≠ .control) (hx' : x ≠ .auctions)
    (hx'' : x ≠ .memos) (h : db.settleAuction a = .ok db') : db'.view x = db.view x := by
  simp only [settleAuction, bind_eq_ok, pure_eq_ok] at h
  obtain ⟨_, -, bidder, -, reserved, -, db₁, hpay, _, -, rfl⟩ := h
  have hview₁ : db₁.view x = db.view x := by
    rw [view_of_core (adjustBalance_core hpay)]
    exact view_modifySale hx hx' db a.currentBidder _ fun _ => ⟨_, _, _, _, _, rfl⟩
  rw [← hview₁]
  refine (view_modifyAccount_of_same x _ a.name _ fun b => ?_).trans
    (view_setControl hx db₁ _ db₁.masterAuthorityHistory db₁.accountRecoveryRequests
      db₁.changeRecoveryAccountRequests)
  cases x with
  | control => exact absurd rfl hx
  | auctions => exact absurd rfl hx'
  | memos => exact absurd rfl hx''
  | _ => rfl

theorem expireAuction_view (hx : x ≠ .control) (hx' : x ≠ .auctions) (hx'' : x ≠ .memos)
    (h : db.expireAuction name = .ok db') : db'.view x = db.view x := by
  simp only [expireAuction, bind_eq_ok] at h
  obtain ⟨a, -, h⟩ := h
  split at h
  · rw [pure_eq_ok] at h
    rw [h]
  · split at h
    · rw [pure_eq_ok] at h
      rw [← h]
      exact view_modifySale hx hx' db name _ fun _ => ⟨_, _, _, _, _, rfl⟩
    · simp only [bind_eq_ok] at h
      obtain ⟨_, -, h⟩ := h
      split at h
      · split at h
        · simp only [cancelAuction, bind_eq_ok, pure_eq_ok] at h
          obtain ⟨db₁, hreset, rfl⟩ := h
          rw [← resetBid_view hx hx' hreset]
          exact view_modifySale hx hx' db₁ name _ fun _ => ⟨_, _, _, _, _, rfl⟩
        · exact settleAuction_view hx hx' hx'' h
      · exact resetBid_view hx hx' h

end Db

/-! ## What is touched -/

/-- The aspects that an operation changes itself. -/
def Operation.touches (x : Aspect) : Operation → Bool
  | .withdrawVesting _ => x = .burdens || x = .powerDowns
  | .setWithdrawVestingRoute _ => x = .routes
  | .accountCreate _ | .delegateVestingShares _ => x = .loans || x = .burdens
  | .requestAccountRecovery _ | .recoverAccount _ | .changeRecoveryAccount _ => x = .control
  | .accountUpdate _ => x = .control || x = .memos
  | .accountWitnessVote _ | .accountWitnessProxy _ => x = .ballots || x = .panel
  | .setAccountPrice _ | .targetAccountSale _ => x = .control || x = .auctions
  | .buyAccount _ => x = .control || (x = .auctions || x = .memos)
  | .proposalDelete _ => x = .proposals
  | .committeeWorkerCreateRequest _ | .committeeWorkerCancelRequest _
  | .committeeVoteRequest _ => x = .requests
  | .award _ | .fixedAward _ => x = .rewards
  | .setPaidSubscription _ | .paidSubscribe _ => x = .subscribes
  | _ => false

/-- **Operations** drift in the aspects that they do not touch. -/
theorem evaluate_drift {fc : Fc} {producing : Bool} {clock : TimePointSec} {op : Operation}
    {x : Aspect} {db db' : Db} (hx : Operation.touches x op = false)
    (h : Db.evaluate fc producing clock db op = .ok db') :
    Drift x (db.Vestable fc op ∧ op.validate fc = .ok ()) db db' := by
  by_cases hplain : Operation.special op = false
  · exact ((evaluate_turns hplain h).imp And.left).drift x
  · cases op with
    | withdrawVesting o =>
      simp only [Operation.touches, Bool.or_eq_false_iff, decide_eq_false_iff_not] at hx
      exact .same (Db.withdrawVesting_view hx.1 hx.2 h)
    | setWithdrawVestingRoute o =>
      exact .same (Db.setWithdrawVestingRoute_view (of_decide_eq_false hx) h)
    | accountCreate o =>
      simp only [Operation.touches, Bool.or_eq_false_iff, decide_eq_false_iff_not] at hx
      exact (Db.accountCreate_drift hx.1 hx.2 h).imp fun hg =>
        hg.1.amounts _ (List.mem_singleton_self _)
    | delegateVestingShares o =>
      simp only [Operation.touches, Bool.or_eq_false_iff, decide_eq_false_iff_not] at hx
      exact .same (Db.delegateVestingShares_view hx.1 hx.2 h)
    | accountUpdate o =>
      simp only [Operation.touches, Bool.or_eq_false_iff, decide_eq_false_iff_not] at hx
      exact .same (Db.accountUpdate_view hx.1 hx.2 h)
    | requestAccountRecovery o =>
      exact .same (Db.requestAccountRecovery_view (of_decide_eq_false hx) h)
    | recoverAccount o => exact .same (Db.recoverAccount_view (of_decide_eq_false hx) h)
    | changeRecoveryAccount o =>
      exact .same (Db.changeRecoveryAccount_view (of_decide_eq_false hx) h)
    | accountWitnessVote o =>
      simp only [Operation.touches, Bool.or_eq_false_iff, decide_eq_false_iff_not] at hx
      exact .same (Db.accountWitnessVote_view hx.1 hx.2 h)
    | accountWitnessProxy o =>
      simp only [Operation.touches, Bool.or_eq_false_iff, decide_eq_false_iff_not] at hx
      exact .same (Db.accountWitnessProxy_view hx.1 hx.2 h)
    | setAccountPrice o =>
      simp only [Operation.touches, Bool.or_eq_false_iff, decide_eq_false_iff_not] at hx
      exact .same (Db.setAccountPrice_view hx.1 hx.2 h)
    | targetAccountSale o =>
      simp only [Operation.touches, Bool.or_eq_false_iff, decide_eq_false_iff_not] at hx
      exact .same (Db.targetAccountSale_view hx.1 hx.2 h)
    | buyAccount o =>
      simp only [Operation.touches, Bool.or_eq_false_iff, decide_eq_false_iff_not] at hx
      exact (Db.buyAccount_drift hx.1 hx.2.1 hx.2.2 h).imp fun hg =>
        hg.1.amounts _ (List.mem_singleton_self _)
    | proposalDelete o =>
      simp only [Db.evaluate, Db.proposalDelete, bind_eq_ok, pure_eq_ok] at h
      obtain ⟨p, -, _, -, rfl⟩ := h
      exact .same (Db.view_setProposals (of_decide_eq_false hx) db _ _)
    | committeeWorkerCreateRequest o =>
      exact .same (Db.view_of_withoutRequests (of_decide_eq_false hx)
        (Db.committeeWorkerCreateRequest_core h))
    | committeeWorkerCancelRequest o =>
      exact .same (Db.view_of_withoutRequests (of_decide_eq_false hx)
        (Db.committeeWorkerCancelRequest_core h))
    | committeeVoteRequest o =>
      exact .same (Db.view_of_withoutRequests (of_decide_eq_false hx)
        (Db.committeeVoteRequest_core h))
    | award o =>
      obtain ⟨db₁, hclaim, hturns⟩ := Db.award_turns h
      refine Db.rewarded_drift (of_decide_eq_false hx) hclaim.core (hturns.imp fun hg => ?_)
      exact ⟨hg.1.awards rfl, hg.2⟩
    | fixedAward o =>
      obtain ⟨db₁, hclaim, hturns⟩ := Db.fixedAward_turns h
      refine Db.rewarded_drift (of_decide_eq_false hx) hclaim.core (hturns.imp fun hg => ?_)
      exact ⟨hg.1.awards rfl, hg.2⟩
    | setPaidSubscription o =>
      exact .same (Db.view_of_withoutSubscribes (of_decide_eq_false hx)
        (Db.setPaidSubscription_core h))
    | paidSubscribe o =>
      exact .same (Db.view_of_withoutSubscribes (of_decide_eq_false hx) (Db.paidSubscribe_core h))
    | _ => exact absurd rfl hplain

/-- The aspects that a step changes itself. -/
def BlockStep.touches (x : Aspect) : BlockStep → Bool
  | .updateGlobalDynamicData =>
    x = .records || (x = .panel || (x = .slots || (x = .capacity || x = .supports)))
  | .updateSigningWitness => x = .supports
  | .updateWitnessSchedule => x = .panel || (x = .capacity || x = .seats)
  | .clearExpiredTransactions => x = .records
  | .clearClosedCommitteeRequests | .committeeProcessing => x = .requests
  | .expireAwardSharesProcessing => x = .rewards
  | .clearExpiredDelegations => x = .loans || x = .burdens
  | .processVestingWithdrawals => x.withdraws
  | .clearNullAccountBalance | .clearAnonymousAccountBalance
  | .claimCommitteeAccountBalance => x.vests
  | .accountRecoveryProcessing => x = .control
  | .accountOnAuctionExpiration => x = .control || (x = .auctions || x = .memos)
  | .paidSubscribeProcessing => x = .subscribes
  | .createBlockSummary => x = .summaries
  | _ => false

/-- **Steps** drift in the aspects that they do not touch. -/
theorem BlockStep.run_drift {env : Env} {skip : Skip} {b : SignedBlock} {s : BlockStep}
    {x : Aspect} {db db' : Db} (hx : s.touches x = false) (h : s.run env skip b db = .ok db') :
    Drift x (s.Vestable db) db db' := by
  by_cases hplain : s.special = false
  · exact (BlockStep.run_turns hplain h).drift x
  · cases s with
    | updateGlobalDynamicData =>
      simp only [BlockStep.touches, Bool.or_eq_false_iff, decide_eq_false_iff_not] at hx
      exact .same
        (Db.updateGlobalDynamicData_view hx.1 hx.2.1 hx.2.2.1 hx.2.2.2.1 hx.2.2.2.2 h)
    | updateSigningWitness =>
      cases h
      exact .same (Db.updateSigningWitness_view (of_decide_eq_false hx) db b)
    | updateWitnessSchedule =>
      simp only [BlockStep.touches, Bool.or_eq_false_iff, decide_eq_false_iff_not] at hx
      exact .same (Db.updateWitnessSchedule_view hx.1 hx.2.1 hx.2.2 h)
    | clearClosedCommitteeRequests =>
      cases h
      exact .same (Db.view_of_withoutRequests (of_decide_eq_false hx) rfl)
    | committeeProcessing =>
      exact .same (Db.view_of_withoutRequests (of_decide_eq_false hx) (Db.committeeProcessing_core h))
    | expireAwardSharesProcessing =>
      cases h
      exact .same (Db.view_of_withoutRewards (of_decide_eq_false hx) rfl)
    | clearExpiredTransactions =>
      cases h
      refine .same ?_
      cases x with
      | records => cases hx
      | _ => rfl
    | clearExpiredDelegations =>
      simp only [BlockStep.touches, Bool.or_eq_false_iff, decide_eq_false_iff_not] at hx
      exact .foldlM (fun _ _ _ hstep => .same (Db.returnDelegation_view hx.1 hx.2 hstep)) h
    | processVestingWithdrawals => exact .same (Db.withdrawLoop_view hx h)
    | accountRecoveryProcessing =>
      exact .same (Db.accountRecoveryProcessing_view (of_decide_eq_false hx) h)
    | accountOnAuctionExpiration =>
      simp only [BlockStep.touches, Bool.or_eq_false_iff, decide_eq_false_iff_not] at hx
      exact .foldlM (fun _ _ _ hstep => .same (Db.expireAuction_view hx.1 hx.2.1 hx.2.2 hstep)) h
    | clearNullAccountBalance => exact .same (Db.burnBalance_view hx h)
    | clearAnonymousAccountBalance => exact .same (Db.burnBalance_view hx h)
    | claimCommitteeAccountBalance => exact .same (Db.claimCommitteeAccountBalance_view hx h)
    | paidSubscribeProcessing =>
      exact .same (Db.view_of_withoutSubscribes (of_decide_eq_false hx) (Db.subscribeLoop_core h))
    | createBlockSummary =>
      have hcore := Db.createBlockSummary_core h
      refine .same ?_
      unfold Db.view
      rw [hcore]
      cases x with
      | summaries => cases hx
      | _ => rfl
    | _ => exact absurd rfl hplain

end VizCore.Chain
