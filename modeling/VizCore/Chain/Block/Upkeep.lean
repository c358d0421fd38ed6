import VizCore.Chain.Flow

/-!
# Per-block upkeep

The per-block steps of `database.cpp` that remove what has expired: transactions,
delegations, invites, committee requests, award shares and recovery requests.

* `clearUsedInvites_flow`: a claimed invite is empty, so removing it loses no tokens;
* the other steps do not move tokens or shares.
-/

namespace VizCore.Chain

open VizCore.Lib VizCore.Protocol

/-- `CHAIN_CLEAR_USED_INVITE_DELAY` -/
def clearUsedInviteDelay : Nat := 24 * 60 * 60

/-- `CHAIN_CLEAR_CLOSED_COMMITTEE_REQUEST_DELAY` -/
def clearClosedCommitteeRequestDelay : Nat := 7 * 24 * 60 * 60

/-- `CHAIN_MASTER_AUTH_RECOVERY_PERIOD` -/
def masterAuthRecoveryPeriod : Nat := 30 * 24 * 60 * 60

/-- `CHAIN_BANDWIDTH_RESERVE_ACTIVE_TIME` -/
def bandwidthReserveActiveTime : Nat := 30 * 24 * 60 * 60

/-- `CHAIN_BLOCKS_PER_HOUR` -/
def blocksPerHour : Nat := 60 * 60 / 3

/-- `t - delay`, cut to the 32 bits of `time_point_sec`. -/
def subSeconds (t : TimePointSec) (delay : Nat) : TimePointSec := ((t - delay : Int) % 2 ^ 32).toNat

namespace Db

/-- `clear_expired_transactions` -/
def clearExpiredTransactions (db : Db) : Db :=
  { db with transactions := db.transactions.filter fun t => db.headBlockTime ≤ t.expiration }

/-- The order of `by_expiration` of the delegations that were taken back. -/
def expiresBefore (d e : VestingDelegationExpirationObject) : Bool :=
  d.expiration < e.expiration || (d.expiration == e.expiration && d.id < e.id)

/-- The delegator gets the shares back. -/
def returnDelegation (db : Db) (d : VestingDelegationExpirationObject) : Result Db := do
  let a ← db.getAccount d.delegator
  let delegated ← safeSub a.delegatedVestingShares d.vestingShares
  let db := db.modifyAccount d.delegator fun a => { a with delegatedVestingShares := delegated }
  let db ← db.sharesSenderRecalcEnergy d.delegator d.vestingShares
  return { db with
    vestingDelegationExpirations := db.vestingDelegationExpirations.erase (·.id) d.id }

/-- `clear_expired_delegations` -/
def clearExpiredDelegations (db : Db) : Result Db :=
  let due := (orderBy expiresBefore db.vestingDelegationExpirations.rows).filter fun d =>
    d.expiration < db.headBlockTime
  due.foldlM returnDelegation db

/-- `clear_used_invites` -/
def clearUsedInvites (db : Db) : Db :=
  let removeTime := subSeconds db.headBlockTime clearUsedInviteDelay
  { db with invites := db.invites.filter fun i => i.status = 0 || removeTime ≤ i.claimTime }

/-- A request that was not paid and was closed long ago. -/
def closedRequest (removeTime : TimePointSec) (r : CommitteeRequestObject) : Bool :=
  r.status ≠ 0 && r.status ≠ 4 && r.status ≠ 5 && r.conclusionTime < removeTime

/-- `clear_closed_committee_requests` -/
def clearClosedCommitteeRequests (db : Db) : Db :=
  let removeTime := subSeconds db.headBlockTime clearClosedCommitteeRequestDelay
  let closed := (db.committeeRequests.rows.filter (closedRequest removeTime)).map (·.requestId)
  { db with
    committeeVotes := db.committeeVotes.filter fun v => v.requestId ∉ closed
    committeeRequests := db.committeeRequests.filter fun r => !closedRequest removeTime r }

/-- The account counts among those that share the reserved bandwidth. -/
def reserveCandidate (db : Db) (a : AccountObject) : Result Bool := do
  let effective ← a.effectiveVestingShares
  return effective < db.medianProps.bandwidthReserveBelow.amount &&
    db.headBlockTime ≤ (a.lastBandwidthUpdate + bandwidthReserveActiveTime) % 2 ^ 32

/-- `update_bandwidth_reserve_candidates` -/
def updateBandwidthReserveCandidates (db : Db) : Result Db :=
  if db.headBlockNum % blocksPerHour = 0 then do
    let candidates ← db.accounts.rows.mapM db.reserveCandidate
    return db.modifyDgp fun p =>
      { p with bandwidthReserveCandidates := (1 + candidates.countP id) % 2 ^ 32 }
  else .ok db

/-- `expire_award_shares_processing` -/
def expireAwardSharesProcessing (db : Db) : Db :=
  let due := db.awardSharesExpires.rows.filter fun s => s.expires ≤ db.headBlockTime
  let rest := due.foldl
    (fun total s => (total + 2 ^ 128 - toUint128 s.rshares) % 2 ^ 128) db.dgp.totalRewardShares
  let db := db.modifyDgp fun p => { p with totalRewardShares := rest }
  { db with
    awardSharesExpires := db.awardSharesExpires.filter fun s => db.headBlockTime < s.expires }

/-! ## Account recovery -/

/-- The order of `by_effective_date`. -/
def effectiveBefore (r s : ChangeRecoveryAccountRequestObject) : Bool :=
  r.effectiveOn < s.effectiveOn || (r.effectiveOn == s.effectiveOn && r.id < s.id)

def applyRecoveryChange (db : Db) (r : ChangeRecoveryAccountRequestObject) : Result Db := do
  let _ ← db.getAccount r.accountToRecover
  let db := db.modifyAccount r.accountToRecover fun a =>
    { a with recoveryAccount := r.recoveryAccount }
  return { db with
    changeRecoveryAccountRequests := db.changeRecoveryAccountRequests.erase (·.id) r.id }

/-- Expired requests and old authorities are dropped.  The history is walked in the order of
ids and the walk ends at the first entry that is still valid. -/
def dropExpiredRecovery (db : Db) : Db :=
  let now := db.headBlockTime
  { db with
    accountRecoveryRequests := db.accountRecoveryRequests.filter fun r => now < r.expires
    masterAuthorityHistory := { db.masterAuthorityHistory with
      rows := db.masterAuthorityHistory.rows.dropWhile fun h =>
        (h.lastValidTime + masterAuthRecoveryPeriod) % 2 ^ 32 < now } }

/-- `account_recovery_processing` -/
def accountRecoveryProcessing (db : Db) : Result Db :=
  let db := db.dropExpiredRecovery
  let due := (orderBy effectiveBefore db.changeRecoveryAccountRequests.rows).filter fun r =>
    r.effectiveOn ≤ db.headBlockTime
  due.foldlM applyRecoveryChange db

/-! ## What the steps do to the ledger -/

variable {fc : Fc} {g : Prop} {db db' : Db}

theorem clearExpiredTransactions_ledger (db : Db) :
    db.clearExpiredTransactions.ledger = db.ledger := rfl

theorem returnDelegation_ledger {d : VestingDelegationExpirationObject}
    (h : db.returnDelegation d = .ok db') : db'.ledger = db.ledger := by
  simp only [returnDelegation, bind_eq_ok, pure_eq_ok] at h
  obtain ⟨a, -, delegated, -, db₁, henergy, rfl⟩ := h
  have hledger := sharesSenderRecalcEnergy_ledger henergy
  exact hledger.trans (ledger_modifyAccount_of_same db d.delegator _ fun _ => rfl)

theorem clearExpiredDelegations_ledger (h : db.clearExpiredDelegations = .ok db') :
    db'.ledger = db.ledger :=
  foldlM_invariant (fun s => s.ledger = db.ledger) _ _
    (fun _ _ _ _ hs hstep => (returnDelegation_ledger hstep).trans hs) db db' rfl h

/-- Claimed invites are empty, so the tokens of the invites stay the same. -/
theorem clearUsedInvites_flow (hs : db.ledger.Settled fc) :
    Flow fc g 0 0 db db.clearUsedInvites := by
  refine .of_move (.invites db.ledger _ 0 ?_ (fun hs => ?_) fun _ hL => ?_)
  · rw [add_zero]
    refine Table.sum_filter_of_zero db.invites _ _ fun i hi hout => hs.invites i hi ?_
    simp only [Bool.or_eq_false_iff, decide_eq_false_iff_not] at hout
    exact hout.1
  · exact Table.all_filter hs.invites
  · exact Table.all_filter hL.invites

theorem clearClosedCommitteeRequests_flow (db : Db) :
    Flow fc g 0 0 db db.clearClosedCommitteeRequests :=
  .of_move (.terms db.ledger { db.terms with requests := _ }
    (fun _ hL => { hL.terms with requests := Table.all_filter hL.terms.requests })
    fun hF => { hF with })

theorem updateBandwidthReserveCandidates_ledger
    (h : db.updateBandwidthReserveCandidates = .ok db') : db'.ledger = db.ledger := by
  unfold updateBandwidthReserveCandidates at h
  split at h
  · simp only [bind_eq_ok, pure_eq_ok] at h
    obtain ⟨candidates, -, rfl⟩ := h
    rfl
  · cases h
    rfl

theorem expireAwardSharesProcessing_ledger (db : Db) :
    db.expireAwardSharesProcessing.ledger = db.ledger := rfl

theorem applyRecoveryChange_ledger {r : ChangeRecoveryAccountRequestObject}
    (h : db.applyRecoveryChange r = .ok db') : db'.ledger = db.ledger := by
  simp only [applyRecoveryChange, bind_eq_ok, pure_eq_ok] at h
  obtain ⟨_, -, rfl⟩ := h
  exact ledger_modifyAccount_of_same db r.accountToRecover _ fun _ => rfl

theorem accountRecoveryProcessing_ledger (h : db.accountRecoveryProcessing = .ok db') :
    db'.ledger = db.ledger :=
  foldlM_invariant (fun s => s.ledger = db.ledger) _ _
    (fun _ _ _ _ hs hstep => (applyRecoveryChange_ledger hstep).trans hs) db.dropExpiredRecovery
    db' rfl h

end Db

end VizCore.Chain
