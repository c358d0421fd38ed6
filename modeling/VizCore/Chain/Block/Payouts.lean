import VizCore.Chain.Evaluator.Committee
import VizCore.Chain.Evaluator.Sales
import VizCore.Chain.Evaluator.Subscriptions
import VizCore.Chain.Evaluator.Transfers

/-!
# Per-block payouts

The per-block steps of `database.cpp` that pay tokens: the emission, the committee,
renewals of subscriptions, and the expiry of escrows and auctions.

* `processFunds_flow`: what is issued is paid out, whatever the percentages are;
* `committeeProcessing_flow`, `paidSubscribeProcessing_flow`,
  `expireEscrowRatification_flow`, `accountOnAuctionExpiration_flow`: the other steps
  move tokens and make none.
-/

namespace VizCore.Chain

open VizCore.Lib VizCore.Protocol

/-- `CHAIN_DIGITAL_ASSET_ISSUED_PER_BLOCK` -/
def digitalAssetIssuedPerBlock : Int := 1000

/-- `COMMITTEE_REQUEST_PROCESSING` -/
def committeeRequestProcessing : Nat := 200

/-- `x * percent / CHAIN_100_PERCENT` -/
def percentOf (x percent : Int) : Result Int := do
  let product ← safeMul x percent
  safeDiv product percent100

namespace Db

/-! ## Emission -/

def processInflationRecalc (db : Db) : Db :=
  if (db.dgp.inflationCalcBlockNum + db.medianProps.inflationRecalcPeriod) % 2 ^ 32 <
      db.headBlockNum then
    db.modifyDgp fun p =>
      { p with
        inflationCalcBlockNum := p.headBlockNumber
        inflationWitnessPercent := db.medianProps.inflationWitnessPercent
        inflationRatio := db.medianProps.inflationRatioCommitteeVsRewardFund }
  else db

/-- `process_funds` -/
def processFunds (db : Db) : Result Db := do
  let witnessReward ← percentOf digitalAssetIssuedPerBlock db.dgp.inflationWitnessPercent
  let ratioReward ← safeSub digitalAssetIssuedPerBlock witnessReward
  let committeePart ← percentOf ratioReward db.dgp.inflationRatio
  let rewardFundPart ← safeSub ratioReward committeePart
  let split ← safeAdd witnessReward committeePart
  let issued ← safeAdd split rewardFundPart
  let committeeFund ← safeAdd db.dgp.committeeFund committeePart
  let totalRewardFund ← safeAdd db.dgp.totalRewardFund rewardFundPart
  let currentSupply ← safeAdd db.dgp.currentSupply issued
  let db := db.modifyDgp fun p =>
    { p with
      committeeFund := committeeFund, totalRewardFund := totalRewardFund
      currentSupply := currentSupply }
  let witness ← db.getWitness db.dgp.currentWitness
  db.createVesting witness.owner witnessReward

/-! ## The committee -/

/-- The shares of the voters on a request, and the shares weighted by their votes. -/
def tallyRequest (db : Db) (requestId : Nat) : Result (Int × Int) :=
  (db.committeeVotes.rows.filter (·.requestId = requestId)).foldlM
    (fun sums vote => do
      let voter ← db.getAccount vote.voter
      let effective ← voter.effectiveVestingShares
      let maxRshares ← safeAdd sums.1 effective
      let actual ← safeAdd sums.2 ((wrapInt64 (effective * vote.votePercent)).tdiv percent100)
      return (maxRshares, actual)) (0, 0)

/-- The payment that the votes grant. -/
def calculatedPayment (r : CommitteeRequestObject) (maxRshares actualRshares : Int) :
    Result Int := do
  let share ← divUint128 (percent100 * toUint128 actualRshares % 2 ^ 128) (toUint128 maxRshares)
  toSigned64 (toUint128 r.requiredAmountMax * share % 2 ^ 128 / percent100)

/-- The request with the object id `id`; the loops visit requests by reference. -/
def requestAt (db : Db) (id : Nat) : Result CommitteeRequestObject :=
  getOrThrow (db.committeeRequests.get (·.id) id) (.assertion "unknown key")

def modifyRequestAt (db : Db) (id : Nat) (f : CommitteeRequestObject → CommitteeRequestObject) :
    Db :=
  { db with committeeRequests := db.committeeRequests.update (·.id) id f }

/-- The end of the vote on a request. -/
def concludeRequest (db : Db) (id : Nat) : Result Db := do
  let r ← db.requestAt id
  let now := db.headBlockTime
  if r.endTime ≤ now then
    let (maxRshares, actualRshares) ← db.tallyRequest r.requestId
    let approveMinShares ← percentOf db.dgp.totalVestingShares
      db.medianProps.committeeRequestApproveMinPercent
    if maxRshares < approveMinShares then
      return db.modifyRequestAt id fun r => { r with conclusionTime := now, status := 2 }
    else if actualRshares ≤ 0 then
      return db.modifyRequestAt id fun r =>
        { r with conclusionPayoutAmount := 0, conclusionTime := now, status := 3 }
    else
      let payment ← calculatedPayment r maxRshares actualRshares
      if payment < r.requiredAmountMin then
        return db.modifyRequestAt id fun r =>
          { r with conclusionPayoutAmount := payment, conclusionTime := now, status := 3 }
      else
        return db.modifyRequestAt id fun r =>
          { r with
            conclusionPayoutAmount := payment, conclusionTime := now
            remainPayoutAmount := payment, status := 4 }
  else return db

def requestsWithStatus (db : Db) (status : Nat) : List Nat :=
  (db.committeeRequests.rows.filter (·.status = status)).map (·.id)

/-- One payment to the worker of an approved request. -/
def payRequest (maxPayment : Int) (db : Db) (id : Nat) : Result Db := do
  let r ← db.requestAt id
  let payment := min maxPayment r.remainPayoutAmount
  let db ← db.adjustBalance r.worker payment
  let fund ← safeSub db.dgp.committeeFund payment
  let db := db.modifyDgp fun p => { p with committeeFund := fund }
  let payout ← safeAdd r.payoutAmount payment
  let remain ← safeSub r.remainPayoutAmount payment
  let now := db.headBlockTime
  return db.modifyRequestAt id fun r =>
    { r with
      payoutAmount := payout, remainPayoutAmount := remain, lastPayoutTime := now
      status := if remain ≤ 0 then 5 else r.status
      payoutTime := if remain ≤ 0 then now else r.payoutTime }

/-- The payments to the approved requests. -/
def payRequests (db : Db) : Result Db := do
  let requests := db.requestsWithStatus 4
  let maxPayment ← safeDiv db.dgp.committeeFund (1 + requests.length : Nat)
  requests.foldlM (payRequest maxPayment) db

/-- `committee_processing` -/
def committeeProcessing (db : Db) : Result Db := do
  let db ← (db.requestsWithStatus 0).foldlM concludeRequest db
  if db.headBlockNum % committeeRequestProcessing = 0 then db.payRequests else return db

/-! ## Subscriptions -/

def closeSubscribe (db : Db) (id : Nat) : Db :=
  { db with
    paidSubscribes := db.paidSubscribes.update (·.id) id fun s =>
      { s with endTime := s.nextTime, nextTime := timeMaximum, active := false
               autoRenewal := false } }

/-- The renewal is paid and the next period starts. -/
def renewSubscribe (db : Db) (s : PaidSubscribeObject) (p : PaidSubscriptionObject)
    (summary : Int) : Result Db := do
  let db ← db.adjustBalance s.subscriber (-summary)
  let db ← db.adjustBalance s.creator summary
  let now := db.headBlockTime
  return { db with
    paidSubscribes := db.paidSubscribes.update (·.id) s.id fun s =>
      { s with
        amount := p.amount, level := min s.level p.levels, startTime := now
        nextTime := addSeconds now (p.period * 86400 : Nat), endTime := timeMaximum } }

/-- A subscription that is due is renewed, or closed when it has become worse. -/
def renewOrClose (db : Db) (s : PaidSubscribeObject) (p : PaidSubscriptionObject) :
    Result Db := do
  let subscriber ← db.getAccount s.subscriber
  let _ ← db.getAccount s.creator
  let oldSummary ← safeMul s.amount s.level
  if s.period ≤ p.period then
    let summary ← safeMul p.amount (min s.level p.levels : Nat)
    if summary ≤ oldSummary ∧ summary ≤ subscriber.balance then db.renewSubscribe s p summary
    else return db.closeSubscribe s.id
  else return db.closeSubscribe s.id

def processSubscribe (db : Db) (s : PaidSubscribeObject) : Result Db :=
  if s.active then
    match db.paidSubscriptions.get (·.creator) s.creator with
    | some p => if s.autoRenewal then db.renewOrClose s p else .ok (db.closeSubscribe s.id)
    | none => .ok (db.closeSubscribe s.id)
  else .ok db

/-- The order of `by_next_time`.  The index has no order of its own among rows of one time; the ids
only say which of them comes first. -/
def dueBefore (s t : PaidSubscribeObject) : Bool :=
  s.nextTime < t.nextTime || (s.nextTime == t.nextTime && s.id < t.id)

/-- The row that follows the row `id` in the index. -/
def nextSubscribe (db : Db) (id : Nat) : Option Nat := do
  let s ← db.paidSubscribes.get (·.id) id
  let next ← (orderBy dueBefore db.paidSubscribes.rows).find? (dueBefore s)
  return next.id

/-- The iterator moves on from the place to which the row has moved. -/
def subscribeLoop : Nat → Db → Option Nat → Result Db
  | 0, _, _ => .error .outOfFuel
  | _ + 1, db, none => .ok db
  | fuel + 1, db, some id => do
    let s ← getOrThrow (db.paidSubscribes.get (·.id) id) (.unknownKey "paid_subscribe by_id")
    if s.nextTime ≤ db.headBlockTime then
      let db ← db.processSubscribe s
      subscribeLoop fuel db (db.nextSubscribe id)
    else return db

/-- `paid_subscribe_processing`; a row changes its place at most twice, by a renewal whose end
wraps around and by its closing, and in between the iterator only moves forward. -/
def paidSubscribeProcessing (db : Db) : Result Db :=
  subscribeLoop ((2 * db.paidSubscribes.rows.length + 1) * (db.paidSubscribes.rows.length + 1)) db
    ((orderBy dueBefore db.paidSubscribes.rows).head?.map (·.id))

/-! ## Escrows -/

/-- The order of `by_ratification_deadline`. -/
def deadlineBefore (e f : EscrowObject) : Bool :=
  e.ratificationDeadline < f.ratificationDeadline ||
    (e.ratificationDeadline == f.ratificationDeadline && e.id < f.id)

/-- An escrow that was not approved in time goes back with its fee. -/
def expireEscrow (db : Db) (key : AccountName × Nat) : Result Db := do
  let e ← db.getEscrow key.1 key.2
  let db ← db.adjustBalance e.fromAccount e.tokenBalance
  let db ← db.adjustBalance e.fromAccount e.pendingFee
  return { db with escrows := db.escrows.erase (·.key) e.key }

/-- `expire_escrow_ratification` -/
def expireEscrowRatification (db : Db) : Result Db :=
  let due := (orderBy deadlineBefore db.escrows.rows).filter fun e =>
    !e.isApproved && e.ratificationDeadline ≤ db.headBlockTime
  (due.map (·.key)).foldlM expireEscrow db

/-! ## Auctions -/

/-- The bid is paid to the seller and the account changes hands. -/
def settleAuction (db : Db) (a : AccountObject) : Result Db := do
  let _ ← db.getAccount a.accountSeller
  let bidder ← db.getAccount a.currentBidder
  let reserved ← safeSub bidder.reservedBalance a.currentBid
  let db := db.modifyAccount a.currentBidder fun b => { b with reservedBalance := reserved }
  let db ← db.adjustBalance a.accountSeller a.currentBid
  let _ ← db.getAuthority a.name
  let db := db.setAuthorities a.name a.currentBidderKey
  return db.modifyAccount a.name fun b =>
    { b.clearSale.clearAuction with
      accountSeller := "", targetBuyer := ""
      subaccountSeller := "", subaccountOfferPrice := 0, subaccountOnSale := false
      memoKey := a.currentBidderKey
      recoveryAccount := a.currentBidder
      lastAccountUpdate := db.headBlockTime }

/-- The bid goes back and the sale ends, because the account is being recovered. -/
def cancelAuction (db : Db) (name : AccountName) : Result Db := do
  let db ← db.resetBid name
  return db.modifyAccount name fun a => { a.clearSale with targetBuyer := "" }

def expireAuction (db : Db) (name : AccountName) : Result Db := do
  let a ← db.getAccount name
  if db.headBlockTime < a.accountOnSaleStartTime then return db
  else if a.currentBidder = "" then return db.modifyAccount name (·.clearAuction)
  else
    let _ ← db.getAccount a.currentBidder
    if (a.targetBuyer = "" ∨ a.currentBidder = a.targetBuyer) ∧ a.accountOnSale = true ∧
        a.accountOfferPrice ≤ a.currentBid then
      if (db.accountRecoveryRequests.get (·.accountToRecover) name).isSome then
        db.cancelAuction name
      else db.settleAuction a
    else db.resetBid name

/-- `account_on_auction_expiration` -/
def accountOnAuctionExpiration (db : Db) : Result Db :=
  ((db.accounts.rows.filter (·.accountOnAuction)).map (·.name)).foldlM expireAuction db

/-! ## What the steps do to the ledger -/

variable {fc : Fc} {g : Prop} {db db' : Db}

theorem processInflationRecalc_flow (db : Db) : Flow fc g 0 0 db db.processInflationRecalc := by
  unfold processInflationRecalc
  split
  · exact .of_move (.terms db.ledger { db.terms with
      inflationWitnessPercent := db.medianProps.inflationWitnessPercent
      inflationRatio := db.medianProps.inflationRatioCommitteeVsRewardFund }
      (fun _ hL => { hL.terms with
        inflation := hL.terms.median.inflation, ratio := hL.terms.median.ratio })
      fun hF => { hF with inflation := hF.median.inflation, ratio := hF.median.ratio })
  · exact .refl db

/-- A percentage of an amount is a part of it. -/
theorem percentOf_bounds {x percent y : Int} (hx : 0 ≤ x)
    (hp : 0 ≤ percent ∧ percent ≤ 10000) (h : percentOf x percent = .ok y) : 0 ≤ y ∧ y ≤ x := by
  simp only [percentOf, percent100, bind_eq_ok, safeMul_eq_ok, safeDiv_eq_ok] at h
  obtain ⟨_, ⟨-, rfl⟩, -, -, rfl⟩ := h
  have hprod : 0 ≤ x * percent := mul_nonneg hx hp.1
  have hle : x * percent ≤ x * 10000 := mul_le_mul_of_nonneg_left hp.2 hx
  rw [Int.tdiv_eq_ediv_of_nonneg hprod]
  omega

/-- **Emission.**  What is issued is paid to the committee, the reward fund and the witness. -/
theorem processFunds_flow (h : db.processFunds = .ok db') : Flow fc db.Ready 0 0 db db' := by
  simp only [processFunds, bind_eq_ok, safeSub_eq_ok, safeAdd_eq_ok] at h
  obtain ⟨w, hw, _, ⟨-, rfl⟩, c, hc, _, ⟨-, rfl⟩, _, ⟨-, rfl⟩, _, ⟨-, rfl⟩, _, ⟨-, rfl⟩, _,
    ⟨hfits, rfl⟩, _, ⟨-, rfl⟩, witness, -, hvest⟩ := h
  generalize hdb₁ : db.modifyDgp _ = db₁ at hvest
  have hbounds (hF : db.terms.Fair) : (0 ≤ w ∧ w ≤ 1000) ∧ (0 ≤ c ∧ c ≤ 1000 - w) := by
    have hwit := percentOf_bounds (by decide) hF.inflation hw
    unfold digitalAssetIssuedPerBlock at hwit hc
    exact ⟨hwit, percentOf_bounds (by omega) hF.ratio hc⟩
  have hcommittee : Move fc db.Ready (c, 0) db.ledger _ :=
    .committee db.ledger c fun hL => add_nonneg hL.committeeFund (hbounds hL.terms).2.1
  have hreward : Move fc db.Ready (digitalAssetIssuedPerBlock - w - c, 0)
      { db.ledger with committeeFund := db.ledger.committeeFund + c } _ :=
    .reward _ _ (fun hL => by
      have hb := hbounds hL.terms
      have hpos := hL.rewardFund
      unfold digitalAssetIssuedPerBlock
      omega) hfits.2
  have hissue : Move fc db.Ready (-(w + c + (digitalAssetIssuedPerBlock - w - c)), 0)
      { db.ledger with
        committeeFund := db.ledger.committeeFund + c
        rewardFund := db.ledger.rewardFund + (digitalAssetIssuedPerBlock - w - c) } _ := .issue _ _
  have hwalk : Flow fc db.Ready (-w) 0 db db₁ := by
    rw [← hdb₁]
    have hall := ((Walk.single hcommittee).trans (Walk.single hreward)).trans (Walk.single hissue)
    refine Flow.cast hall ?_ rfl
    simp only [Prod.fst_add]
    omega
  have hmint : Flow fc db.Ready w 0 db₁ db' := by
    refine createVesting_flow hvest fun hg _ => ?_
    have hb := (hbounds hg.sound.terms.fair).1
    unfold maxVest
    omega
  exact (hwalk.trans hmint).cast (by omega) (add_zero 0)

/-- A change of one request that keeps its amounts. -/
theorem modifyRequestAt_flow (id : Nat) (f : CommitteeRequestObject → CommitteeRequestObject)
    (hf : ∀ r, (f r).requiredAmountMin = r.requiredAmountMin ∧
      (f r).remainPayoutAmount = r.remainPayoutAmount) :
    Flow fc g 0 0 db (db.modifyRequestAt id f) := by
  refine requests_flow _ fun _ hL => Table.all_update hL.terms.requests fun r _ hr => ?_
  rw [(hf r).1, (hf r).2]
  exact hr

theorem concludeRequest_flow {id : Nat} (h : db.concludeRequest id = .ok db') :
    Flow fc g 0 0 db db' := by
  simp only [concludeRequest, requestAt, bind_eq_ok, getOrThrow_eq_ok] at h
  obtain ⟨r, hr, h⟩ := h
  split at h
  · simp only [bind_eq_ok] at h
    obtain ⟨⟨maxRshares, actual⟩, -, approve, -, h⟩ := h
    simp only at h
    split at h
    · rw [pure_eq_ok] at h
      subst h
      exact modifyRequestAt_flow id _ fun _ => ⟨rfl, rfl⟩
    · split at h
      · rw [pure_eq_ok] at h
        subst h
        exact modifyRequestAt_flow id _ fun _ => ⟨rfl, rfl⟩
      · rw [bind_eq_ok] at h
        obtain ⟨payment, -, h⟩ := h
        split at h
        · rw [pure_eq_ok] at h
          subst h
          exact modifyRequestAt_flow id _ fun _ => ⟨rfl, rfl⟩
        · rename_i hmin
          rw [pure_eq_ok] at h
          subst h
          refine requests_flow _ fun _ hL => Table.all_update hL.terms.requests fun x hx hpos => ?_
          rw [show db.committeeRequests.get (·.id) id = some x from hx] at hr
          cases hr
          refine ⟨hpos.1, ?_⟩
          simp only
          omega
  · rw [pure_eq_ok] at h
    rw [h]
    exact .refl db'

/-- A payment takes from the committee fund at most `maxPayment`. -/
theorem payRequest_flow {maxPayment : Int} {id : Nat}
    (hg : g → 0 ≤ maxPayment)
    (hF : 0 ≤ db.dgp.committeeFund → maxPayment ≤ db.dgp.committeeFund)
    (h : payRequest maxPayment db id = .ok db') :
    Flow fc g 0 0 db db' ∧ db.dgp.committeeFund - maxPayment ≤ db'.dgp.committeeFund := by
  simp only [payRequest, requestAt, bind_eq_ok, getOrThrow_eq_ok, safeSub_eq_ok, safeAdd_eq_ok,
    pure_eq_ok] at h
  obtain ⟨r, hr, db₁, hpay, _, ⟨-, rfl⟩, _, ⟨-, rfl⟩, _, ⟨-, rfl⟩, rfl⟩ := h
  generalize hx : min maxPayment r.remainPayoutAmount = x at *
  have hsame : db₁.dgp = db.dgp ∧ db₁.committeeRequests = db.committeeRequests := by
    simp only [adjustBalance, bind_eq_ok, pure_eq_ok] at hpay
    obtain ⟨_, -, _, -, rfl⟩ := hpay
    exact ⟨rfl, rfl⟩
  have hpos (hg' : g) (hL : db.ledger.Sound) : 0 ≤ x := by
    have hremain : 0 ≤ r.remainPayoutAmount := (hL.terms.requests r (Table.get_mem hr)).2
    have hmax := hg hg'
    omega
  have hcredit : Flow fc g x 0 db db₁ := adjustBalance_credit hpay hpos
  let db₂ := db₁.modifyDgp fun p => { p with committeeFund := db₁.dgp.committeeFund - x }
  have hdebit : Flow fc g (-x) 0 db₁ db₂ := by
    refine .of_move (.committee db₁.ledger (-x) fun hL => ?_)
    rw [← hsame.1] at hF
    have hle := hF hL.committeeFund
    show 0 ≤ db₁.dgp.committeeFund + -x
    omega
  have hupdate : Flow fc g 0 0 db₂ (db₂.modifyRequestAt id fun c =>
      { c with
        payoutAmount := r.payoutAmount + x
        remainPayoutAmount := r.remainPayoutAmount - x
        lastPayoutTime := db₂.headBlockTime
        status := if r.remainPayoutAmount - x ≤ 0 then 5 else c.status
        payoutTime := if r.remainPayoutAmount - x ≤ 0 then db₂.headBlockTime else c.payoutTime }) := by
    refine requests_flow _ fun _ hL => Table.all_update hL.terms.requests fun c _ hc => ?_
    exact ⟨hc.1, by simp only; omega⟩
  refine ⟨((hcredit.trans hdebit).then_neutral hupdate).cast (by omega) (add_zero 0), ?_⟩
  show db.dgp.committeeFund - maxPayment ≤ db₁.dgp.committeeFund - x
  rw [hsame.1]
  omega

/-- Payments that the fund covers. -/
theorem payRequest_run {maxPayment : Int} {requests : List Nat} (hg : g → 0 ≤ maxPayment)
    (hF : maxPayment ≤ 0 ∨ maxPayment * requests.length ≤ db.dgp.committeeFund)
    (h : requests.foldlM (payRequest maxPayment) db = .ok db') : Flow fc g 0 0 db db' := by
  induction requests generalizing db with
  | nil =>
    simp only [List.foldlM_nil, pure_eq_ok] at h
    rw [h]
    exact .refl db'
  | cons id rest ih =>
    rw [List.foldlM_cons, bind_eq_ok] at h
    obtain ⟨db₁, hstep, hrest⟩ := h
    have hsplit : maxPayment * ((id :: rest).length : Int) =
        maxPayment * rest.length + maxPayment := by
      rw [List.length_cons, Nat.cast_succ, mul_add, mul_one]
    have hone (hfund : 0 ≤ db.dgp.committeeFund) : maxPayment ≤ db.dgp.committeeFund := by
      rcases hF with hneg | hle
      · omega
      · by_cases hneg : maxPayment ≤ 0
        · omega
        · have hnonneg : 0 ≤ maxPayment * (rest.length : Int) := mul_nonneg (by omega) (by omega)
          omega
    obtain ⟨hflow, hfund⟩ := @payRequest_flow fc _ _ _ _ _ hg hone hstep
    refine hflow.then_neutral (ih ?_ hrest)
    rcases hF with hneg | hle
    · exact .inl hneg
    · exact .inr (by omega)

theorem payRequests_flow (hg : g → 0 ≤ db.dgp.committeeFund) (h : db.payRequests = .ok db') :
    Flow fc g 0 0 db db' := by
  simp only [payRequests, bind_eq_ok, safeDiv_eq_ok] at h
  obtain ⟨_, ⟨-, -, rfl⟩, hrun⟩ := h
  have hcount : (0 : Int) ≤ ((1 + (db.requestsWithStatus 4).length : Nat) : Int) :=
    Int.natCast_nonneg _
  refine payRequest_run (fun hg' => Int.tdiv_nonneg (hg hg') hcount) ?_ hrun
  by_cases hpos : 0 ≤ db.dgp.committeeFund
  · right
    generalize db.dgp.committeeFund = fund at *
    rw [Int.tdiv_eq_ediv_of_nonneg hpos]
    have hquot : 0 ≤ fund / ((1 + (db.requestsWithStatus 4).length : Nat) : Int) :=
      Int.ediv_nonneg hpos hcount
    have hfloor := Int.ediv_mul_le fund
      (Int.natCast_ne_zero.2 (Nat.succ_ne_zero (db.requestsWithStatus 4).length))
    rw [add_comm 1]
    rw [add_comm 1] at hquot
    push_cast at hfloor hquot ⊢
    nlinarith
  · left
    have hneg : 0 ≤ -db.dgp.committeeFund := by omega
    have hquot := Int.tdiv_nonneg hneg hcount
    rw [Int.neg_tdiv] at hquot
    exact Int.nonpos_of_neg_nonneg hquot

/-- **The committee** pays out of its fund. -/
theorem committeeProcessing_flow (h : db.committeeProcessing = .ok db') :
    Flow fc db.Ready 0 0 db db' := by
  simp only [committeeProcessing, bind_eq_ok] at h
  obtain ⟨db₁, hconclude, h⟩ := h
  have hflow : Flow fc db.Ready 0 0 db db₁ :=
    .foldlM (fun _ _ _ hstep => concludeRequest_flow hstep) hconclude
  split at h
  · exact hflow.then_neutral (payRequests_flow (fun hg => (hflow.sound hg hg.sound).committeeFund) h)
  · rw [pure_eq_ok] at h
    exact h ▸ hflow

/-! ### Subscriptions -/

theorem closeSubscribe_flow (db : Db) (id : Nat) : Flow fc g 0 0 db (db.closeSubscribe id) :=
  .of_ledger_eq rfl

theorem renewOrClose_flow {s : PaidSubscribeObject} {p : PaidSubscriptionObject}
    (hp : db.paidSubscriptions.get (·.creator) s.creator = some p)
    (h : db.renewOrClose s p = .ok db') : Flow fc g 0 0 db db' := by
  simp only [renewOrClose, getAccount, bind_eq_ok, getOrThrow_eq_ok, safeMul_eq_ok] at h
  obtain ⟨subscriber, hsub, _, -, old, -, h⟩ := h
  split at h
  · simp only [bind_eq_ok, safeMul_eq_ok] at h
    obtain ⟨_, ⟨-, rfl⟩, h⟩ := h
    split at h
    · rename_i hcover
      simp only [renewSubscribe, bind_eq_ok, pure_eq_ok] at h
      obtain ⟨db₁, hdebit, db₂, hcredit, rfl⟩ := h
      have hsubs : db₁.paidSubscriptions = db.paidSubscriptions := by
        simp only [adjustBalance, bind_eq_ok, pure_eq_ok] at hdebit
        obtain ⟨_, -, _, -, rfl⟩ := hdebit
        rfl
      have hpos (hL : db₁.ledger.Sound) : 0 ≤ p.amount * ((min s.level p.levels : Nat) : Int) := by
        rw [← hsubs] at hp
        exact mul_nonneg (hL.terms.subscriptions p (Table.get_mem hp)) (Int.natCast_nonneg _)
      generalize p.amount * ((min s.level p.levels : Nat) : Int) = cost at *
      have hout : Flow fc g (-cost) 0 db db₁ := adjustBalance_debit hdebit hsub hcover.2
      have hin : Flow fc g cost 0 db₁ db₂ := adjustBalance_credit hcredit fun _ hL => hpos hL
      exact ((hout.trans hin).cast (by omega) (add_zero 0)).then_same rfl
    · rw [pure_eq_ok] at h
      subst h
      exact closeSubscribe_flow db s.id
  · rw [pure_eq_ok] at h
    subst h
    exact closeSubscribe_flow db s.id

theorem processSubscribe_flow {s : PaidSubscribeObject} (h : db.processSubscribe s = .ok db') :
    Flow fc g 0 0 db db' := by
  unfold processSubscribe at h
  split at h
  · split at h
    · rename_i p hp
      split at h
      · exact renewOrClose_flow hp h
      · cases h
        exact closeSubscribe_flow db s.id
    · cases h
      exact closeSubscribe_flow db s.id
  · cases h
    exact .refl _

theorem subscribeLoop_flow {fuel : Nat} {next : Option Nat}
    (h : subscribeLoop fuel db next = .ok db') : Flow fc g 0 0 db db' := by
  induction fuel generalizing db next with
  | zero => cases h
  | succ fuel ih =>
    cases next with
    | none =>
      cases h
      exact .refl _
    | some id =>
      simp only [subscribeLoop, bind_eq_ok] at h
      obtain ⟨s, -, h⟩ := h
      split at h
      · rw [bind_eq_ok] at h
        obtain ⟨db₁, hstep, hrest⟩ := h
        have hflow : Flow fc g 0 0 db db₁ := processSubscribe_flow hstep
        exact hflow.then_neutral (ih hrest)
      · rw [pure_eq_ok] at h
        rw [h]
        exact .refl db'

/-- **Renewals**: what the subscriber pays, the creator gets. -/
theorem paidSubscribeProcessing_flow (h : db.paidSubscribeProcessing = .ok db') :
    Flow fc g 0 0 db db' :=
  subscribeLoop_flow h

/-! ### Escrows and auctions -/

theorem expireEscrow_flow {key : AccountName × Nat} (h : db.expireEscrow key = .ok db') :
    Flow fc g 0 0 db db' := by
  simp only [expireEscrow, bind_eq_ok, pure_eq_ok] at h
  obtain ⟨e, he, db₁, htokens, db₂, hfee, rfl⟩ := h
  have he₀ := getEscrow_eq he
  have hescrows₁ := adjustBalance_escrows htokens
  have he₁ : db₁.escrows.get (·.key) e.key = some e := by rw [hescrows₁, he₀]
  have he₂ : db₂.escrows.get (·.key) e.key = some e := by rw [adjustBalance_escrows hfee, he₁]
  have hflow₁ : Flow fc g e.tokenBalance 0 db db₁ :=
    adjustBalance_credit htokens fun _ hL => (hL.escrows e (Table.get_mem he₀)).1
  have hflow₂ : Flow fc g e.pendingFee 0 db₁ db₂ :=
    adjustBalance_credit hfee fun _ hL => (hL.escrows e (Table.get_mem he₁)).2
  exact ((hflow₁.trans hflow₂).trans (eraseEscrow_flow he₂)).cast (by omega) (by omega)

/-- **Escrows** that expire go back to the sender with their fee. -/
theorem expireEscrowRatification_flow (h : db.expireEscrowRatification = .ok db') :
    Flow fc g 0 0 db db' :=
  .foldlM (fun _ _ _ hstep => expireEscrow_flow hstep) h

theorem resetBid_flow {name : AccountName} {a : AccountObject}
    (ha : db.findAccount name = some a) (hne : a.currentBidder ≠ "")
    (h : db.resetBid name = .ok db') : Flow fc g 0 0 db db' := by
  simp only [resetBid, bind_eq_ok, pure_eq_ok] at h
  obtain ⟨db₁, hreturn, rfl⟩ := h
  exact returnBid_flow ha hne hreturn (·.clearAuction) fun _ => rfl

/-- The bid moves from the bidder's reserve to the seller. -/
theorem settleAuction_flow {a : AccountObject} (ha : db.findAccount a.name = some a)
    (hne : a.currentBidder ≠ "") (h : db.settleAuction a = .ok db') : Flow fc g 0 0 db db' := by
  simp only [settleAuction, getAccount, bind_eq_ok, getOrThrow_eq_ok, safeSub_eq_ok,
    pure_eq_ok] at h
  obtain ⟨seller, hseller, bidder, hbidder, _, ⟨-, rfl⟩, db₁, hpay, _, -, rfl⟩ := h
  refine .of_move ?_
  have hunreserve : (db.modifyAccount a.currentBidder fun b =>
      { b with reservedBalance := bidder.reservedBalance - a.currentBid }).ledger =
      db.ledger.modify a.currentBidder (·.unreserve a.currentBid) :=
    ledger_modifyAccount_read hbidder _ (·.unreserve a.currentBid)
      (fun p => { p with reserved := bidder.reservedBalance - a.currentBid }) (fun _ => rfl) rfl
  have hpaid : db₁.ledger = (db.ledger.modify a.currentBidder (·.unreserve a.currentBid)).modify
      a.accountSeller (·.add a.currentBid) := by
    simp only [adjustBalance, getAccount, bind_eq_ok, getOrThrow_eq_ok, safeAdd_eq_ok,
      pure_eq_ok] at hpay
    obtain ⟨b, hb, _, ⟨-, rfl⟩, rfl⟩ := hpay
    rw [← hunreserve]
    exact ledger_modifyAccount_read hb _ (·.add a.currentBid)
      (fun p => { p with balance := b.balance + a.currentBid }) (fun _ => rfl) rfl
  rw [ledger_modifyAccount _ a.name _ (·.withBid 0 "") fun _ => rfl]
  show Move fc g (0, 0) db.ledger (db₁.ledger.modify a.name (·.withBid 0 ""))
  rw [hpaid]
  exact .settle db.ledger a.name a.accountSeller a.purse bidder.purse seller.purse
    (ledger_find_of_found ha) (ledger_find_of_found hbidder) hne (ledger_find_of_found hseller)

theorem expireAuction_flow {name : AccountName} (h : db.expireAuction name = .ok db') :
    Flow fc g 0 0 db db' := by
  simp only [expireAuction, getAccount, bind_eq_ok, getOrThrow_eq_ok] at h
  obtain ⟨a, ha, h⟩ := h
  have hname : a.name = name := Table.get_key ha
  split at h
  · rw [pure_eq_ok] at h
    rw [h]
    exact .refl db'
  · split at h
    · rw [pure_eq_ok] at h
      subst h
      refine .of_move ?_
      rw [ledger_modifyAccount db name (·.clearAuction) (·.withBid 0 "") fun _ => rfl]
      exact .drop db.ledger name
    · rename_i hne
      rw [bind_eq_ok] at h
      obtain ⟨_, -, h⟩ := h
      split at h
      · split at h
        · simp only [cancelAuction, bind_eq_ok, pure_eq_ok] at h
          obtain ⟨db₁, hreset, rfl⟩ := h
          have hflow : Flow fc g 0 0 db db₁ := resetBid_flow ha hne hreset
          exact hflow.then_modify fun _ => rfl
        · exact settleAuction_flow (hname ▸ ha) hne h
      · exact resetBid_flow ha hne h

/-- **Auctions** that end move each bid to the seller or back. -/
theorem accountOnAuctionExpiration_flow (h : db.accountOnAuctionExpiration = .ok db') :
    Flow fc g 0 0 db db' :=
  .foldlM (fun _ _ _ hstep => expireAuction_flow hstep) h

end Db

end VizCore.Chain
