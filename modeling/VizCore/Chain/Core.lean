import VizCore.Chain.Apply
import VizCore.Chain.Block.Steps

/-!
# The core of the database

The part of the database that decides over stake and control: shares, delegations,
withdrawals, proxies and votes, authorities and recovery, the bids of auctions, and what is
remembered of proposals and transactions.  Most operations and block steps leave it alone,
apart from vesting tokens and registering accounts.

* `Turn`: a change outside the core, a new account, a new witness, or tokens vested;
* `Turns`: sequences of turns, and what they keep.
-/

namespace VizCore.Chain

open VizCore.Lib VizCore.Protocol

/-- The fields of an account that belong to the core. -/
structure AccountCore where
  id : Nat
  name : AccountName
  shares : Int
  delegated : Int
  received : Int
  rate : Int
  next : TimePointSec
  withdrawn : Int
  toWithdraw : Int
  proxy : AccountName
  proxied : List Int
  votedFor : Nat
  weight : Int
  recovery : AccountName
  memo : PublicKey
  onSale : Bool
  reserved : Int
  onAuction : Bool
  bid : Int
  bidder : AccountName

def AccountObject.core (a : AccountObject) : AccountCore where
  id := a.id
  name := a.name
  shares := a.vestingShares
  delegated := a.delegatedVestingShares
  received := a.receivedVestingShares
  rate := a.vestingWithdrawRate
  next := a.nextVestingWithdrawal
  withdrawn := a.withdrawn
  toWithdraw := a.toWithdraw
  proxy := a.proxy
  proxied := a.proxiedVsfVotes
  votedFor := a.witnessesVotedFor
  weight := a.witnessesVoteWeight
  recovery := a.recoveryAccount
  memo := a.memoKey
  onSale := a.accountOnSale
  reserved := a.reservedBalance
  onAuction := a.accountOnAuction
  bid := a.currentBid
  bidder := a.currentBidder

/-- The core of an account that has just been created. -/
def AccountCore.fresh (id : Nat) (name recovery : AccountName) (memo : PublicKey) :
    AccountCore where
  id := id
  name := name
  shares := 0
  delegated := 0
  received := 0
  rate := 0
  next := timeMaximum
  withdrawn := 0
  toWithdraw := 0
  proxy := ""
  proxied := [0, 0, 0, 0]
  votedFor := 0
  weight := 0
  recovery := recovery
  memo := memo
  onSale := false
  reserved := 0
  onAuction := false
  bid := 0
  bidder := ""

def AccountCore.withDelegated (a : AccountCore) (delegated : Int) : AccountCore :=
  { a with delegated := delegated }

/-- The id, the owner and the votes of a witness. -/
structure WitnessCore where
  id : Nat
  owner : AccountName
  votes : Int

def WitnessObject.core (w : WitnessObject) : WitnessCore := ⟨w.id, w.owner, w.votes⟩

/-- What decides over the turns of a witness. -/
structure PanelRow where
  id : Nat
  owner : AccountName
  votes : Int
  penaltyPercent : Nat
  countedVotes : Int
  lastUpdate : Nat
  position : Nat
  scheduledTime : Nat

def WitnessObject.panel (w : WitnessObject) : PanelRow where
  id := w.id
  owner := w.owner
  votes := w.votes
  penaltyPercent := w.penaltyPercent
  countedVotes := w.countedVotes
  lastUpdate := w.virtualLastUpdate
  position := w.virtualPosition
  scheduledTime := w.virtualScheduledTime

/-- The turns of a witness that has just been declared. -/
def PanelRow.fresh (id : Nat) (owner : AccountName) : PanelRow where
  id := id
  owner := owner
  votes := 0
  penaltyPercent := 0
  countedVotes := 0
  lastUpdate := 0
  position := 0
  scheduledTime := 2 ^ 128 - 1

/-- How often in a row a witness has signed, and the last block that it supports. -/
structure SupportRow where
  id : Nat
  owner : AccountName
  run : Nat
  supported : Nat

def WitnessObject.support (w : WitnessObject) : SupportRow where
  id := w.id
  owner := w.owner
  run := w.currentRun
  supported := w.lastSupportedBlockNum

/-- A witness that has not signed yet. -/
def SupportRow.fresh (id : Nat) (owner : AccountName) : SupportRow := ⟨id, owner, 0, 0⟩

/-- What the capacity of the network is computed from. -/
structure Capacity where
  blockSize : Nat := 0
  reserveRatio : Nat := 0
  bandwidth : Nat := 0

structure Core where
  accounts : Table AccountCore
  authorities : Table AccountAuthorityObject
  history : Table MasterAuthorityHistoryObject
  recoveryRequests : Table AccountRecoveryRequestObject
  changeRequests : Table ChangeRecoveryAccountRequestObject
  delegations : Table VestingDelegationObject
  expirations : Table VestingDelegationExpirationObject
  routes : Table WithdrawVestingRouteObject
  witnesses : Table WitnessCore
  witnessVotes : Table WitnessVoteObject
  totalShares : Int
  totalFund : Int
  proposals : Table ProposalObject
  approvals : Table RequiredApprovalObject
  transactions : Table TransactionObject
  time : TimePointSec
  number : Nat
  headId : BlockId
  panel : Table PanelRow
  penalties : Table WitnessPenaltyExpireObject
  virtualTime : Nat
  rewardShares : Nat
  awards : Table AwardSharesExpireObject
  requests : Table CommitteeRequestObject
  requestVotes : Table CommitteeVoteObject
  irreversible : Nat
  validations : Table BlockPostValidationObject
  subscriptions : Table PaidSubscriptionObject
  subscribes : Table PaidSubscribeObject
  aslot : Nat
  recentSlots : Nat
  participation : Nat
  summaries : Table BlockSummaryObject
  capacity : Capacity
  supports : Table SupportRow
  seats : List AccountName × Nat

namespace Db

def core (db : Db) : Core where
  accounts := db.accounts.image AccountObject.core
  authorities := db.accountAuthorities
  history := db.masterAuthorityHistory
  recoveryRequests := db.accountRecoveryRequests
  changeRequests := db.changeRecoveryAccountRequests
  delegations := db.vestingDelegations
  expirations := db.vestingDelegationExpirations
  routes := db.withdrawVestingRoutes
  witnesses := db.witnesses.image WitnessObject.core
  witnessVotes := db.witnessVotes
  totalShares := db.dgp.totalVestingShares
  totalFund := db.dgp.totalVestingFund
  proposals := db.proposals
  approvals := db.requiredApprovals
  transactions := db.transactions
  time := db.dgp.time
  number := db.dgp.headBlockNumber
  headId := db.dgp.headBlockId
  panel := db.witnesses.image WitnessObject.panel
  penalties := db.witnessPenaltyExpires
  virtualTime := db.witnessSchedule.currentVirtualTime
  rewardShares := db.dgp.totalRewardShares
  awards := db.awardSharesExpires
  requests := db.committeeRequests
  requestVotes := db.committeeVotes
  irreversible := db.dgp.lastIrreversibleBlockNum
  validations := db.blockPostValidations
  subscriptions := db.paidSubscriptions
  subscribes := db.paidSubscribes
  aslot := db.dgp.currentAslot
  recentSlots := db.dgp.recentSlotsFilled
  participation := db.dgp.participationCount
  summaries := db.blockSummaries
  capacity :=
    ⟨db.dgp.maximumBlockSize, db.dgp.currentReserveRatio, db.dgp.maxVirtualBandwidth⟩
  supports := db.witnesses.image WitnessObject.support
  seats := (db.witnessSchedule.currentShuffledWitnesses, db.witnessSchedule.numScheduledWitnesses)

theorem find_core (db : Db) (name : AccountName) :
    db.core.accounts.get (·.name) name = (db.findAccount name).map AccountObject.core :=
  Table.get_image db.accounts AccountObject.core (·.name) name

/-- A change of an account, as the core shows it. -/
theorem core_modifyAccount (db : Db) (name : AccountName) (f : AccountObject → AccountObject)
    (φ : AccountCore → AccountCore) (h : ∀ a, (f a).core = φ a.core) :
    (db.modifyAccount name f).core =
      { db.core with accounts := db.core.accounts.update (·.name) name φ } := by
  have hrows : (db.accounts.update (·.name) name f).image AccountObject.core =
      (db.accounts.image AccountObject.core).update (·.name) name φ :=
    Table.image_update db.accounts AccountObject.core (·.name) name f φ h
  show ({ db.core with accounts := (db.accounts.update (·.name) name f).image _ } : Core) = _
  rw [hrows]
  rfl

/-- A change of an account that the core does not show. -/
theorem core_modifyAccount_of_same (db : Db) (name : AccountName)
    (f : AccountObject → AccountObject) (h : ∀ a, (f a).core = a.core) :
    (db.modifyAccount name f).core = db.core := by
  have hrows := Table.image_update_of_same db.accounts AccountObject.core (·.name) name f h
  show ({ db.core with accounts := (db.accounts.update (·.name) name f).image _ } : Core) = _
  rw [hrows]
  rfl

/-- A change of a witness that keeps its votes, its turns and what it supports. -/
theorem core_modifyWitness_of_same (db : Db) (name : AccountName)
    (f : WitnessObject → WitnessObject)
    (h : ∀ w, ((f w).panel, (f w).support) = (w.panel, w.support)) :
    (db.modifyWitness name f).core = db.core := by
  have hpanel (w : WitnessObject) : (f w).panel = w.panel := congrArg Prod.fst (h w)
  have hsupport (w : WitnessObject) : (f w).support = w.support := congrArg Prod.snd (h w)
  have hcore (w : WitnessObject) : (f w).core = w.core :=
    congrArg (fun r : PanelRow => WitnessCore.mk r.id r.owner r.votes) (hpanel w)
  have hrows := Table.image_update_of_same db.witnesses WitnessObject.core (·.owner) name f hcore
  have hpanels := Table.image_update_of_same db.witnesses WitnessObject.panel (·.owner) name f
    hpanel
  have hsupports := Table.image_update_of_same db.witnesses WitnessObject.support (·.owner) name f
    hsupport
  show ({ db.core with
    witnesses := (db.witnesses.update (·.owner) name f).image WitnessObject.core
    panel := (db.witnesses.update (·.owner) name f).image WitnessObject.panel
    supports := (db.witnesses.update (·.owner) name f).image WitnessObject.support } : Core) = _
  rw [hrows, hpanels, hsupports]
  rfl

end Db

/-! ## Turns -/

/-- The core but for the turns of the witnesses and the block size that they vote for. -/
def Core.withoutPanel (c : Core) : Core :=
  { c with
    panel := {}, penalties := {}, virtualTime := 0
    capacity := { c.capacity with blockSize := 0 } }

/-- The core but for the reward shares. -/
def Core.withoutRewards (c : Core) : Core := { c with rewardShares := 0, awards := {} }

/-- The core but for the requests to the committee. -/
def Core.withoutRequests (c : Core) : Core := { c with requests := {}, requestVotes := {} }

/-- The core but for the slots and the capacity. -/
def Core.withoutSlots (c : Core) : Core :=
  { c with aslot := 0, recentSlots := 0, participation := 0, capacity := {} }

/-- The core but for the subscriptions. -/
def Core.withoutSubscribes (c : Core) : Core := { c with subscriptions := {}, subscribes := {} }

/-- A new account, with its authorities. -/
def Core.register (c : Core) (name recovery : AccountName) (memo : PublicKey)
    (auth : Nat → AccountAuthorityObject) : Core :=
  { c with
    accounts := c.accounts.create fun id => .fresh id name recovery memo
    authorities := c.authorities.create auth }

/-- A new witness, without votes. -/
def Core.declare (c : Core) (owner : AccountName) : Core :=
  { c with
    witnesses := c.witnesses.create fun id => ⟨id, owner, 0⟩
    panel := c.panel.create fun id => .fresh id owner
    supports := c.supports.create fun id => .fresh id owner }

/-- An elementary change: outside the core, a new account, a new witness, or tokens that are
vested; where `g` holds these are worth no negative amount of shares. -/
inductive Turn (g : Prop) : Db → Db → Prop
  | quiet {db db' : Db} (h : db'.core = db.core) : Turn g db db'
  | register {db db' : Db} (name recovery : AccountName) (memo : PublicKey)
      (auth : Nat → AccountAuthorityObject) (hauth : ∀ id, (auth id).account = name)
      (hnew : db.findAccount name = none)
      (h : db'.core = db.core.register name recovery memo auth) : Turn g db db'
  | declare {db db' : Db} (owner : AccountName) (hnew : db.findWitness owner = none)
      (h : db'.core = db.core.declare owner) : Turn g db db'
  | vest {db db' : Db} (name : AccountName) (tokens : Int)
      (ok : g → db.VestsUp tokens)
      (h : db.createVesting name tokens = .ok db') : Turn g db db'

def Turns (g : Prop) : Db → Db → Prop := Relation.ReflTransGen (Turn g)

namespace Turns

variable {g : Prop} {a b c : Db}

theorem refl (a : Db) : Turns g a a := Relation.ReflTransGen.refl

theorem trans (h : Turns g a b) (h' : Turns g b c) : Turns g a c :=
  Relation.ReflTransGen.trans h h'

theorem single (h : Turn g a b) : Turns g a b := Relation.ReflTransGen.single h

theorem quiet (h : b.core = a.core) : Turns g a b := single (.quiet h)

theorem vest {name : AccountName} {tokens : Int} (ok : g → a.VestsUp tokens)
    (h : a.createVesting name tokens = .ok b) : Turns g a b := single (.vest name tokens ok h)

/-- A stronger guard. -/
theorem imp {g' : Prop} (hg : g' → g) (h : Turns g a b) : Turns g' a b := by
  refine Relation.ReflTransGen.mono (fun _ _ hturn => ?_) a b h
  cases hturn with
  | quiet h => exact .quiet h
  | register name recovery memo auth hauth hnew h =>
    exact .register name recovery memo auth hauth hnew h
  | declare owner hnew h => exact .declare owner hnew h
  | vest name tokens ok h => exact .vest name tokens (fun h' => ok (hg h')) h

/-- Turns followed by a change outside the core. -/
theorem then_quiet (h : Turns g a b) (h' : c.core = b.core) : Turns g a c := h.trans (.quiet h')

/-- A change outside the core followed by turns. -/
theorem after_quiet (h : b.core = a.core) (h' : Turns g b c) : Turns g a c :=
  (Turns.quiet h).trans h'

/-- What every turn keeps, turns keep. -/
theorem invariant {I : Db → Prop} (hI : ∀ db db', Turn g db db' → I db → I db')
    (h : Turns g a b) (ha : I a) : I b := by
  induction h with
  | refl => exact ha
  | tail _ hturn ih => exact hI _ _ hturn ih

/-- A loop whose passes are turns. -/
theorem foldlM {α : Type} {f : Db → α → Result Db} {l : List α}
    (hf : ∀ x db db', f db x = .ok db' → Turns g db db') (h : l.foldlM f a = .ok b) :
    Turns g a b :=
  foldlM_invariant (fun db => Turns g a db) f l
    (fun x _ db db' hdb hx => hdb.trans (hf x db db' hx)) a b (.refl a) h

end Turns

/-! ## Helpers that leave the core alone -/

namespace Db

variable {fc : Fc} {g : Prop} {db db' : Db} {name : AccountName}

theorem adjustBalance_core {x : Int} (h : db.adjustBalance name x = .ok db') :
    db'.core = db.core := by
  simp only [adjustBalance, bind_eq_ok, pure_eq_ok] at h
  obtain ⟨a, -, balance, -, rfl⟩ := h
  exact core_modifyAccount_of_same db name _ fun _ => rfl

theorem addCommitteeFund_core {x : Int} (h : db.addCommitteeFund x = .ok db') :
    db'.core = db.core := by
  simp only [addCommitteeFund, bind_eq_ok, pure_eq_ok] at h
  obtain ⟨_, -, rfl⟩ := h
  rfl

theorem burnAsset_core {x : Int} (h : db.burnAsset x = .ok db') : db'.core = db.core := by
  simp only [burnAsset, bind_eq_ok, pure_eq_ok] at h
  obtain ⟨_, -, rfl⟩ := h
  rfl

theorem payFee_core {fee : Int} {msg : String} (h : db.payFee name fee msg = .ok db') :
    db'.core = db.core := by
  simp only [payFee, bind_eq_ok] at h
  obtain ⟨_, -, _, -, db₁, hpay, hfund⟩ := h
  rw [addCommitteeFund_core hfund, adjustBalance_core hpay]

theorem sharesSenderRecalcEnergy_core {shares : Int}
    (h : db.sharesSenderRecalcEnergy name shares = .ok db') : db'.core = db.core := by
  simp only [sharesSenderRecalcEnergy, bind_eq_ok] at h
  obtain ⟨a, -, effective, -, h⟩ := h
  split at h
  · rw [pure_eq_ok] at h
    rw [← h]
    exact core_modifyAccount_of_same db name _ fun _ => rfl
  · rw [pure_eq_ok] at h
    rw [h]

theorem claimRshareAward_core {rshares payout : Int}
    (h : db.claimRshareAward rshares = .ok (payout, db')) :
    db'.core.withoutRewards = db.core.withoutRewards := by
  simp only [claimRshareAward, bind_eq_ok, pure_eq_ok, Prod.mk.injEq] at h
  obtain ⟨_, -, _, -, -, rfl⟩ := h
  rfl

/-- A claim on the reward fund of shares that fit their type, or none. -/
def Claims (db db' : Db) : Prop :=
  db' = db ∨ ∃ rshares payout, InInt64 rshares ∧ db.claimRshareAward rshares = .ok (payout, db')

theorem Claims.core (h : db.Claims db') : db'.core.withoutRewards = db.core.withoutRewards := by
  obtain rfl | ⟨_, _, -, hclaim⟩ := h
  · rfl
  · exact claimRshareAward_core hclaim

theorem rsharesOf_inInt64 {effective energy rshares : Int}
    (h : rsharesOf effective energy = .ok rshares) : InInt64 rshares := by
  simp only [rsharesOf, toSigned64, bind_eq_ok, fcAssert_eq_ok, pure_eq_ok] at h
  obtain ⟨_, hsmall, rfl⟩ := h
  exact inInt64_toInt64 hsmall

theorem claimCountedAward_claims {rshares payout : Int} (hrshares : InInt64 rshares)
    (h : db.claimCountedAward rshares = .ok (payout, db')) : db.Claims db' := by
  unfold claimCountedAward at h
  split at h
  · cases h
    exact .inl rfl
  · exact .inr ⟨rshares, payout, hrshares, h⟩

theorem fixedAwardQuote_inInt64 {o : FixedAwardOperation} {quote : FixedAwardQuote}
    (h : db.fixedAwardQuote o = .ok quote) : InInt64 quote.rshares := by
  simp only [fixedAwardQuote, bind_eq_ok, pure_eq_ok] at h
  obtain ⟨_, -, _, -, _, -, _, -, _, -, _, -, _, -, _, -, _, -, _, -, _, -, _, -, rshares, hrshares,
    _, -, _, -, _, -, rfl⟩ := h
  exact rsharesOf_inInt64 hrshares

theorem storeAccountJsonMetadata_core (db : Db) (name : AccountName) (json : String)
    (skipEmpty : Bool) : (db.storeAccountJsonMetadata name json skipEmpty).core = db.core := by
  unfold storeAccountJsonMetadata
  split
  · rfl
  · split <;> rfl

theorem spendEnergy_core (db : Db) (name : AccountName) (energy : Int) :
    (db.spendEnergy name energy).core = db.core :=
  core_modifyAccount_of_same db name _ fun _ => rfl

theorem convertible_of_totals (hfund : db'.core.totalFund = db.core.totalFund)
    (hshares : db'.core.totalShares = db.core.totalShares) (hdb : db.ledger.Convertible) :
    db'.ledger.Convertible := by
  have hfund' : db'.ledger.vestingFund = db.ledger.vestingFund := hfund
  have hshares' : db'.ledger.vestingShares = db.ledger.vestingShares := hshares
  constructor
  · rw [hfund']
    exact hdb.vestingFund
  · rw [hshares']
    exact hdb.vestingShares
  · rw [hfund', hshares']
    exact hdb.price

theorem convertible_of_core (h : db'.core = db.core) (hdb : db.ledger.Convertible) :
    db'.ledger.Convertible :=
  convertible_of_totals (congrArg Core.totalFund h) (congrArg Core.totalShares h) hdb

/-- The price of shares depends on the totals only. -/
theorem VestsUp.of_totals {tokens : Int} (hdb : db.VestsUp tokens)
    (hfund : db'.core.totalFund = db.core.totalFund)
    (hshares : db'.core.totalShares = db.core.totalShares) : db'.VestsUp tokens := by
  have hfund' : db'.dgp.totalVestingFund = db.dgp.totalVestingFund := hfund
  have hshares' : db'.dgp.totalVestingShares = db.dgp.totalVestingShares := hshares
  unfold VestsUp tokensToShares
  rw [hfund', hshares']
  exact hdb

theorem VestsUp.of_core {tokens : Int} (hdb : db.VestsUp tokens) (h : db'.core = db.core) :
    db'.VestsUp tokens :=
  hdb.of_totals (congrArg Core.totalFund h) (congrArg Core.totalShares h)

theorem claimRshareAward_convertible {rshares payout : Int}
    (h : db.claimRshareAward rshares = .ok (payout, db')) (hdb : db.ledger.Convertible) :
    db'.ledger.Convertible := by
  have hfund := congrArg Core.totalFund (claimRshareAward_core h)
  have hshares := congrArg Core.totalShares (claimRshareAward_core h)
  exact convertible_of_totals hfund hshares hdb

theorem Claims.convertible (h : db.Claims db') (hdb : db.ledger.Convertible) :
    db'.ledger.Convertible := by
  obtain rfl | ⟨_, _, -, hclaim⟩ := h
  · exact hdb
  · exact claimRshareAward_convertible hclaim hdb

theorem payBeneficiaries_turns {tokens total total' : Int} {l : List BeneficiaryRoute}
    (ok : g → db.ledger.Convertible ∧ 0 ≤ tokens ∧ tokens ≤ maxVest ∧
      (l.map (·.weight)).sum ≤ 10000)
    (h : payBeneficiaries tokens l total db = .ok (total', db')) :
    Turns g db db' ∧ (g → db'.ledger.Convertible) := by
  induction l generalizing total db with
  | nil =>
    cases h
    exact ⟨.refl _, fun hg => (ok hg).1⟩
  | cons b rest ih =>
    simp only [payBeneficiaries, bind_eq_ok] at h
    obtain ⟨_, -, part, hpart, db₁, hvest, a, -, awards, -, sum, -, hrest⟩ := h
    have hawards := core_modifyAccount_of_same db₁ b.account
      (fun a => { a with benefactorAwards := awards }) fun _ => rfl
    have hpart' (hg : g) : db.VestsUp part ∧ db₁.ledger.Convertible := by
      obtain ⟨hprice, hpos, hsmall, hsum⟩ := ok hg
      rw [List.map_cons, List.sum_cons] at hsum
      obtain ⟨hpart₀, hle⟩ := beneficiaryPart_le hpos (by omega) hpart
      exact createVesting_convertible hprice hpart₀ (hle.trans hsmall) hvest
    obtain ⟨hturns, hend⟩ := ih (fun hg => by
      obtain ⟨-, hpos, hsmall, hsum⟩ := ok hg
      rw [List.map_cons, List.sum_cons] at hsum
      exact ⟨convertible_of_core hawards (hpart' hg).2, hpos, hsmall, by omega⟩) hrest
    exact ⟨((Turns.vest (fun hg => (hpart' hg).1) hvest).then_quiet hawards).trans hturns, hend⟩

theorem payReceiver_turns {receiver : AccountName} {tokens : Int}
    (ok : g → db.ledger.Convertible ∧ tokens ≤ maxVest)
    (h : payReceiver receiver tokens db = .ok db') : Turns g db db' := by
  unfold payReceiver at h
  split at h
  · rename_i hpos
    simp only [bind_eq_ok, pure_eq_ok] at h
    obtain ⟨db₁, hvest, a, -, awards, -, rfl⟩ := h
    have hup (hg : g) : db.VestsUp tokens :=
      (createVesting_convertible (ok hg).1 hpos.le (ok hg).2 hvest).1
    exact (Turns.vest hup hvest).then_quiet
      (core_modifyAccount_of_same db₁ receiver _ fun _ => rfl)
  · cases h
    exact .refl _

/-- A new account, as the core shows it. -/
theorem core_createAccount {mk : Nat → AccountObject} {row : Nat → AccountCore}
    (hmk : ∀ id, (mk id).core = row id) (hname : ∀ id, (row id).name = name)
    (h : db.createAccount mk = .ok db') :
    db.findAccount name = none ∧
      db'.core = { db.core with accounts := db.core.accounts.create row } := by
  simp only [createAccount, require_bind_eq_ok, pure_eq_ok] at h
  obtain ⟨hnew, rfl⟩ := h
  have hrow : (mk db.accounts.nextId).name = name :=
    (congrArg AccountCore.name (hmk _)).trans (hname _)
  rw [hrow] at hnew
  refine ⟨hnew, ?_⟩
  have hrows := Table.image_create db.accounts AccountObject.core mk
  simp only [hmk] at hrows
  show ({ db.core with accounts := (db.accounts.create mk).image AccountObject.core } : Core) = _
  rw [hrows]
  rfl

theorem registerAccount_turn {mk : Nat → AccountObject} {recovery : AccountName}
    {key memo : PublicKey} (hmk : ∀ id, (mk id).core = .fresh id name recovery memo)
    (h : db.registerAccount mk name key = .ok db') : Turn g db db' := by
  simp only [registerAccount, bind_eq_ok, pure_eq_ok] at h
  obtain ⟨db₁, hcreate, rfl⟩ := h
  obtain ⟨hnew, hcore⟩ := core_createAccount hmk (fun _ => rfl) hcreate
  let auth := fun id : Nat => AccountAuthorityObject.mk id name (singleKey key) (singleKey key)
    (singleKey key) 0
  refine .register name recovery memo auth (fun _ => rfl) hnew ?_
  show ({ db₁.core with authorities := db₁.core.authorities.create auth } : Core) = _
  rw [hcore]
  rfl

/-- A new account leaves the price of shares alone. -/
theorem registerAccount_totals {mk : Nat → AccountObject} {key : PublicKey}
    (h : db.registerAccount mk name key = .ok db') :
    db'.core.totalFund = db.core.totalFund ∧ db'.core.totalShares = db.core.totalShares := by
  simp only [registerAccount, createAccount, bind_eq_ok, require_eq_ok, pure_eq_ok] at h
  obtain ⟨_, ⟨_, -, rfl⟩, rfl⟩ := h
  exact ⟨rfl, rfl⟩

/-- A new witness. -/
theorem core_createWitness (db : Db) (mk : Nat → WitnessObject) {owner : AccountName}
    (hmk : ∀ id, ((mk id).panel, (mk id).support) =
      (PanelRow.fresh id owner, SupportRow.fresh id owner)) :
    ({ db with witnesses := db.witnesses.create mk } : Db).core = db.core.declare owner := by
  have hpanel (id : Nat) : (mk id).panel = .fresh id owner := congrArg Prod.fst (hmk id)
  have hsupport (id : Nat) : (mk id).support = .fresh id owner := congrArg Prod.snd (hmk id)
  have hcore (id : Nat) : (mk id).core = ⟨id, owner, 0⟩ :=
    congrArg (fun r : PanelRow => WitnessCore.mk r.id r.owner r.votes) (hpanel id)
  have hrows := Table.image_create db.witnesses WitnessObject.core mk
  have hpanels := Table.image_create db.witnesses WitnessObject.panel mk
  have hsupports := Table.image_create db.witnesses WitnessObject.support mk
  simp only [hcore] at hrows
  simp only [hpanel] at hpanels
  simp only [hsupport] at hsupports
  show ({ db.core with
    witnesses := (db.witnesses.create mk).image WitnessObject.core
    panel := (db.witnesses.create mk).image WitnessObject.panel
    supports := (db.witnesses.create mk).image WitnessObject.support } : Core) = _
  rw [hrows, hpanels, hsupports]
  rfl

/-- The tokens that an invite turns into shares. -/
def vestedInvite (fc : Fc) (db : Db) (secret : String) : List Int :=
  match openInvite fc db secret with
  | .ok invite => [invite.balance]
  | .error _ => []

/-- The amounts of tokens that an operation turns into shares, apart from awards. -/
def vested (fc : Fc) (db : Db) : Operation → List Int
  | .transfer o => if o.toAccount = "anonymous" then [o.amount.amount] else []
  | .transferToVesting o => [o.amount.amount]
  | .accountCreate o => [o.fee.amount]
  | .buyAccount o => [o.tokensToShares.amount]
  | .useInviteBalance o => vestedInvite fc db o.inviteSecret
  | .inviteRegistration o => vestedInvite fc db o.inviteSecret
  | _ => []

/-- The payouts of the reward fund, in how many parts ever, convert to shares without overflow. -/
def Awardable (db : Db) : Prop :=
  (0 ≤ db.dgp.totalVestingFund ∧ 0 ≤ db.dgp.totalVestingShares ∧
    db.dgp.totalVestingShares ≤ 1000 * db.dgp.totalVestingFund) ∧
  0 ≤ db.dgp.totalRewardFund ∧ db.dgp.totalRewardFund ≤ maxVest

instance (db : Db) : Decidable db.Awardable := inferInstanceAs (Decidable (_ ∧ _))

/-- The operation is paid from the reward fund. -/
def paysAward : Operation → Bool
  | .award _ | .fixedAward _ => true
  | _ => false

/-- What the operation turns into shares does not overflow. -/
structure Vestable (fc : Fc) (db : Db) (op : Operation) : Prop where
  amounts : ∀ tokens ∈ db.vested fc op, db.VestsUp tokens
  awards : paysAward op = true → db.Awardable

instance (fc : Fc) (db : Db) (op : Operation) : Decidable (db.Vestable fc op) :=
  decidable_of_iff ((∀ tokens ∈ db.vested fc op, db.VestsUp tokens) ∧
    (paysAward op = true → db.Awardable)) ⟨fun h => ⟨h.1, h.2⟩, fun h => ⟨h.1, h.2⟩⟩

theorem Vestable.invite {op : Operation} {secret : String} {invite : InviteObject}
    (h : db.Vestable fc op) (hop : db.vested fc op = vestedInvite fc db secret)
    (hinvite : openInvite fc db secret = .ok invite) : db.VestsUp invite.balance := by
  refine h.amounts _ ?_
  rw [hop, vestedInvite, hinvite]
  exact List.mem_singleton_self _

theorem Awardable.convertible (h : db.Awardable) : db.ledger.Convertible :=
  ⟨h.1.1, h.1.2.1, h.1.2.2⟩

/-! ## The plain evaluators -/

theorem transfer_turns {o : TransferOperation} (h : transfer fc db o = .ok db') :
    Turns (o.toAccount = "anonymous" → db.VestsUp o.amount.amount) db db' := by
  simp only [transfer, getAccount, bind_eq_ok, getOrThrow_eq_ok, Asset.amountOf_eq_ok,
    fcAssert_eq_ok] at h
  obtain ⟨sender, -, _, -, _, ⟨-, rfl⟩, _, -, db₁, hfrom, db₂, hto, h⟩ := h
  have hcore : db₂.core = db.core := by rw [adjustBalance_core hto, adjustBalance_core hfrom]
  split at h
  · rename_i hanonymous
    simp only [createAnonymous, bind_eq_ok] at h
    obtain ⟨_, -, h⟩ := h
    split at h
    · rw [pure_eq_ok] at h
      rw [← h]
      exact .quiet hcore
    · simp only [bind_eq_ok] at h
      obtain ⟨⟨login, key, db₃⟩, hname, db₄, hreg, db₅, hpay, hvest⟩ := h
      have hcore₃ : db₃.core = db₂.core := by
        unfold anonymousAccount at hname
        split at hname
        · simp only [bind_eq_ok, pure_eq_ok, Prod.mk.injEq] at hname
          obtain ⟨_, -, _, -, _, -, _, -, -, -, rfl⟩ := hname
          rfl
        · simp only [bind_eq_ok, pure_eq_ok, Prod.mk.injEq] at hname
          obtain ⟨_, -, _, -, _, -, -, -, rfl⟩ := hname
          exact storeAccountJsonMetadata_core db₂ _ _ _
      have hturn : Turn (o.toAccount = "anonymous" → db.VestsUp o.amount.amount) db₃ db₄ :=
        registerAccount_turn (fun _ => rfl) hreg
      have hregister := Turns.after_quiet (hcore₃.trans hcore) (.single hturn)
      refine (hregister.then_quiet (adjustBalance_core hpay)).trans (.vest (fun hg => ?_) hvest)
      have hsame := registerAccount_totals hreg
      have hopen := ((hg hanonymous).of_core (hcore₃.trans hcore)).of_totals hsame.1 hsame.2
      exact hopen.of_core (adjustBalance_core hpay)
  · rw [pure_eq_ok] at h
    rw [← h]
    exact .quiet hcore

theorem transferToVesting_turns {o : TransferToVestingOperation}
    (h : db.transferToVesting o = .ok db') :
    Turns (db.VestsUp o.amount.amount) db db' := by
  simp only [transferToVesting, bind_eq_ok] at h
  obtain ⟨sender, -, _, -, _, -, db₁, hpay, hvest⟩ := h
  have hcore := adjustBalance_core hpay
  exact .after_quiet hcore (.vest (fun hg => hg.of_core hcore) hvest)

theorem escrowTransfer_core {o : EscrowTransferOperation} (h : db.escrowTransfer o = .ok db') :
    db'.core = db.core := by
  simp only [escrowTransfer, bind_eq_ok, pure_eq_ok] at h
  obtain ⟨_, -, _, -, _, -, _, -, _, -, _, -, _, -, db₁, hpay, _, -, rfl⟩ := h
  have hcore := adjustBalance_core hpay
  exact hcore

theorem escrowApprove_core {o : EscrowApproveOperation} (h : db.escrowApprove o = .ok db') :
    db'.core = db.core := by
  simp only [escrowApprove, bind_eq_ok] at h
  obtain ⟨_, -, _, -, _, -, _, -, _, -, _, -, h⟩ := h
  split at h
  · split at h
    · simp only [bind_eq_ok, pure_eq_ok] at h
      obtain ⟨db₁, hpay, rfl⟩ := h
      have hcore := adjustBalance_core hpay
      exact hcore
    · rw [pure_eq_ok] at h
      rw [← h]
      rfl
  · simp only [bind_eq_ok, pure_eq_ok] at h
    obtain ⟨db₁, hpay, db₂, hfee, rfl⟩ := h
    have hcore : db₂.core = db.core := by rw [adjustBalance_core hfee, adjustBalance_core hpay]
    exact hcore

theorem escrowDispute_core {o : EscrowDisputeOperation} (h : db.escrowDispute o = .ok db') :
    db'.core = db.core := by
  simp only [escrowDispute, bind_eq_ok, pure_eq_ok] at h
  obtain ⟨_, -, _, -, _, -, _, -, _, -, _, -, _, -, rfl⟩ := h
  rfl

theorem escrowRelease_core {o : EscrowReleaseOperation} (h : db.escrowRelease o = .ok db') :
    db'.core = db.core := by
  simp only [escrowRelease, bind_eq_ok] at h
  obtain ⟨_, -, _, -, _, -, _, -, db₁, hpay, _, -, h⟩ := h
  have hcore := adjustBalance_core hpay
  split at h <;>
  · rw [pure_eq_ok] at h
    rw [← h]
    exact hcore

theorem accountMetadataUpdate_core {o : AccountMetadataOperation}
    (h : db.accountMetadataUpdate o = .ok db') : db'.core = db.core := by
  simp only [accountMetadataUpdate, bind_eq_ok, pure_eq_ok] at h
  obtain ⟨_, -, rfl⟩ := h
  rw [storeAccountJsonMetadata_core]
  exact core_modifyAccount_of_same db _ _ fun _ => rfl

theorem custom_core {o : CustomOperation} (h : db.custom o = .ok db') : db'.core = db.core := by
  refine foldlM_invariant (fun d => d.core = db.core) _ _ (fun n _ d d' hd hstep => ?_) db db' rfl h
  simp only [countCustom, bind_eq_ok, pure_eq_ok] at hstep
  obtain ⟨_, -, rfl⟩ := hstep
  rw [← hd]
  exact core_modifyAccount_of_same d n _ fun _ => rfl

theorem witnessUpdate_turns {o : WitnessUpdateOperation} (h : db.witnessUpdate o = .ok db') :
    Turns g db db' := by
  simp only [witnessUpdate, bind_eq_ok] at h
  obtain ⟨_, -, h⟩ := h
  split at h
  · rw [pure_eq_ok] at h
    rw [← h]
    exact .quiet (core_modifyWitness_of_same db _ _ fun _ => rfl)
  · rename_i hnone
    simp only [bind_eq_ok, pure_eq_ok] at h
    obtain ⟨db₁, hfee, rfl⟩ := h
    refine .after_quiet (payFee_core hfee)
      (.single (.declare o.owner ?_ (core_createWitness db₁ _ fun _ => rfl)))
    have hwitnesses : db₁.witnesses = db.witnesses := by
      simp only [payFee, adjustBalance, addCommitteeFund, bind_eq_ok, pure_eq_ok] at hfee
      obtain ⟨_, -, _, -, _, ⟨_, -, _, -, rfl⟩, _, -, rfl⟩ := hfee
      rfl
    unfold findWitness at hnone ⊢
    rw [hwitnesses]
    exact hnone

theorem updateProps_turns {owner : AccountName} {props : VersionedChainProperties}
    (h : db.updateProps owner props = .ok db') : Turns g db db' := by
  simp only [updateProps, bind_eq_ok] at h
  obtain ⟨_, -, h⟩ := h
  split at h
  · rw [pure_eq_ok] at h
    rw [← h]
    exact .quiet (core_modifyWitness_of_same db _ _ fun _ => rfl)
  · rename_i hnone
    rw [pure_eq_ok] at h
    rw [← h]
    exact .single (.declare owner hnone (core_createWitness db _ fun _ => rfl))

theorem committeeWorkerCreateRequest_core {o : CommitteeWorkerCreateRequestOperation}
    (h : db.committeeWorkerCreateRequest o = .ok db') :
    db'.core.withoutRequests = db.core.withoutRequests := by
  simp only [committeeWorkerCreateRequest, bind_eq_ok] at h
  obtain ⟨_, -, _, -, _, -, _, -, _, -, db₁, hpay, hfund⟩ := h
  rw [addCommitteeFund_core hfund, adjustBalance_core hpay]
  rfl

theorem committeeWorkerCancelRequest_core {o : CommitteeWorkerCancelRequestOperation}
    (h : db.committeeWorkerCancelRequest o = .ok db') :
    db'.core.withoutRequests = db.core.withoutRequests := by
  simp only [committeeWorkerCancelRequest, bind_eq_ok, pure_eq_ok] at h
  obtain ⟨_, -, _, -, _, -, _, -, rfl⟩ := h
  rfl

theorem committeeVoteRequest_core {o : CommitteeVoteRequestOperation}
    (h : db.committeeVoteRequest o = .ok db') :
    db'.core.withoutRequests = db.core.withoutRequests := by
  simp only [committeeVoteRequest, bind_eq_ok] at h
  obtain ⟨_, -, _, -, _, -, h⟩ := h
  split at h
  · simp only [bind_eq_ok, pure_eq_ok] at h
    obtain ⟨_, -, rfl⟩ := h
    rfl
  · rw [pure_eq_ok] at h
    rw [← h]
    rfl

theorem createInvite_core {o : CreateInviteOperation} (h : db.createInvite o = .ok db') :
    db'.core = db.core := by
  simp only [createInvite, bind_eq_ok, pure_eq_ok] at h
  obtain ⟨_, -, _, -, _, -, _, -, _, -, db₁, hpay, rfl⟩ := h
  have hcore := adjustBalance_core hpay
  exact hcore

theorem claimInviteBalance_core {o : InviteBalanceOperation}
    (h : claimInviteBalance fc db o = .ok db') : db'.core = db.core := by
  simp only [claimInviteBalance, bind_eq_ok, pure_eq_ok] at h
  obtain ⟨_, -, _, -, _, -, db₁, hpay, rfl⟩ := h
  have hcore := adjustBalance_core hpay
  exact hcore

theorem useInviteBalance_turns {o : InviteBalanceOperation}
    (h : useInviteBalance fc db o = .ok db') :
    Turns (db.Vestable fc (.useInviteBalance o)) db db' := by
  simp only [useInviteBalance, bind_eq_ok, pure_eq_ok] at h
  obtain ⟨_, -, _, -, invite, hinvite, db₁, hvest, rfl⟩ := h
  exact (Turns.vest (fun hg => hg.invite rfl hinvite) hvest).then_quiet rfl

theorem inviteRegistration_turns {o : InviteRegistrationOperation}
    (h : inviteRegistration fc db o = .ok db') :
    Turns (db.Vestable fc (.inviteRegistration o)) db db' := by
  simp only [inviteRegistration, bind_eq_ok, pure_eq_ok] at h
  obtain ⟨_, -, invite, hinvite, db₁, hreg, db₂, hvest, rfl⟩ := h
  have hturn : Turn (db.Vestable fc (.inviteRegistration o)) db db₁ :=
    registerAccount_turn (fun _ => rfl) hreg
  refine ((Turns.single hturn).trans (.vest (fun hg => ?_) hvest)).then_quiet rfl
  have hsame := registerAccount_totals hreg
  exact (hg.invite rfl hinvite).of_totals hsame.1 hsame.2

/-- Awards are paid in parts of the payout. -/
theorem payAward_turns {db₁ db₂ : Db} {tokens total total' : Int} {receiver : AccountName}
    {l : List BeneficiaryRoute}
    (ok : g → db₁.ledger.Convertible ∧ 0 ≤ tokens ∧ tokens ≤ maxVest ∧
      (l.map (·.weight)).sum ≤ 10000)
    (hparts : payBeneficiaries tokens l 0 db₁ = .ok (total, db₂))
    (htotal : total' ≤ tokens - total) (hrest : payReceiver receiver total' db₂ = .ok db') :
    Turns g db₁ db' := by
  obtain ⟨hturns, hprice⟩ := payBeneficiaries_turns ok hparts
  refine hturns.trans (payReceiver_turns (fun hg => ⟨hprice hg, ?_⟩) hrest)
  obtain ⟨-, hpos, hsmall, -⟩ := ok hg
  have hsum := (payBeneficiaries_funds hpos _ hparts).1
  have hnonneg : 0 ≤ partsOf tokens l := partsOf_nonneg hpos _
  omega

/-- An award is claimed from the fund and then vested. -/
theorem award_turns {producing : Bool} {o : AwardOperation} (h : db.award producing o = .ok db') :
    ∃ db₁, db.Claims db₁ ∧ Turns (db.Awardable ∧ o.validate fc = .ok ()) db₁ db' := by
  simp only [award, bind_eq_ok] at h
  obtain ⟨_, -, _, -, _, -, _, -, _, -, _, hrshares, ⟨tokens, db₁⟩, hclaim, h⟩ := h
  have hclaims := claimCountedAward_claims (rsharesOf_inInt64 hrshares) hclaim
  refine ⟨db₁, hclaims, ?_⟩
  have hcore := spendEnergy_core db₁ o.initiator
  split at h
  · rename_i hpos
    simp only [bind_eq_ok, safeSub_eq_ok] at h
    obtain ⟨_, -, ⟨total, db₂⟩, hparts, _, ⟨-, rfl⟩, hrest⟩ := h
    refine .after_quiet (hcore _) (payAward_turns (fun hg => ?_) hparts le_rfl hrest)
    unfold claimCountedAward at hclaim
    split at hclaim
    · cases hclaim
      exact absurd hpos (lt_irrefl 0)
    · obtain ⟨htokens, hsmall⟩ := payout_le hg.1.2.1 hg.1.2.2 (claimRshareAward_eq hclaim).1
      exact ⟨convertible_of_core (hcore _) (hclaims.convertible hg.1.convertible), htokens, hsmall,
        award_weights hg.2⟩
  · rw [pure_eq_ok] at h
    rw [← h]
    exact .quiet (hcore _)

theorem fixedAward_turns {producing : Bool} {o : FixedAwardOperation}
    (h : db.fixedAward producing o = .ok db') :
    ∃ db₁, db.Claims db₁ ∧ Turns (db.Awardable ∧ o.validate fc = .ok ()) db₁ db' := by
  simp only [fixedAward, bind_eq_ok, safeSub_eq_ok] at h
  obtain ⟨quote, hquote, ⟨tokens, db₁⟩, hclaim, _, -, _, -, _, ⟨-, rfl⟩, _, ⟨-, rfl⟩,
    ⟨total, db₂⟩, hparts, _, ⟨-, rfl⟩, db₃, hrest, h⟩ := h
  have hclaims : db.Claims db₁ := .inr ⟨_, _, fixedAwardQuote_inInt64 hquote, hclaim⟩
  refine ⟨db₁, hclaims, ?_⟩
  have hcore := spendEnergy_core db₁ o.initiator
  have ok (hg : db.Awardable ∧ o.validate fc = .ok ()) :
      db₁.ledger.Convertible ∧ 0 ≤ tokens ∧ tokens ≤ maxVest ∧
        (o.beneficiaries.map (·.weight)).sum ≤ 10000 := by
    obtain ⟨htokens, hsmall⟩ := payout_le hg.1.2.1 hg.1.2.2 (claimRshareAward_eq hclaim).1
    exact ⟨hclaims.convertible hg.1.convertible, htokens, hsmall, fixedAward_weights hg.2⟩
  have hcover := fixedAwardQuote_covers hquote (claimRshareAward_eq hclaim).1
  have hpaid := Turns.after_quiet (hcore _) (payAward_turns
    (fun hg => ⟨convertible_of_core (hcore _) (ok hg).1, (ok hg).2⟩) hparts (by omega) hrest)
  split at h
  · exact hpaid.then_quiet (addCommitteeFund_core h)
  · rw [pure_eq_ok] at h
    rw [← h]
    exact hpaid

theorem setPaidSubscription_core {o : SetPaidSubscriptionOperation}
    (h : db.setPaidSubscription o = .ok db') :
    db'.core.withoutSubscribes = db.core.withoutSubscribes := by
  simp only [setPaidSubscription, bind_eq_ok] at h
  obtain ⟨_, -, h⟩ := h
  split at h
  · rw [pure_eq_ok] at h
    rw [← h]
    rfl
  · simp only [bind_eq_ok, pure_eq_ok] at h
    obtain ⟨db₁, hfee, rfl⟩ := h
    have hcore := congrArg Core.withoutSubscribes (payFee_core hfee)
    exact hcore

theorem paySubscription_core {o : PaidSubscribeOperation} {cost : Int}
    (h : db.paySubscription o cost = .ok db') : db'.core = db.core := by
  simp only [paySubscription, bind_eq_ok] at h
  obtain ⟨_, -, _, -, db₁, hpay, hcredit⟩ := h
  rw [adjustBalance_core hcredit, adjustBalance_core hpay]

theorem newSubscribe_core {o : PaidSubscribeOperation} {summary : Int}
    (h : db.newSubscribe o summary = .ok db') :
    db'.core.withoutSubscribes = db.core.withoutSubscribes := by
  simp only [newSubscribe, bind_eq_ok, pure_eq_ok] at h
  obtain ⟨db₁, hpay, rfl⟩ := h
  have hcore := congrArg Core.withoutSubscribes (paySubscription_core hpay)
  exact hcore

theorem paidSubscribe_core {o : PaidSubscribeOperation} (h : db.paidSubscribe o = .ok db') :
    db'.core.withoutSubscribes = db.core.withoutSubscribes := by
  simp only [paidSubscribe, bind_eq_ok] at h
  obtain ⟨_, -, _, -, _, -, _, -, _, -, _, -, _, -, _, -, _, -, h⟩ := h
  split at h
  · exact newSubscribe_core h
  · split at h
    · split at h
      · simp only [bind_eq_ok, pure_eq_ok] at h
        obtain ⟨_, -, rfl⟩ := h
        rfl
      · simp only [changeSubscribe, bind_eq_ok] at h
        obtain ⟨_, -, h⟩ := h
        split at h
        · simp only [bind_eq_ok, pure_eq_ok] at h
          obtain ⟨_, -, _, -, rfl⟩ := h
          rfl
        · simp only [bind_eq_ok, pure_eq_ok] at h
          obtain ⟨_, -, db₁, hpay, rfl⟩ := h
          have hcore := congrArg Core.withoutSubscribes (paySubscription_core hpay)
          exact hcore
    · have hcore := newSubscribe_core h
      exact hcore

theorem paySaleFee_core {seller : AccountName} {fee : Int} {msg : String}
    (h : db.paySaleFee name seller fee msg = .ok db') : db'.core = db.core := by
  unfold paySaleFee at h
  split at h
  · exact payFee_core h
  · rw [pure_eq_ok] at h
    rw [h]

theorem setSubaccountPrice_core {o : SetSubaccountPriceOperation}
    (h : db.setSubaccountPrice o = .ok db') : db'.core = db.core := by
  simp only [setSubaccountPrice, bind_eq_ok, pure_eq_ok] at h
  obtain ⟨_, -, _, -, db₁, hfee, rfl⟩ := h
  rw [← paySaleFee_core hfee]
  exact core_modifyAccount_of_same db₁ _ _ fun _ => rfl

end Db

end VizCore.Chain
