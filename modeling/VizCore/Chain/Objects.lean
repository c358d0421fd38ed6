import VizCore.Lib.Table
import VizCore.Protocol.Operations

/-!
# The object database

The objects of the chain database and the database that holds them, for states in
which all hardforks are applied.  Amounts of objects are plain integers: the source
keeps balances in tokens and vesting fields in shares, and `validate` has fixed the
symbols of what the operations store.  The tables of contents and content votes are
empty since hardfork 4 and are left out, as are fields that no function reads.
-/

namespace VizCore.Chain

open VizCore.Lib VizCore.Protocol

/-- A block id: the block's number is part of its hash. -/
structure BlockId where
  num : Nat
  hash : Nat
  deriving DecidableEq, Repr

abbrev TransactionId := Nat

/-- Versions and hardfork versions as their 32-bit number. -/
abbrev Version := Nat

/-! ## Accounts -/

structure AccountObject where
  id : Nat
  name : AccountName
  memoKey : PublicKey := 0
  proxy : AccountName := ""
  referrer : AccountName := ""
  lastAccountUpdate : TimePointSec := 0
  created : TimePointSec := 0
  recoveryAccount : AccountName := ""
  lastAccountRecovery : TimePointSec := 0
  voteCount : Nat := 0
  awardedRshares : Nat := 0
  customSequence : Nat := 0
  customSequenceBlockNum : Nat := 0
  energy : Int := 10000
  lastVoteTime : TimePointSec := 0
  balance : Int := 0
  receiverAwards : Int := 0
  benefactorAwards : Int := 0
  vestingShares : Int := 0
  delegatedVestingShares : Int := 0
  receivedVestingShares : Int := 0
  vestingWithdrawRate : Int := 0
  nextVestingWithdrawal : TimePointSec := timeMaximum
  withdrawn : Int := 0
  toWithdraw : Int := 0
  withdrawRoutes : Nat := 0
  proxiedVsfVotes : List Int := [0, 0, 0, 0]
  witnessesVotedFor : Nat := 0
  witnessesVoteWeight : Int := 0
  averageBandwidth : Int := 0
  lifetimeBandwidth : Int := 0
  lastBandwidthUpdate : TimePointSec := 0
  valid : Bool := true
  accountSeller : AccountName := ""
  accountOfferPrice : Int := 0
  accountOnSale : Bool := false
  accountOnSaleStartTime : TimePointSec := 0
  reservedBalance : Int := 0
  targetBuyer : AccountName := ""
  accountOnAuction : Bool := false
  currentBid : Int := 0
  currentBidder : AccountName := ""
  currentBidderKey : PublicKey := 0
  lastBid : Int := 0
  subaccountSeller : AccountName := ""
  subaccountOfferPrice : Int := 0
  subaccountOnSale : Bool := false

structure AccountAuthorityObject where
  id : Nat
  account : AccountName
  master : Authority
  active : Authority
  regular : Authority
  lastMasterUpdate : TimePointSec

structure AccountMetadataObject where
  id : Nat
  account : AccountName
  jsonMetadata : String

structure VestingDelegationObject where
  id : Nat
  delegator : AccountName
  delegatee : AccountName
  vestingShares : Int
  minDelegationTime : TimePointSec

structure VestingDelegationExpirationObject where
  id : Nat
  delegator : AccountName
  vestingShares : Int
  expiration : TimePointSec

structure MasterAuthorityHistoryObject where
  id : Nat
  account : AccountName
  previousMasterAuthority : Authority
  lastValidTime : TimePointSec

structure AccountRecoveryRequestObject where
  id : Nat
  accountToRecover : AccountName
  newMasterAuthority : Authority
  expires : TimePointSec

structure ChangeRecoveryAccountRequestObject where
  id : Nat
  accountToRecover : AccountName
  recoveryAccount : AccountName
  effectiveOn : TimePointSec

/-! ## Witnesses -/

inductive WitnessScheduleType
  | top
  | support
  | none
  deriving DecidableEq

structure WitnessObject where
  id : Nat
  owner : AccountName
  created : TimePointSec := 0
  url : String := ""
  totalMissed : Nat := 0
  lastAslot : Nat := 0
  lastConfirmedBlockNum : Nat := 0
  currentRun : Nat := 0
  lastSupportedBlockNum : Nat := 0
  signingKey : PublicKey := 0
  props : ChainPropertiesHf9 := {}
  votes : Int := 0
  penaltyPercent : Nat := 0
  countedVotes : Int := 0
  schedule : WitnessScheduleType := .none
  virtualLastUpdate : Nat := 0
  virtualPosition : Nat := 0
  virtualScheduledTime : Nat := 2 ^ 128 - 1
  runningVersion : Version := 0
  hardforkVersionVote : Version := 0
  hardforkTimeVote : TimePointSec := 0

structure WitnessVoteObject where
  id : Nat
  witness : Nat
  account : Nat
  deriving DecidableEq

structure WitnessPenaltyExpireObject where
  id : Nat
  witness : AccountName
  penaltyPercent : Int
  expires : TimePointSec
  deriving DecidableEq

structure WitnessScheduleObject where
  currentVirtualTime : Nat := 0
  nextShuffleBlockNum : Nat := 1
  /-- an array of 21 names -/
  currentShuffledWitnesses : List AccountName := []
  numScheduledWitnesses : Nat := 1
  medianProps : ChainPropertiesHf9 := {}
  majorityVersion : Version := 0

/-! ## Escrows, routes, awards, committee, invites, subscriptions -/

structure EscrowObject where
  id : Nat
  escrowId : Nat
  fromAccount : AccountName
  toAccount : AccountName
  agent : AccountName
  ratificationDeadline : TimePointSec
  escrowExpiration : TimePointSec
  tokenBalance : Int
  pendingFee : Int
  toApproved : Bool := false
  agentApproved : Bool := false
  disputed : Bool := false
  deriving DecidableEq

def EscrowObject.isApproved (e : EscrowObject) : Bool := e.toApproved && e.agentApproved

structure WithdrawVestingRouteObject where
  id : Nat
  fromAccount : Nat
  toAccount : Nat
  percent : Nat
  autoVest : Bool
  deriving DecidableEq

structure AwardSharesExpireObject where
  id : Nat
  expires : TimePointSec
  rshares : Int
  deriving DecidableEq

structure CommitteeRequestObject where
  id : Nat
  requestId : Nat
  url : String
  creator : AccountName
  worker : AccountName
  requiredAmountMin : Int
  requiredAmountMax : Int
  startTime : TimePointSec
  duration : Nat
  endTime : TimePointSec
  status : Nat
  votesCount : Nat
  conclusionTime : TimePointSec
  conclusionPayoutAmount : Int := 0
  payoutAmount : Int := 0
  remainPayoutAmount : Int := 0
  lastPayoutTime : TimePointSec
  payoutTime : TimePointSec

structure CommitteeVoteObject where
  id : Nat
  requestId : Nat
  voter : AccountName
  votePercent : Int
  lastUpdate : TimePointSec
  deriving DecidableEq

structure InviteObject where
  id : Nat
  creator : AccountName
  receiver : AccountName := ""
  inviteKey : PublicKey
  inviteSecret : String := ""
  balance : Int := 0
  claimedBalance : Int := 0
  createTime : TimePointSec
  claimTime : TimePointSec := 0
  status : Nat
  deriving DecidableEq

structure PaidSubscriptionObject where
  id : Nat
  creator : AccountName
  url : String
  levels : Nat
  amount : Int
  period : Nat
  updateTime : TimePointSec
  deriving DecidableEq

structure PaidSubscribeObject where
  id : Nat
  subscriber : AccountName
  creator : AccountName
  level : Nat
  amount : Int
  period : Nat
  startTime : TimePointSec
  nextTime : TimePointSec
  endTime : TimePointSec
  active : Bool
  autoRenewal : Bool
  deriving DecidableEq

/-! ## Proposals -/

structure ProposalObject where
  id : Nat
  author : AccountName
  title : String
  memo : String
  expirationTime : TimePointSec
  reviewPeriodTime : Option TimePointSec
  proposedOperations : List Operation
  requiredActiveApprovals : List AccountName
  availableActiveApprovals : List AccountName := []
  requiredMasterApprovals : List AccountName
  availableMasterApprovals : List AccountName := []
  requiredRegularApprovals : List AccountName
  availableRegularApprovals : List AccountName := []
  availableKeyApprovals : List PublicKey := []

structure RequiredApprovalObject where
  id : Nat
  account : AccountName
  proposal : Nat
  deriving DecidableEq

/-! ## Global objects and blocks -/

structure DynamicGlobalPropertyObject where
  headBlockNumber : Nat := 0
  headBlockId : BlockId := ⟨0, 0⟩
  time : TimePointSec := 0
  currentWitness : AccountName := ""
  committeeFund : Int := 0
  committeeRequests : Nat := 0
  currentSupply : Int := 0
  totalVestingFund : Int := 0
  totalVestingShares : Int := 0
  totalRewardFund : Int := 0
  totalRewardShares : Nat := 0
  inflationCalcBlockNum : Nat := 0
  inflationWitnessPercent : Int := 0
  inflationRatio : Int := 0
  averageBlockSize : Nat := 0
  maximumBlockSize : Nat := 0
  currentAslot : Nat := 0
  recentSlotsFilled : Nat := 0
  participationCount : Nat := 0
  lastIrreversibleBlockNum : Nat := 0
  lastIrreversibleBlockId : BlockId := ⟨0, 0⟩
  maxVirtualBandwidth : Nat := 0
  currentReserveRatio : Nat := 1
  voteRegenerationPerDay : Nat := 1
  bandwidthReserveCandidates : Nat := 1

structure BlockPostValidationObject where
  id : Nat
  blockNum : Nat
  blockId : BlockId
  currentShuffledWitnesses : List AccountName
  currentShuffledWitnessesValidations : List Bool
  deriving DecidableEq

structure BlockSummaryObject where
  id : Nat
  blockId : BlockId
  deriving DecidableEq

structure TransactionObject where
  id : Nat
  trxId : TransactionId
  expiration : TimePointSec
  deriving DecidableEq

structure HardforkPropertyObject where
  currentHardforkVersion : Version := 0
  nextHardfork : Version := 0
  nextHardforkTime : TimePointSec := 0

/-- The chain database. -/
structure Db where
  dgp : DynamicGlobalPropertyObject := {}
  witnessSchedule : WitnessScheduleObject := {}
  hardforkProperty : HardforkPropertyObject := {}
  accounts : Table AccountObject := {}
  accountAuthorities : Table AccountAuthorityObject := {}
  accountMetadata : Table AccountMetadataObject := {}
  vestingDelegations : Table VestingDelegationObject := {}
  vestingDelegationExpirations : Table VestingDelegationExpirationObject := {}
  masterAuthorityHistory : Table MasterAuthorityHistoryObject := {}
  accountRecoveryRequests : Table AccountRecoveryRequestObject := {}
  changeRecoveryAccountRequests : Table ChangeRecoveryAccountRequestObject := {}
  witnesses : Table WitnessObject := {}
  witnessVotes : Table WitnessVoteObject := {}
  witnessPenaltyExpires : Table WitnessPenaltyExpireObject := {}
  escrows : Table EscrowObject := {}
  withdrawVestingRoutes : Table WithdrawVestingRouteObject := {}
  awardSharesExpires : Table AwardSharesExpireObject := {}
  committeeRequests : Table CommitteeRequestObject := {}
  committeeVotes : Table CommitteeVoteObject := {}
  invites : Table InviteObject := {}
  paidSubscriptions : Table PaidSubscriptionObject := {}
  paidSubscribes : Table PaidSubscribeObject := {}
  proposals : Table ProposalObject := {}
  requiredApprovals : Table RequiredApprovalObject := {}
  blockPostValidations : Table BlockPostValidationObject := {}
  blockSummaries : Table BlockSummaryObject := {}
  transactions : Table TransactionObject := {}

namespace Db

variable (db : Db)

/-! ## Reading -/

def headBlockTime : TimePointSec := db.dgp.time

def headBlockNum : Nat := db.dgp.headBlockNumber

def headBlockId : BlockId := db.dgp.headBlockId

def medianProps : ChainPropertiesHf9 := db.witnessSchedule.medianProps

def findAccount (name : AccountName) : Option AccountObject :=
  db.accounts.get (·.name) name

def getAccount (name : AccountName) : Result AccountObject :=
  getOrThrow (db.findAccount name) (.unknownKey "account by_name")

def getAccountById (id : Nat) : Result AccountObject :=
  getOrThrow (db.accounts.get (·.id) id) (.unknownKey "account by_id")

def getAuthority (name : AccountName) : Result AccountAuthorityObject :=
  getOrThrow (db.accountAuthorities.get (·.account) name) (.unknownKey "account_authority")

def findWitness (name : AccountName) : Option WitnessObject :=
  db.witnesses.get (·.owner) name

def getWitness (name : AccountName) : Result WitnessObject :=
  getOrThrow (db.findWitness name) (.unknownKey "witness by_name")

/-! ## Writing -/

def modifyAccount (name : AccountName) (f : AccountObject → AccountObject) : Db :=
  { db with accounts := db.accounts.update (·.name) name f }

def modifyDgp (f : DynamicGlobalPropertyObject → DynamicGlobalPropertyObject) : Db :=
  { db with dgp := f db.dgp }

def modifyWitness (name : AccountName) (f : WitnessObject → WitnessObject) : Db :=
  { db with witnesses := db.witnesses.update (·.owner) name f }

/-- Creating an account fails when the name is taken. -/
def createAccount (mk : Nat → AccountObject) : Result Db := do
  let row := mk db.accounts.nextId
  require (db.findAccount row.name = none) (.duplicateKey "account by_name")
  return { db with accounts := db.accounts.create mk }

def createAuthority (mk : Nat → AccountAuthorityObject) : Db :=
  { db with accountAuthorities := db.accountAuthorities.create mk }

end Db

end VizCore.Chain
