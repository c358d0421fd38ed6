import VizCore.Protocol.Types

/-!
# Operations

The operations a transaction can carry, with the fields of the source, and the
authorities each of them requires.  Extensions carry no data here and virtual
operations are never part of a transaction, so neither occurs.
-/

namespace VizCore.Protocol

structure BeneficiaryRoute where
  account : AccountName
  weight : Nat
  deriving DecidableEq

/-! ## Chain properties voted by witnesses -/

structure ChainPropertiesInit where
  accountCreationFee : Asset := ⟨1000, tokenSymbol⟩
  maximumBlockSize : Nat := 2 * (1024 * 64)
  createAccountDelegationRatio : Nat := 10
  createAccountDelegationTime : Nat := 30 * 24 * 60 * 60
  minDelegation : Asset := ⟨1, tokenSymbol⟩
  minCurationPercent : Int := 1600
  maxCurationPercent : Int := 1600
  bandwidthReservePercent : Int := 1000
  bandwidthReserveBelow : Asset := ⟨500000000, sharesSymbol⟩
  flagEnergyAdditionalCost : Int := 0
  voteAccountingMinRshares : Nat := 5000000
  committeeRequestApproveMinPercent : Int := 1000
  deriving DecidableEq

structure ChainPropertiesHf4 extends ChainPropertiesInit where
  inflationWitnessPercent : Int := 2000
  inflationRatioCommitteeVsRewardFund : Int := 5000
  inflationRecalcPeriod : Nat := 28 * 28800
  deriving DecidableEq

structure ChainPropertiesHf6 extends ChainPropertiesHf4 where
  dataOperationsCostAdditionalBandwidth : Nat := 0
  witnessMissPenaltyPercent : Int := 100
  witnessMissPenaltyDuration : Nat := 28800 * 3
  deriving DecidableEq

structure ChainPropertiesHf9 extends ChainPropertiesHf6 where
  createInviteMinBalance : Asset := ⟨10000, tokenSymbol⟩
  committeeCreateRequestFee : Asset := ⟨100000, tokenSymbol⟩
  createPaidSubscriptionFee : Asset := ⟨100000, tokenSymbol⟩
  accountOnSaleFee : Asset := ⟨10000, tokenSymbol⟩
  subaccountOnSaleFee : Asset := ⟨100000, tokenSymbol⟩
  witnessDeclarationFee : Asset := ⟨10000, tokenSymbol⟩
  withdrawIntervals : Nat := 28
  deriving DecidableEq

/-- `versioned_chain_properties`. -/
inductive VersionedChainProperties
  | init (props : ChainPropertiesInit)
  | hf4 (props : ChainPropertiesHf4)
  | hf6 (props : ChainPropertiesHf6)
  | hf9 (props : ChainPropertiesHf9)
  deriving DecidableEq

/-! ## Accounts -/

structure AccountCreateOperation where
  fee : Asset
  delegation : Asset
  creator : AccountName
  newAccountName : AccountName
  master : Authority
  active : Authority
  regular : Authority
  memoKey : PublicKey
  jsonMetadata : String
  referrer : AccountName
  deriving DecidableEq

structure AccountUpdateOperation where
  account : AccountName
  master : Option Authority
  active : Option Authority
  regular : Option Authority
  memoKey : PublicKey
  jsonMetadata : String
  deriving DecidableEq

structure AccountMetadataOperation where
  account : AccountName
  jsonMetadata : String
  deriving DecidableEq

structure RequestAccountRecoveryOperation where
  recoveryAccount : AccountName
  accountToRecover : AccountName
  newMasterAuthority : Authority
  deriving DecidableEq

structure RecoverAccountOperation where
  accountToRecover : AccountName
  newMasterAuthority : Authority
  recentMasterAuthority : Authority
  deriving DecidableEq

structure ChangeRecoveryAccountOperation where
  accountToRecover : AccountName
  newRecoveryAccount : AccountName
  deriving DecidableEq

/-! ## Deprecated content operations -/

structure ContentOperation where
  parentAuthor : AccountName
  parentPermlink : String
  author : AccountName
  permlink : String
  title : String
  body : String
  curationPercent : Int
  jsonMetadata : String
  /-- the `content_payout_beneficiaries` extensions -/
  extensions : List (List BeneficiaryRoute)
  deriving DecidableEq

structure DeleteContentOperation where
  author : AccountName
  permlink : String
  deriving DecidableEq

structure VoteOperation where
  voter : AccountName
  author : AccountName
  permlink : String
  weight : Int
  deriving DecidableEq

/-! ## Tokens and shares -/

structure TransferOperation where
  fromAccount : AccountName
  toAccount : AccountName
  amount : Asset
  memo : String
  deriving DecidableEq

structure EscrowTransferOperation where
  fromAccount : AccountName
  toAccount : AccountName
  agent : AccountName
  escrowId : Nat
  tokenAmount : Asset
  fee : Asset
  ratificationDeadline : TimePointSec
  escrowExpiration : TimePointSec
  jsonMetadata : String
  deriving DecidableEq

structure EscrowApproveOperation where
  fromAccount : AccountName
  toAccount : AccountName
  agent : AccountName
  who : AccountName
  escrowId : Nat
  approve : Bool
  deriving DecidableEq

structure EscrowDisputeOperation where
  fromAccount : AccountName
  toAccount : AccountName
  agent : AccountName
  who : AccountName
  escrowId : Nat
  deriving DecidableEq

structure EscrowReleaseOperation where
  fromAccount : AccountName
  toAccount : AccountName
  agent : AccountName
  who : AccountName
  receiver : AccountName
  escrowId : Nat
  tokenAmount : Asset
  deriving DecidableEq

structure TransferToVestingOperation where
  fromAccount : AccountName
  toAccount : AccountName
  amount : Asset
  deriving DecidableEq

structure WithdrawVestingOperation where
  account : AccountName
  vestingShares : Asset
  deriving DecidableEq

structure SetWithdrawVestingRouteOperation where
  fromAccount : AccountName
  toAccount : AccountName
  percent : Nat
  autoVest : Bool
  deriving DecidableEq

structure DelegateVestingSharesOperation where
  delegator : AccountName
  delegatee : AccountName
  vestingShares : Asset
  deriving DecidableEq

/-! ## Witnesses -/

structure WitnessUpdateOperation where
  owner : AccountName
  url : String
  blockSigningKey : PublicKey
  deriving DecidableEq

structure ChainPropertiesUpdateOperation where
  owner : AccountName
  props : ChainPropertiesInit
  deriving DecidableEq

structure VersionedChainPropertiesUpdateOperation where
  owner : AccountName
  props : VersionedChainProperties
  deriving DecidableEq

structure AccountWitnessVoteOperation where
  account : AccountName
  witness : AccountName
  approve : Bool
  deriving DecidableEq

structure AccountWitnessProxyOperation where
  account : AccountName
  proxy : AccountName
  deriving DecidableEq

structure CustomOperation where
  requiredActiveAuths : List AccountName
  requiredRegularAuths : List AccountName
  id : String
  json : String
  deriving DecidableEq

/-! ## Committee, invites, awards -/

structure CommitteeWorkerCreateRequestOperation where
  creator : AccountName
  url : String
  worker : AccountName
  requiredAmountMin : Asset
  requiredAmountMax : Asset
  duration : Nat
  deriving DecidableEq

structure CommitteeWorkerCancelRequestOperation where
  creator : AccountName
  requestId : Nat
  deriving DecidableEq

structure CommitteeVoteRequestOperation where
  voter : AccountName
  requestId : Nat
  votePercent : Int
  deriving DecidableEq

structure CreateInviteOperation where
  creator : AccountName
  balance : Asset
  inviteKey : PublicKey
  deriving DecidableEq

/-- `claim_invite_balance_operation` and `use_invite_balance_operation` have the same
fields. -/
structure InviteBalanceOperation where
  initiator : AccountName
  receiver : AccountName
  inviteSecret : String
  deriving DecidableEq

structure InviteRegistrationOperation where
  initiator : AccountName
  newAccountName : AccountName
  inviteSecret : String
  newAccountKey : PublicKey
  deriving DecidableEq

structure AwardOperation where
  initiator : AccountName
  receiver : AccountName
  energy : Nat
  customSequence : Nat
  memo : String
  beneficiaries : List BeneficiaryRoute
  deriving DecidableEq

structure FixedAwardOperation where
  initiator : AccountName
  receiver : AccountName
  rewardAmount : Asset
  maxEnergy : Nat
  customSequence : Nat
  memo : String
  beneficiaries : List BeneficiaryRoute
  deriving DecidableEq

/-! ## Subscriptions and account sales -/

structure SetPaidSubscriptionOperation where
  account : AccountName
  url : String
  levels : Nat
  amount : Asset
  period : Nat
  deriving DecidableEq

structure PaidSubscribeOperation where
  subscriber : AccountName
  account : AccountName
  level : Nat
  amount : Asset
  period : Nat
  autoRenewal : Bool
  deriving DecidableEq

structure SetAccountPriceOperation where
  account : AccountName
  accountSeller : AccountName
  accountOfferPrice : Asset
  accountOnSale : Bool
  deriving DecidableEq

structure SetSubaccountPriceOperation where
  account : AccountName
  subaccountSeller : AccountName
  subaccountOfferPrice : Asset
  subaccountOnSale : Bool
  deriving DecidableEq

structure TargetAccountSaleOperation where
  account : AccountName
  accountSeller : AccountName
  targetBuyer : AccountName
  accountOfferPrice : Asset
  accountOnSale : Bool
  deriving DecidableEq

structure BuyAccountOperation where
  buyer : AccountName
  account : AccountName
  accountOfferPrice : Asset
  accountAuthoritiesKey : PublicKey
  tokensToShares : Asset
  deriving DecidableEq

/-! ## Proposals -/

structure ProposalUpdateOperation where
  author : AccountName
  title : String
  activeApprovalsToAdd : List AccountName
  activeApprovalsToRemove : List AccountName
  masterApprovalsToAdd : List AccountName
  masterApprovalsToRemove : List AccountName
  regularApprovalsToAdd : List AccountName
  regularApprovalsToRemove : List AccountName
  keyApprovalsToAdd : List PublicKey
  keyApprovalsToRemove : List PublicKey
  deriving DecidableEq

structure ProposalDeleteOperation where
  author : AccountName
  title : String
  requester : AccountName
  deriving DecidableEq

/-- The operations of `protocol::operation` that are not virtual.  A proposal carries the
operations it proposes. -/
inductive Operation
  | vote (op : VoteOperation)
  | content (op : ContentOperation)
  | transfer (op : TransferOperation)
  | transferToVesting (op : TransferToVestingOperation)
  | withdrawVesting (op : WithdrawVestingOperation)
  | accountUpdate (op : AccountUpdateOperation)
  | witnessUpdate (op : WitnessUpdateOperation)
  | accountWitnessVote (op : AccountWitnessVoteOperation)
  | accountWitnessProxy (op : AccountWitnessProxyOperation)
  | deleteContent (op : DeleteContentOperation)
  | custom (op : CustomOperation)
  | setWithdrawVestingRoute (op : SetWithdrawVestingRouteOperation)
  | requestAccountRecovery (op : RequestAccountRecoveryOperation)
  | recoverAccount (op : RecoverAccountOperation)
  | changeRecoveryAccount (op : ChangeRecoveryAccountOperation)
  | escrowTransfer (op : EscrowTransferOperation)
  | escrowDispute (op : EscrowDisputeOperation)
  | escrowRelease (op : EscrowReleaseOperation)
  | escrowApprove (op : EscrowApproveOperation)
  | delegateVestingShares (op : DelegateVestingSharesOperation)
  | accountCreate (op : AccountCreateOperation)
  | accountMetadata (op : AccountMetadataOperation)
  | proposalCreate (author : AccountName) (title memo : String) (expirationTime : TimePointSec)
      (proposedOperations : List Operation) (reviewPeriodTime : Option TimePointSec)
  | proposalUpdate (op : ProposalUpdateOperation)
  | proposalDelete (op : ProposalDeleteOperation)
  | chainPropertiesUpdate (op : ChainPropertiesUpdateOperation)
  | committeeWorkerCreateRequest (op : CommitteeWorkerCreateRequestOperation)
  | committeeWorkerCancelRequest (op : CommitteeWorkerCancelRequestOperation)
  | committeeVoteRequest (op : CommitteeVoteRequestOperation)
  | createInvite (op : CreateInviteOperation)
  | claimInviteBalance (op : InviteBalanceOperation)
  | inviteRegistration (op : InviteRegistrationOperation)
  | versionedChainPropertiesUpdate (op : VersionedChainPropertiesUpdateOperation)
  | award (op : AwardOperation)
  | setPaidSubscription (op : SetPaidSubscriptionOperation)
  | paidSubscribe (op : PaidSubscribeOperation)
  | setAccountPrice (op : SetAccountPriceOperation)
  | setSubaccountPrice (op : SetSubaccountPriceOperation)
  | buyAccount (op : BuyAccountOperation)
  | useInviteBalance (op : InviteBalanceOperation)
  | fixedAward (op : FixedAwardOperation)
  | targetAccountSale (op : TargetAccountSaleOperation)

/-! ## Required authorities -/

/-- Insertion into a `flat_set` of names, kept in ascending order. -/
def insertName (name : AccountName) : List AccountName → List AccountName
  | [] => [name]
  | n :: rest =>
    if name = n then n :: rest
    else if name < n then name :: n :: rest
    else n :: insertName name rest

@[simp] theorem mem_insertName (a name : AccountName) (l : List AccountName) :
    a ∈ insertName name l ↔ a = name ∨ a ∈ l := by
  induction l with
  | nil => simp [insertName]
  | cons n rest ih =>
    unfold insertName
    by_cases h : name = n
    · simp [h]
    · by_cases hlt : name < n
      · simp [h, hlt]
      · simp [h, hlt, ih]
        tauto

structure RequiredAuthorities where
  active : List AccountName := []
  master : List AccountName := []
  regular : List AccountName := []
  other : List Authority := []
  deriving DecidableEq

/-- The single authority with which a `proposal_update` asks for the signatures of the keys
it adds or removes. -/
def ProposalUpdateOperation.keyAuthority (op : ProposalUpdateOperation) : Authority :=
  let keys := (op.keyApprovalsToAdd ++ op.keyApprovalsToRemove).dedup
  { weightThreshold := keys.length, keyAuths := keys.map fun k => (k, 1) }

/-- The `get_required_*_authorities` of the operations. -/
def requiredAuthorities : Operation → RequiredAuthorities
  | .vote op => { regular := [op.voter] }
  | .content op => { regular := [op.author] }
  | .transfer op =>
    if op.amount.symbol = sharesSymbol then { master := [op.fromAccount] }
    else { active := [op.fromAccount] }
  | .transferToVesting op => { active := [op.fromAccount] }
  | .withdrawVesting op => { active := [op.account] }
  | .accountUpdate op =>
    if op.master.isSome then { master := [op.account] } else { active := [op.account] }
  | .witnessUpdate op => { active := [op.owner] }
  | .accountWitnessVote op => { active := [op.account] }
  | .accountWitnessProxy op => { active := [op.account] }
  | .deleteContent op => { regular := [op.author] }
  | .custom op => { active := op.requiredActiveAuths, regular := op.requiredRegularAuths }
  | .setWithdrawVestingRoute op => { active := [op.fromAccount] }
  | .requestAccountRecovery op => { active := [op.recoveryAccount] }
  | .recoverAccount op => { other := [op.newMasterAuthority, op.recentMasterAuthority] }
  | .changeRecoveryAccount op => { master := [op.accountToRecover] }
  | .escrowTransfer op => { active := [op.fromAccount] }
  | .escrowDispute op => { active := [op.who] }
  | .escrowRelease op => { active := [op.who] }
  | .escrowApprove op => { active := [op.who] }
  | .delegateVestingShares op => { active := [op.delegator] }
  | .accountCreate op => { active := [op.creator] }
  | .accountMetadata op => { regular := [op.account] }
  | .proposalCreate author _ _ _ _ _ => { active := [author] }
  | .proposalUpdate op =>
    { active := op.activeApprovalsToAdd ++ op.activeApprovalsToRemove
      master := op.masterApprovalsToAdd ++ op.masterApprovalsToRemove
      regular := op.regularApprovalsToAdd ++ op.regularApprovalsToRemove
      other := if op.keyAuthority.keyAuths = [] then [] else [op.keyAuthority] }
  | .proposalDelete op => { active := [op.requester] }
  | .chainPropertiesUpdate op => { active := [op.owner] }
  | .committeeWorkerCreateRequest op => { regular := [op.creator] }
  | .committeeWorkerCancelRequest op => { regular := [op.creator] }
  | .committeeVoteRequest op => { regular := [op.voter] }
  | .createInvite op => { active := [op.creator] }
  | .claimInviteBalance op => { active := [op.initiator] }
  | .inviteRegistration op => { active := [op.initiator] }
  | .versionedChainPropertiesUpdate op => { active := [op.owner] }
  | .award op => { regular := [op.initiator] }
  | .setPaidSubscription op => { active := [op.account] }
  | .paidSubscribe op => { active := [op.subscriber] }
  | .setAccountPrice op => { master := [op.account] }
  | .setSubaccountPrice op => { master := [op.account] }
  | .buyAccount op => { active := [op.buyer] }
  | .useInviteBalance op => { active := [op.initiator] }
  | .fixedAward op => { regular := [op.initiator] }
  | .targetAccountSale op => { master := [op.account] }

/-- `operation_get_required_authorities` called for one more operation: the names go into
sorted sets, the other authorities are appended. -/
def RequiredAuthorities.add (r : RequiredAuthorities) (op : Operation) : RequiredAuthorities :=
  let q := requiredAuthorities op
  { active := q.active.foldl (fun s n => insertName n s) r.active
    master := q.master.foldl (fun s n => insertName n s) r.master
    regular := q.regular.foldl (fun s n => insertName n s) r.regular
    other := r.other ++ q.other }

/-- The sets that `verify_authority` collects over a list of operations. -/
def collectRequired (ops : List Operation) : RequiredAuthorities :=
  ops.foldl RequiredAuthorities.add {}

theorem mem_foldl_insertName (a : AccountName) (names l : List AccountName) :
    a ∈ names.foldl (fun s n => insertName n s) l ↔ a ∈ names ∨ a ∈ l := by
  induction names generalizing l with
  | nil => simp
  | cons n names ih =>
    simp only [List.foldl_cons, ih, mem_insertName, List.mem_cons]
    tauto

end VizCore.Protocol
