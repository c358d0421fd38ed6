import VizCore.Protocol.Operations

/-!
# Operation validation

The `validate()` methods: checks of an operation that need no state.  Checks of the
text encoding and of JSON are functions of `fc` and are parameters (`Fc`).

* `validateBeneficiaries_sum`: the weights of a validated award sum to at most 100%;
* `validateAll_mem`: every operation inside a validated proposal is validated.
-/

namespace VizCore.Protocol

open VizCore.Lib

/-- The functions of `fc` and of the key library that the chain calls on texts. -/
structure Fc where
  isUtf8 : String → Bool
  jsonIsValid : String → Bool
  trim : String → String
  /-- `public_key_type(std::string)`, which throws on malformed text -/
  parsePublicKey : String → Option PublicKey
  /-- `wif_to_key` and the public key of the result -/
  wifToPublicKey : String → Option PublicKey

/-! ## Names -/

def isLowerCase (c : Char) : Bool := 'a' ≤ c && c ≤ 'z'

def isDigit (c : Char) : Bool := '0' ≤ c && c ≤ '9'

/-- The labels between the dots of a name. -/
def splitDots : List Char → List (List Char)
  | [] => [[]]
  | c :: rest =>
    match splitDots rest with
    | [] => [[c]]
    | label :: labels => if c = '.' then [] :: label :: labels else (c :: label) :: labels

/-- The parts of a text before and after the first `c`. -/
def splitAtFirst (c : Char) (s : String) : Option (String × String) :=
  match s.toList.dropWhile (· ≠ c) with
  | [] => none
  | _ :: rest => some (String.ofList (s.toList.takeWhile (· ≠ c)), String.ofList rest)

def isValidLabel (label : List Char) : Bool :=
  2 ≤ label.length &&
    (label.head?.any isLowerCase && label.getLast?.any (fun c => isLowerCase c || isDigit c) &&
      label.tail.dropLast.all fun c => isLowerCase c || isDigit c || c = '-')

def isValidAccountName (name : String) : Bool :=
  2 ≤ name.utf8ByteSize && name.utf8ByteSize ≤ 32 && (splitDots name.toList).all isValidLabel

def isValidCreateAccountName (name : String) : Bool :=
  3 ≤ name.utf8ByteSize && name.utf8ByteSize ≤ 32

/-- A name with a dot is a subaccount: what follows the first dot is its creator. -/
def isValidDomainName (name creator : String) : Bool :=
  match name.toList.dropWhile (· ≠ '.') with
  | [] => true
  | _ :: parent => creator.toList = parent

def validateAccountName (name : String) : Result Unit :=
  fcAssert (isValidAccountName name) "Account name $\x7bn\x7d is invalid"

def validateCreateAccountName (name : String) : Result Unit :=
  fcAssert (isValidCreateAccountName name) "Account name $\x7bn\x7d is invalid"

def validateDomainName (name creator : String) : Result Unit :=
  fcAssert (isValidDomainName name creator)
    "Domain name $\x7bn\x7d is invalid, creator name $\x7bc\x7d"

def validateJsonMetadata (fc : Fc) (json : String) : Result Unit :=
  if json.isEmpty then .ok ()
  else do
    fcAssert (fc.isUtf8 json) "JSON Metadata not formatted in UTF8"
    fcAssert (fc.jsonIsValid json) "JSON Metadata not valid JSON"

def validatePermlink (fc : Fc) (permlink : String) : Result Unit := do
  fcAssert (permlink.utf8ByteSize < 256) "permlink is too long"
  fcAssert (fc.isUtf8 permlink) "permlink not formatted in UTF8"

def validateMemo (fc : Fc) (memo : String) : Result Unit := do
  fcAssert (memo.utf8ByteSize < 2048) "Memo is too large"
  fcAssert (fc.isUtf8 memo) "Memo is not UTF8"

/-! ## Authorities and beneficiaries -/

def Authority.validate (auth : Authority) : Result Unit :=
  auth.accountAuths.forM fun item => fcAssert (isValidAccountName item.1)
    "is_valid_account_name(item.first)"

def Authority.isImpossible (auth : Authority) : Bool :=
  (((auth.accountAuths.map Prod.snd).sum + (auth.keyAuths.map Prod.snd).sum) % 2 ^ 64) <
    auth.weightThreshold

/-- The loop over the beneficiaries of an award; the sum is checked at every step. -/
def validateWeights : List BeneficiaryRoute → Nat → Result Unit
  | [], _ => .ok ()
  | b :: rest, sum => do
    validateAccountName b.account
    fcAssert (b.weight ≤ 10000) "Cannot allocate more than 100% of rewards to one account"
    let sum := (sum + b.weight) % 2 ^ 32
    fcAssert (sum ≤ 10000) "Cannot allocate more than 100% of rewards to a content"
    validateWeights rest sum

def validateBeneficiaries (beneficiaries : List BeneficiaryRoute) : Result Unit := do
  fcAssert (beneficiaries.length < 128) "Cannot specify more than 127 beneficiaries."
  validateWeights beneficiaries 0

theorem validateWeights_sum (l : List BeneficiaryRoute) (sum : Nat) (hsum : sum ≤ 10000)
    (h : validateWeights l sum = .ok ()) : sum + (l.map (·.weight)).sum ≤ 10000 := by
  induction l generalizing sum with
  | nil => simpa using hsum
  | cons b rest ih =>
    simp only [validateWeights, bind_eq_ok, fcAssert_eq_ok] at h
    obtain ⟨_, -, _, hweight, _, htotal, h⟩ := h
    have hmod : (sum + b.weight) % 2 ^ 32 = sum + b.weight := Nat.mod_eq_of_lt (by omega)
    rw [hmod] at htotal h
    have hrest := ih (sum + b.weight) htotal h
    simp only [List.map_cons, List.sum_cons]
    omega

theorem validateBeneficiaries_sum {l : List BeneficiaryRoute}
    (h : validateBeneficiaries l = .ok ()) : (l.map (·.weight)).sum ≤ 10000 := by
  simp only [validateBeneficiaries, fcAssert_bind_eq_ok] at h
  have hsum := validateWeights_sum l 0 (by omega) h.2
  omega

/-- Content beneficiaries must also be in ascending order. -/
def validateContentWeights : Option BeneficiaryRoute → List BeneficiaryRoute → Nat → Result Unit
  | _, [], _ => .ok ()
  | prev, b :: rest, sum => do
    validateAccountName b.account
    fcAssert (b.weight ≤ 10000) "Cannot allocate more than 100% of rewards to one account"
    let sum := (sum + b.weight) % 2 ^ 32
    fcAssert (sum ≤ 10000) "Cannot allocate more than 100% of rewards to a content"
    fcAssert (prev.all fun p => p.account < b.account)
      "Benficiaries must be specified in sorted order (account ascending)"
    validateContentWeights (some b) rest sum

def validateContentBeneficiaries (beneficiaries : List BeneficiaryRoute) : Result Unit := do
  fcAssert (beneficiaries ≠ []) "Must specify at least one beneficiary"
  fcAssert (beneficiaries.length < 128) "Cannot specify more than 127 beneficiaries."
  validateContentWeights none beneficiaries 0

/-! ## Chain properties -/

/-- `FC_ASSERT` that a percentage lies between 0 and 100%. -/
def validatePercent (x : Int) (name : String) : Result Unit := do
  fcAssert (0 ≤ x) (name ++ " >= 0")
  fcAssert (x ≤ 10000) (name ++ " <= CHAIN_100_PERCENT")

/-- `FC_ASSERT` that a fee is a positive token amount. -/
def validateFee (a : Asset) (name : String) : Result Unit := do
  fcAssert (0 < a.amount) (name ++ ".amount > 0")
  fcAssert (a.symbol = tokenSymbol) (name ++ ".symbol == TOKEN_SYMBOL")

def ChainPropertiesInit.validate (p : ChainPropertiesInit) : Result Unit := do
  fcAssert (1000 ≤ p.accountCreationFee.amount)
    "account_creation_fee.amount >= CHAIN_MIN_ACCOUNT_CREATION_FEE"
  fcAssert (p.accountCreationFee.symbol = tokenSymbol) "account_creation_fee.symbol == TOKEN_SYMBOL"
  fcAssert (1024 * 64 ≤ p.maximumBlockSize) "maximum_block_size >= CHAIN_MIN_BLOCK_SIZE_LIMIT"
  fcAssert (p.maximumBlockSize ≤ 2 * 1024 * 1024) "maximum_block_size <= CHAIN_MAX_BLOCK_SIZE_LIMIT"
  fcAssert (0 < p.createAccountDelegationRatio) "create_account_delegation_ratio > 0"
  fcAssert (5 * 60 * 60 * 24 ≤ p.createAccountDelegationTime)
    "create_account_delegation_time >= CHAIN_ENERGY_REGENERATION_SECONDS"
  validateFee p.minDelegation "min_delegation"
  fcAssert (0 ≤ p.minCurationPercent) "min_curation_percent >= 0"
  fcAssert (p.maxCurationPercent ≤ 10000) "max_curation_percent <= CHAIN_100_PERCENT"
  fcAssert (p.minCurationPercent ≤ p.maxCurationPercent)
    "min_curation_percent <= max_curation_percent"
  validatePercent p.bandwidthReservePercent "bandwidth_reserve_percent"
  fcAssert (0 ≤ p.bandwidthReserveBelow.amount) "bandwidth_reserve_below.amount >= 0"
  fcAssert (p.bandwidthReserveBelow.symbol = sharesSymbol)
    "bandwidth_reserve_below.symbol == SHARES_SYMBOL"
  validatePercent p.flagEnergyAdditionalCost "flag_energy_additional_cost"
  validatePercent p.committeeRequestApproveMinPercent "committee_request_approve_min_percent"

def ChainPropertiesHf4.validate (p : ChainPropertiesHf4) : Result Unit := do
  p.toChainPropertiesInit.validate
  validatePercent p.inflationWitnessPercent "inflation_witness_percent"
  validatePercent p.inflationRatioCommitteeVsRewardFund "inflation_ratio_committee_vs_reward_fund"
  fcAssert (p.inflationRecalcPeriod ≤ 10512000) "inflation_recalc_period <= CHAIN_BLOCKS_PER_YEAR"

def ChainPropertiesHf6.validate (p : ChainPropertiesHf6) : Result Unit := do
  p.toChainPropertiesHf4.validate
  validatePercent p.witnessMissPenaltyPercent "witness_miss_penalty_percent"
  fcAssert (p.witnessMissPenaltyDuration ≤ 10512000 * 3)
    "witness_miss_penalty_duration <= CHAIN_BLOCKS_PER_YEAR * CHAIN_BLOCK_INTERVAL"

def ChainPropertiesHf9.validate (p : ChainPropertiesHf9) : Result Unit := do
  p.toChainPropertiesHf6.validate
  validateFee p.createInviteMinBalance "create_invite_min_balance"
  validateFee p.committeeCreateRequestFee "committee_create_request_fee"
  validateFee p.createPaidSubscriptionFee "create_paid_subscription_fee"
  validateFee p.accountOnSaleFee "account_on_sale_fee"
  validateFee p.subaccountOnSaleFee "subaccount_on_sale_fee"
  validateFee p.witnessDeclarationFee "witness_declaration_fee"
  fcAssert (0 < p.withdrawIntervals) "withdraw_intervals > 0"

def VersionedChainProperties.validate : VersionedChainProperties → Result Unit
  | .init p => p.validate
  | .hf4 p => p.validate
  | .hf6 p => p.validate
  | .hf9 p => p.validate

/-! ## Operations -/

def AccountCreateOperation.validate (fc : Fc) (op : AccountCreateOperation) : Result Unit := do
  validateCreateAccountName op.newAccountName
  validateAccountName op.newAccountName
  validateAccountName op.creator
  validateDomainName op.newAccountName op.creator
  fcAssert (op.fee.symbol = tokenSymbol) "Account creation fee must be TOKEN_SYMBOL"
  fcAssert (op.delegation.symbol = sharesSymbol) "Delegation must be SHARES"
  fcAssert (0 ≤ op.fee.amount) "Account creation fee cannot be negative"
  fcAssert (0 ≤ op.delegation.amount) "Delegation cannot be negative"
  op.master.validate
  op.active.validate
  op.regular.validate
  validateJsonMetadata fc op.jsonMetadata

def ContentOperation.validate (fc : Fc) (op : ContentOperation) : Result Unit := do
  fcAssert (op.title.utf8ByteSize < 256) "Title larger than size limit"
  fcAssert (fc.isUtf8 op.title) "Title not formatted in UTF8"
  fcAssert (op.body ≠ "") "Body is empty"
  fcAssert (fc.isUtf8 op.body) "Body not formatted in UTF8"
  if op.parentAuthor ≠ "" then validateAccountName op.parentAuthor
  validateAccountName op.author
  validatePermlink fc op.parentPermlink
  validatePermlink fc op.permlink
  validatePercent op.curationPercent "curation_percent"
  if op.jsonMetadata ≠ "" then
    fcAssert (fc.jsonIsValid op.jsonMetadata) "JSON Metadata not valid JSON"
  op.extensions.forM validateContentBeneficiaries

def TransferOperation.validate (fc : Fc) (op : TransferOperation) : Result Unit := do
  validateAccountName op.fromAccount
  validateAccountName op.toAccount
  fcAssert (op.amount.symbol ≠ sharesSymbol) "transferring of SHARES is not allowed."
  fcAssert (0 < op.amount.amount) "Cannot transfer a negative amount (aka: stealing)"
  validateMemo fc op.memo

def TransferToVestingOperation.validate (op : TransferToVestingOperation) : Result Unit := do
  validateAccountName op.fromAccount
  fcAssert (op.amount.symbol = tokenSymbol) "Amount must be TOKEN_SYMBOL"
  if op.toAccount ≠ "" then validateAccountName op.toAccount
  fcAssert (0 < op.amount.amount) "Must transfer a nonzero amount"

def WithdrawVestingOperation.validate (op : WithdrawVestingOperation) : Result Unit := do
  validateAccountName op.account
  fcAssert (op.vestingShares.symbol = sharesSymbol) "Amount must be SHARES"
  fcAssert (0 ≤ op.vestingShares.amount) "Cannot withdraw negative SHARES"

def SetWithdrawVestingRouteOperation.validate (op : SetWithdrawVestingRouteOperation) :
    Result Unit := do
  validateAccountName op.fromAccount
  validateAccountName op.toAccount
  fcAssert (op.percent ≤ 10000) "Percent must be valid percent"

def EscrowTransferOperation.validate (fc : Fc) (op : EscrowTransferOperation) : Result Unit := do
  validateAccountName op.fromAccount
  validateAccountName op.toAccount
  validateAccountName op.agent
  fcAssert (0 ≤ op.fee.amount) "fee cannot be negative"
  fcAssert (0 ≤ op.tokenAmount.amount) "tokens amount cannot be negative"
  fcAssert (op.fromAccount ≠ op.agent ∧ op.toAccount ≠ op.agent) "agent must be a third party"
  fcAssert (op.fee.symbol = tokenSymbol) "fee must be TOKEN_SYMBOL"
  fcAssert (op.tokenAmount.symbol = tokenSymbol) "amount must be TOKEN_SYMBOL"
  fcAssert (op.ratificationDeadline < op.escrowExpiration)
    "ratification deadline must be before escrow expiration"
  validateJsonMetadata fc op.jsonMetadata

def EscrowApproveOperation.validate (op : EscrowApproveOperation) : Result Unit := do
  [op.fromAccount, op.toAccount, op.agent, op.who].forM validateAccountName
  fcAssert (op.who = op.toAccount ∨ op.who = op.agent) "to or agent must approve escrow"

def EscrowDisputeOperation.validate (op : EscrowDisputeOperation) : Result Unit := do
  [op.fromAccount, op.toAccount, op.agent, op.who].forM validateAccountName
  fcAssert (op.who = op.fromAccount ∨ op.who = op.toAccount) "who must be from or to"

def EscrowReleaseOperation.validate (op : EscrowReleaseOperation) : Result Unit := do
  [op.fromAccount, op.toAccount, op.agent, op.who, op.receiver].forM validateAccountName
  fcAssert (op.who = op.fromAccount ∨ op.who = op.toAccount ∨ op.who = op.agent)
    "who must be from or to or agent"
  fcAssert (op.receiver = op.fromAccount ∨ op.receiver = op.toAccount) "receiver must be from or to"
  fcAssert (0 ≤ op.tokenAmount.amount) "amount cannot be negative"
  fcAssert (0 < op.tokenAmount.amount) "escrow must release a non-zero amount"
  fcAssert (op.tokenAmount.symbol = tokenSymbol) "amount must be TOKEN_SYMBOL"

def RecoverAccountOperation.validate (op : RecoverAccountOperation) : Result Unit := do
  validateAccountName op.accountToRecover
  fcAssert (op.newMasterAuthority ≠ op.recentMasterAuthority)
    "Cannot set new master authority to the recent master authority"
  fcAssert (!op.newMasterAuthority.isImpossible) "new master authority cannot be impossible"
  fcAssert (!op.recentMasterAuthority.isImpossible) "recent master authority cannot be impossible"
  fcAssert (op.newMasterAuthority.weightThreshold ≠ 0) "new master authority cannot be trivial"
  op.newMasterAuthority.validate
  op.recentMasterAuthority.validate

def DelegateVestingSharesOperation.validate (op : DelegateVestingSharesOperation) :
    Result Unit := do
  validateAccountName op.delegator
  validateAccountName op.delegatee
  fcAssert (op.delegator ≠ op.delegatee) "You cannot delegate SHARES to yourself"
  fcAssert (op.vestingShares.symbol = sharesSymbol) "Delegation must be SHARES"
  fcAssert (0 ≤ op.vestingShares.amount) "Delegation cannot be negative"

def CommitteeWorkerCreateRequestOperation.validate (op : CommitteeWorkerCreateRequestOperation) :
    Result Unit := do
  fcAssert (0 < op.url.utf8ByteSize) "URL size must be greater than 0"
  fcAssert (op.url.utf8ByteSize < 256) "URL size must be lesser than 256"
  fcAssert (0 ≤ op.requiredAmountMin.amount) "required_amount_min.amount >= 0"
  fcAssert (op.requiredAmountMin.symbol = tokenSymbol) "required_amount_min.symbol == TOKEN_SYMBOL"
  fcAssert (op.requiredAmountMin.amount < op.requiredAmountMax.amount)
    "required_amount_max.amount > required_amount_min.amount"
  fcAssert (op.requiredAmountMax.symbol = tokenSymbol) "required_amount_max.symbol == TOKEN_SYMBOL"
  fcAssert (60 * 60 * 24 * 5 ≤ op.duration) "duration >= COMMITTEE_MIN_DURATION"
  fcAssert (op.duration ≤ 60 * 60 * 24 * 30) "duration <= COMMITTEE_MAX_DURATION"
  fcAssert (op.requiredAmountMax.amount ≤ 500000000)
    "required_amount_max.amount <= COMMITTEE_MAX_REQUIRED_AMOUNT"

/-- The checks that `award` and `fixed_award` share after their amounts. -/
def validateAwardTail (fc : Fc) (energy customSequence : Nat) (memo : String)
    (beneficiaries : List BeneficiaryRoute) : Result Unit := do
  fcAssert (energy ≤ 10000) "energy <= CHAIN_100_PERCENT"
  fcAssert (customSequence ≤ 2 ^ 63 - 1) "custom_sequence <= int64_t max"
  validateMemo fc memo
  validateBeneficiaries beneficiaries

def AwardOperation.validate (fc : Fc) (op : AwardOperation) : Result Unit := do
  validateAccountName op.initiator
  validateAccountName op.receiver
  validateAwardTail fc op.energy op.customSequence op.memo op.beneficiaries

def FixedAwardOperation.validate (fc : Fc) (op : FixedAwardOperation) : Result Unit := do
  validateAccountName op.initiator
  validateAccountName op.receiver
  fcAssert (op.rewardAmount.symbol = tokenSymbol) "Reward amount must be TOKEN_SYMBOL"
  fcAssert (0 < op.rewardAmount.amount) "Reward amount cannot be negative or zero amount"
  validateAwardTail fc op.maxEnergy op.customSequence op.memo op.beneficiaries

/-- The amount and the period of a subscription. -/
def validateSubscriptionTerms (amount : Asset) (period : Nat) : Result Unit := do
  fcAssert (amount.symbol ≠ sharesSymbol) "Amount of SHARES is not allowed."
  fcAssert (0 < amount.amount) "Cannot set subscription with negative or zero amount"
  fcAssert (0 < period) "Cannot set negative or zero period"
  fcAssert (period ≤ 1000) "period <= PAID_SUBSCRIPTION_MAX_PERIOD"

def SetPaidSubscriptionOperation.validate (fc : Fc) (op : SetPaidSubscriptionOperation) :
    Result Unit := do
  validateAccountName op.account
  fcAssert (op.url.utf8ByteSize < 2048) "URL is too large"
  fcAssert (fc.isUtf8 op.url) "URL is not UTF8"
  fcAssert (op.levels ≤ 1000) "levels <= PAID_SUBSCRIPTION_MAX_LEVEL"
  validateSubscriptionTerms op.amount op.period

def PaidSubscribeOperation.validate (op : PaidSubscribeOperation) : Result Unit := do
  validateAccountName op.subscriber
  validateAccountName op.account
  fcAssert (op.level ≤ 1000) "level <= PAID_SUBSCRIPTION_MAX_LEVEL"
  validateSubscriptionTerms op.amount op.period

/-- A positive token price. -/
def validatePrice (a : Asset) (symbolMsg amountMsg : String) : Result Unit := do
  fcAssert (a.symbol = tokenSymbol) symbolMsg
  fcAssert (0 < a.amount) amountMsg

def SetAccountPriceOperation.validate (op : SetAccountPriceOperation) : Result Unit := do
  [op.account, op.accountSeller].forM validateAccountName
  validatePrice op.accountOfferPrice "Account offer price must be TOKEN_SYMBOL"
    "Cannot set account offer price with negative or zero amount"

def SetSubaccountPriceOperation.validate (op : SetSubaccountPriceOperation) : Result Unit := do
  [op.account, op.subaccountSeller].forM validateAccountName
  validatePrice op.subaccountOfferPrice "Subaccount offer price must be TOKEN_SYMBOL"
    "Cannot set subaccount offer price with negative or zero amount"

def TargetAccountSaleOperation.validate (op : TargetAccountSaleOperation) : Result Unit := do
  [op.account, op.accountSeller, op.targetBuyer].forM validateAccountName
  validatePrice op.accountOfferPrice "Account offer price must be TOKEN_SYMBOL"
    "Cannot set account offer price with negative or zero amount"

def BuyAccountOperation.validate (op : BuyAccountOperation) : Result Unit := do
  [op.buyer, op.account].forM validateAccountName
  validatePrice op.accountOfferPrice "Account offer price must be TOKEN_SYMBOL"
    "Offer price cannot be negative or zero amount"
  validatePrice op.tokensToShares "Token to shares must be TOKEN_SYMBOL"
    "Token to shares cannot be negative or zero amount"

/-- No approval is added and removed at the same time. -/
def validateDisjoint {α : Type} [DecidableEq α] (toAdd toRemove : List α) : Result Unit :=
  fcAssert (∀ a ∈ toAdd, a ∉ toRemove) "Cannot add and remove approval at the same time."

def ProposalUpdateOperation.validate (fc : Fc) (op : ProposalUpdateOperation) : Result Unit := do
  validateAccountName op.author
  fcAssert (op.title ≠ "") "Title is empty"
  fcAssert (fc.isUtf8 op.title) "Title not formatted in UTF8"
  fcAssert (¬ (op.activeApprovalsToAdd = [] ∧ op.activeApprovalsToRemove = [] ∧
    op.masterApprovalsToAdd = [] ∧ op.masterApprovalsToRemove = [] ∧
    op.regularApprovalsToAdd = [] ∧ op.regularApprovalsToRemove = [] ∧
    op.keyApprovalsToAdd = [] ∧ op.keyApprovalsToRemove = [])) "no approvals"
  validateDisjoint op.activeApprovalsToAdd op.activeApprovalsToRemove
  validateDisjoint op.masterApprovalsToAdd op.masterApprovalsToRemove
  validateDisjoint op.regularApprovalsToAdd op.regularApprovalsToRemove
  validateDisjoint op.keyApprovalsToAdd op.keyApprovalsToRemove

/-- The checks of `proposal_create` apart from the proposed operations. -/
def validateProposalHead (fc : Fc) (author : AccountName) (title : String) : Result Unit := do
  validateAccountName author
  fcAssert (title ≠ "") "Title is empty"
  fcAssert (title.utf8ByteSize < 256) "Title larger than size limit"
  fcAssert (fc.isUtf8 title) "Title not formatted in UTF8"

def validateProposalMemo (fc : Fc) (memo : String) : Result Unit :=
  if memo = "" then .ok ()
  else do
    fcAssert (memo.utf8ByteSize < 4096) "Memo larger than size limit"
    fcAssert (fc.isUtf8 memo) "Memo not formatted in UTF8"

mutual

/-- `operation_validate` -/
def Operation.validate (fc : Fc) : Operation → Result Unit
  | .vote op => do
    validateAccountName op.voter
    validateAccountName op.author
    fcAssert (|op.weight| ≤ 10000) "Weight is not a percentage"
    validatePermlink fc op.permlink
  | .content op => op.validate fc
  | .transfer op => op.validate fc
  | .transferToVesting op => op.validate
  | .withdrawVesting op => op.validate
  | .accountUpdate op => do
    validateAccountName op.account
    validateJsonMetadata fc op.jsonMetadata
  | .witnessUpdate op => do
    validateAccountName op.owner
    fcAssert (0 < op.url.utf8ByteSize) "URL size must be greater than 0"
    fcAssert (op.url.utf8ByteSize < 2048)
      "URL size must be lesser than CHAIN_MAX_WITNESS_URL_LENGTH"
    fcAssert (fc.isUtf8 op.url) "URL is not valid UTF8"
  | .accountWitnessVote op => do
    validateAccountName op.account
    validateAccountName op.witness
  | .accountWitnessProxy op => do
    validateAccountName op.account
    if op.proxy ≠ "" then validateAccountName op.proxy
    fcAssert (op.proxy ≠ op.account) "Cannot proxy to self"
  | .deleteContent op => do
    validatePermlink fc op.permlink
    validateAccountName op.author
  | .custom op => do
    fcAssert (0 < op.requiredActiveAuths.length + op.requiredRegularAuths.length)
      "at least one account must be specified"
    fcAssert (op.id.utf8ByteSize ≤ 32) "id is too long"
    fcAssert (fc.isUtf8 op.json) "JSON Metadata not formatted in UTF8"
    fcAssert (fc.jsonIsValid op.json) "JSON Metadata not valid JSON"
  | .setWithdrawVestingRoute op => op.validate
  | .requestAccountRecovery op => do
    validateAccountName op.recoveryAccount
    validateAccountName op.accountToRecover
    op.newMasterAuthority.validate
  | .recoverAccount op => op.validate
  | .changeRecoveryAccount op => do
    validateAccountName op.accountToRecover
    validateAccountName op.newRecoveryAccount
  | .escrowTransfer op => op.validate fc
  | .escrowDispute op => op.validate
  | .escrowRelease op => op.validate
  | .escrowApprove op => op.validate
  | .delegateVestingShares op => op.validate
  | .accountCreate op => op.validate fc
  | .accountMetadata op => do
    validateAccountName op.account
    fcAssert (op.jsonMetadata ≠ "") "json_metadata can't be empty"
    validateJsonMetadata fc op.jsonMetadata
  | .proposalCreate author title memo _ proposedOperations _ => do
    validateProposalHead fc author title
    fcAssert (proposedOperations ≠ []) "!proposed_operations.empty()"
    validateAll fc proposedOperations
    validateProposalMemo fc memo
  | .proposalUpdate op => op.validate fc
  | .proposalDelete op => do
    validateAccountName op.author
    fcAssert (op.title ≠ "") "Title is empty"
    fcAssert (fc.isUtf8 op.title) "Title not formatted in UTF8"
  | .chainPropertiesUpdate op => do
    validateAccountName op.owner
    op.props.validate
  | .committeeWorkerCreateRequest op => op.validate
  | .committeeWorkerCancelRequest _ => .ok ()
  | .committeeVoteRequest op => do
    fcAssert (-10000 ≤ op.votePercent) "vote_percent >= -CHAIN_100_PERCENT"
    fcAssert (op.votePercent ≤ 10000) "vote_percent <= CHAIN_100_PERCENT"
  | .createInvite op => do
    validateAccountName op.creator
    validatePrice op.balance "Invite creation balance must be TOKEN_SYMBOL"
      "Invite creation balance must be nonzero amount"
  | .claimInviteBalance op => [op.initiator, op.receiver].forM validateAccountName
  | .inviteRegistration op => do
    validateAccountName op.initiator
    validateAccountName op.newAccountName
    validateDomainName op.newAccountName op.initiator
  | .versionedChainPropertiesUpdate op => do
    validateAccountName op.owner
    op.props.validate
  | .award op => op.validate fc
  | .setPaidSubscription op => op.validate fc
  | .paidSubscribe op => op.validate
  | .setAccountPrice op => op.validate
  | .setSubaccountPrice op => op.validate
  | .buyAccount op => op.validate
  | .useInviteBalance op => [op.initiator, op.receiver].forM validateAccountName
  | .fixedAward op => op.validate fc
  | .targetAccountSale op => op.validate

def validateAll (fc : Fc) : List Operation → Result Unit
  | [] => .ok ()
  | op :: rest => do
    op.validate fc
    validateAll fc rest

end

theorem validateAll_mem {fc : Fc} {ops : List Operation} (h : validateAll fc ops = .ok ())
    {op : Operation} (hop : op ∈ ops) : op.validate fc = .ok () := by
  induction ops with
  | nil => cases hop
  | cons first rest ih =>
    simp only [validateAll, bind_eq_ok] at h
    obtain ⟨_, hfirst, hrest⟩ := h
    rcases List.mem_cons.1 hop with rfl | hop
    · exact hfirst
    · exact ih hrest hop

end VizCore.Protocol
