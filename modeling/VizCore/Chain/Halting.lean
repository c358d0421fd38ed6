import VizCore.Chain.Apply

/-!
# Evaluators halt

Fuel bounds the recursion of the model, the code has no such bound.  Every check of an
operation and every evaluator ends before its fuel does, so that only the nesting of
proposals can use it up.

* `Halts`: the computation returns or throws an exception of the code;
* `evaluate_halts`: every evaluator halts;
* `validateTransaction_halts`, `openTransaction_halts`: so does all that the trial of a
  proposal does before its operations.
-/

namespace VizCore.Chain

open VizCore.Lib VizCore.Protocol

/-- The computation ends without running out of fuel. -/
def Halts {α : Type} (r : Result α) : Prop := r ≠ .error .outOfFuel

/-! ## The ways to compute -/

namespace Halts

variable {α β : Type}

@[simp] theorem ok (a : α) : Halts (.ok a : Result α) := nofun

@[simp] theorem pure (a : α) : Halts (Pure.pure a : Result α) := nofun

@[simp] theorem error (e : Exception) : Halts (.error e : Result α) ↔ e ≠ .outOfFuel := by
  simp [Halts]

@[simp] theorem bind (x : Result α) (f : α → Result β) :
    Halts (x >>= f) ↔ Halts x ∧ ∀ a, x = .ok a → Halts (f a) := by
  cases x with
  | error e => simp [Halts, Bind.bind, Except.bind]
  | ok a => simp [Halts, Bind.bind, Except.bind]

@[simp] theorem map (f : α → β) (x : Result α) : Halts (f <$> x) ↔ Halts x := by
  cases x with
  | error e => simp [Halts, Functor.map, Except.map]
  | ok a => simp [Halts, Functor.map, Except.map]

@[simp] theorem ite (c : Prop) [Decidable c] (x y : Result α) :
    Halts (if c then x else y) ↔ (c → Halts x) ∧ (¬ c → Halts y) := by
  by_cases hc : c <;> simp [hc]

@[simp] theorem require (c : Prop) [Decidable c] (e : Exception) :
    Halts (Lib.require c e) ↔ (¬ c → e ≠ .outOfFuel) := by
  unfold Lib.require
  by_cases hc : c <;> simp [hc]

@[simp] theorem fcAssert (c : Prop) [Decidable c] (msg : String) :
    Halts (Protocol.fcAssert c msg) := by
  simp [Protocol.fcAssert]

@[simp] theorem getOrThrow (o : Option α) (e : Exception) :
    Halts (Lib.getOrThrow o e) ↔ (o = none → e ≠ .outOfFuel) := by
  cases o <;> simp [Lib.getOrThrow]

@[simp] theorem unlessSkipped (skip : Bool) (check : Result Unit) :
    Halts (Chain.unlessSkipped skip check) ↔ (skip = false → Halts check) := by
  cases skip <;> simp [Chain.unlessSkipped]

@[simp] theorem foldlM {f : β → α → Result β} (h : ∀ b a, Halts (f b a)) (l : List α) (b : β) :
    Halts (l.foldlM f b) :=
  foldlM_ne_error (fun _ => True) f l (fun a _ b _ => ⟨h b a, fun _ _ => trivial⟩) b trivial

@[simp] theorem forM {f : α → Result Unit} (h : ∀ a, Halts (f a)) (l : List α) :
    Halts (ForM.forM l f) := by
  induction l with
  | nil => exact pure ()
  | cons a l ih =>
    rw [List.forM_cons]
    exact (bind _ _).2 ⟨h a, fun _ _ => ih⟩

@[simp] theorem mapM {f : α → Result β} (h : ∀ a, Halts (f a)) (l : List α) :
    Halts (l.mapM f) := by
  induction l with
  | nil => exact pure []
  | cons a l ih =>
    rw [List.mapM_cons]
    exact (bind _ _).2 ⟨h a, fun _ _ => (bind _ _).2 ⟨ih, fun _ _ => pure _⟩⟩

end Halts

/-! ## Arithmetic and reads -/

@[simp] theorem checked_halts (x : Int) : Halts (checked x) := by
  simp [checked]

@[simp] theorem safeAdd_halts (x y : Int) : Halts (safeAdd x y) := checked_halts _

@[simp] theorem safeSub_halts (x y : Int) : Halts (safeSub x y) := checked_halts _

@[simp] theorem safeMul_halts (x y : Int) : Halts (safeMul x y) := checked_halts _

@[simp] theorem safeDiv_halts (x y : Int) : Halts (safeDiv x y) := by
  simp [safeDiv]

@[simp] theorem safeMod_halts (x y : Int) : Halts (safeMod x y) := by
  simp [safeMod]

@[simp] theorem toSigned64_halts (x : Nat) : Halts (toSigned64 x) := by
  simp [toSigned64]

@[simp] theorem divUint128_halts (x y : Nat) : Halts (divUint128 x y) := by
  simp [divUint128]

@[simp] theorem mulDiv_halts (a quote base : Int) : Halts (mulDiv a quote base) := by
  unfold mulDiv
  exact (Halts.bind _ _).2 ⟨.fcAssert _ _, fun _ _ => (Halts.bind _ _).2
    ⟨.fcAssert _ _, fun _ _ => .pure _⟩⟩

@[simp] theorem amountOf_halts (a : Asset) (symbol : Nat) : Halts (a.amountOf symbol) := by
  simp [Asset.amountOf]

namespace AccountObject

variable (a : AccountObject)

@[simp] theorem accumulate_halts (x : Int) (votes : List Int) : Halts (accumulate x votes) := by
  simp [accumulate]

@[simp] theorem effectiveVestingShares_halts : Halts a.effectiveVestingShares := by
  simp [effectiveVestingShares]

@[simp] theorem availableVestingShares_halts (pending : Bool) :
    Halts (a.availableVestingShares pending) := by
  simp [availableVestingShares]

@[simp] theorem witnessVoteFairWeight_halts : Halts a.witnessVoteFairWeight := by
  simp [witnessVoteFairWeight, witnessVoteWeight]

end AccountObject

namespace Db

variable {fc : Fc} (db : Db) (name : AccountName)

@[simp] theorem getAccount_halts : Halts (db.getAccount name) := by
  simp [getAccount]

@[simp] theorem getAuthority_halts : Halts (db.getAuthority name) := by
  simp [getAuthority]

@[simp] theorem getWitness_halts : Halts (db.getWitness name) := by
  simp [getWitness]

@[simp] theorem getProposal_halts (title : String) : Halts (db.getProposal name title) := by
  simp [getProposal]

/-! ## Balances, votes and vesting -/

@[simp] theorem createAccount_halts (mk : Nat → AccountObject) : Halts (db.createAccount mk) := by
  simp [createAccount]

@[simp] theorem registerAccount_halts (mk : Nat → AccountObject) (key : PublicKey) :
    Halts (db.registerAccount mk name key) := by
  simp [registerAccount]

@[simp] theorem updateMasterAuthority_halts (master : Authority) :
    Halts (db.updateMasterAuthority name master) := by
  simp [updateMasterAuthority]

@[simp] theorem adjustBalance_halts (delta : Int) : Halts (db.adjustBalance name delta) := by
  simp [adjustBalance]

@[simp] theorem burnAsset_halts (delta : Int) : Halts (db.burnAsset delta) := by
  simp [burnAsset]

@[simp] theorem addCommitteeFund_halts (delta : Int) : Halts (db.addCommitteeFund delta) := by
  simp [addCommitteeFund]

@[simp] theorem payFee_halts (fee : Int) (msg : String) : Halts (db.payFee name fee msg) := by
  simp [payFee]

@[simp] theorem sharesSenderRecalcEnergy_halts (shares : Int) :
    Halts (db.sharesSenderRecalcEnergy name shares) := by
  simp [sharesSenderRecalcEnergy]

@[simp] theorem adjustWitnessVote_halts (witness : Nat) (delta : Int) :
    Halts (db.adjustWitnessVote witness delta) := by
  simp [adjustWitnessVote, adjustedWitness]

@[simp] theorem adjustWitnessVotes_halts (delta : Int) :
    Halts (db.adjustWitnessVotes name delta) := by
  simp [adjustWitnessVotes]

@[simp] theorem addProxiedVotes_halts (votes : List Int) (depth : Nat) (delta : Int) :
    Halts (addProxiedVotes votes depth delta) := by
  simp [addProxiedVotes]

@[simp] theorem adjustProxiedWitnessVotes_halts (delta : Int) (levels : Nat) :
    Halts (adjustProxiedWitnessVotes delta levels db name) := by
  induction levels generalizing db name with
  | zero => simp [adjustProxiedWitnessVotes]
  | succ levels ih => simp [adjustProxiedWitnessVotes, ih]

@[simp] theorem adjustProxiedWitnessVotesArray_halts (delta : List Int) (levels : Nat) :
    Halts (adjustProxiedWitnessVotesArray delta levels db name) := by
  induction levels generalizing db name with
  | zero => simp [adjustProxiedWitnessVotesArray]
  | succ levels ih => simp [adjustProxiedWitnessVotesArray, ih, -List.foldlM_reverse]

@[simp] theorem clearWitnessVotes_halts : Halts (db.clearWitnessVotes name) := by
  simp [clearWitnessVotes]

@[simp] theorem tokensToShares_halts (tokens : Int) : Halts (db.tokensToShares tokens) := by
  simp [tokensToShares]

@[simp] theorem sharesToTokens_halts (shares : Int) : Halts (db.sharesToTokens shares) := by
  simp [sharesToTokens]

@[simp] theorem createVesting_halts (tokens : Int) : Halts (db.createVesting name tokens) := by
  simp [createVesting]

@[simp] theorem calcRshareAward_halts (rshares : Int) : Halts (db.calcRshareAward rshares) := by
  simp [calcRshareAward]

/-! ## Transfers and escrows -/

@[simp] theorem stoi_halts (s : String) : Halts (stoi s) := by
  simp [stoi]

@[simp] theorem anonymousAccount_halts (memo : String) : Halts (anonymousAccount fc db memo) := by
  unfold anonymousAccount
  split <;> simp

@[simp] theorem transfer_halts (o : TransferOperation) : Halts (transfer fc db o) := by
  simp [transfer, createAnonymous]

@[simp] theorem escrowTransfer_halts (o : EscrowTransferOperation) :
    Halts (db.escrowTransfer o) := by
  simp [escrowTransfer]

@[simp] theorem escrowApprove_halts (o : EscrowApproveOperation) :
    Halts (db.escrowApprove o) := by
  simp [escrowApprove, getEscrow]

@[simp] theorem escrowDispute_halts (o : EscrowDisputeOperation) :
    Halts (db.escrowDispute o) := by
  simp [escrowDispute, getEscrow]

@[simp] theorem escrowRelease_halts (o : EscrowReleaseOperation) :
    Halts (db.escrowRelease o) := by
  simp [escrowRelease, checkRelease, getEscrow]

@[simp] theorem transferToVesting_halts (o : TransferToVestingOperation) :
    Halts (db.transferToVesting o) := by
  simp [transferToVesting]

@[simp] theorem withdrawVesting_halts (o : WithdrawVestingOperation) :
    Halts (db.withdrawVesting o) := by
  simp [withdrawVesting]

@[simp] theorem storeRoute_halts (o : SetWithdrawVestingRouteOperation)
    (sender receiver : AccountObject) : Halts (db.storeRoute o sender receiver) := by
  unfold storeRoute
  split <;> simp

@[simp] theorem setWithdrawVestingRoute_halts (o : SetWithdrawVestingRouteOperation) :
    Halts (db.setWithdrawVestingRoute o) := by
  simp [setWithdrawVestingRoute]

/-! ## Accounts -/

@[simp] theorem authority_validate_halts (auth : Authority) : Halts auth.validate := by
  simp [Authority.validate]

@[simp] theorem checkAuthorityAccounts_halts (auth : Authority) :
    Halts (db.checkAuthorityAccounts auth) := by
  simp [checkAuthorityAccounts]

@[simp] theorem createDelegation_halts (delegatee : AccountName) (shares : Int)
    (minTime : TimePointSec) : Halts (db.createDelegation name delegatee shares minTime) := by
  simp [createDelegation]

@[simp] theorem accountCreate_halts (o : AccountCreateOperation) : Halts (db.accountCreate o) := by
  simp [accountCreate, delegateToNewAccount]

@[simp] theorem changeMaster_halts (o : AccountUpdateOperation) (lastUpdate : TimePointSec) :
    Halts (db.changeMaster o lastUpdate) := by
  unfold changeMaster
  split <;> simp

@[simp] theorem accountUpdate_halts (o : AccountUpdateOperation) : Halts (db.accountUpdate o) := by
  simp [accountUpdate]

@[simp] theorem accountMetadataUpdate_halts (o : AccountMetadataOperation) :
    Halts (db.accountMetadataUpdate o) := by
  simp [accountMetadataUpdate]

@[simp] theorem requestAccountRecovery_halts (o : RequestAccountRecoveryOperation) :
    Halts (db.requestAccountRecovery o) := by
  cases hrequest : db.accountRecoveryRequests.get (·.accountToRecover) o.accountToRecover <;>
    simp [requestAccountRecovery, checkRecoveryPartner, hrequest]

@[simp] theorem recoverAccount_halts (o : RecoverAccountOperation) :
    Halts (db.recoverAccount o) := by
  simp [recoverAccount]

@[simp] theorem changeRecoveryAccount_halts (o : ChangeRecoveryAccountOperation) :
    Halts (db.changeRecoveryAccount o) := by
  cases hrequest :
    db.changeRecoveryAccountRequests.get (·.accountToRecover) o.accountToRecover <;>
    simp [changeRecoveryAccount, hrequest]

@[simp] theorem increaseDelegation_halts (o : DelegateVestingSharesOperation) (isNew : Bool)
    (minDelegation delta : Int) : Halts (db.increaseDelegation o isNew minDelegation delta) := by
  simp [increaseDelegation, createIfNew]

@[simp] theorem delegateVestingShares_halts (o : DelegateVestingSharesOperation) :
    Halts (db.delegateVestingShares o) := by
  cases hfound : db.vestingDelegations.get (fun d => (d.delegator, d.delegatee))
      (o.delegator, o.delegatee) <;>
    simp [delegateVestingShares, decreaseDelegation, addReceived, hfound]

/-! ## Awards -/

@[simp] theorem rsharesOf_halts (effective energy : Int) : Halts (rsharesOf effective energy) :=
  toSigned64_halts _

@[simp] theorem claimRshareAward_halts (rshares : Int) : Halts (db.claimRshareAward rshares) := by
  simp [claimRshareAward]

@[simp] theorem payBeneficiaries_halts (tokens : Int) (l : List BeneficiaryRoute) (total : Int) :
    Halts (payBeneficiaries tokens l total db) := by
  induction l generalizing total db with
  | nil => simp [payBeneficiaries]
  | cons b l ih => simp [payBeneficiaries, beneficiaryPart, ih]

@[simp] theorem payReceiver_halts (tokens : Int) : Halts (payReceiver name tokens db) := by
  simp [payReceiver]

@[simp] theorem award_halts (producing : Bool) (o : AwardOperation) :
    Halts (db.award producing o) := by
  simp [award, claimCountedAward, assertBeneficiaryCount]

@[simp] theorem fixedAwardQuote_halts (o : FixedAwardOperation) :
    Halts (db.fixedAwardQuote o) := by
  simp [fixedAwardQuote, countedAward]

@[simp] theorem fixedAward_halts (producing : Bool) (o : FixedAwardOperation) :
    Halts (db.fixedAward producing o) := by
  simp [fixedAward, assertBeneficiaryCount]

/-! ## The committee and invites -/

@[simp] theorem committeeWorkerCreateRequest_halts (o : CommitteeWorkerCreateRequestOperation) :
    Halts (db.committeeWorkerCreateRequest o) := by
  simp [committeeWorkerCreateRequest]

@[simp] theorem committeeWorkerCancelRequest_halts (o : CommitteeWorkerCancelRequestOperation) :
    Halts (db.committeeWorkerCancelRequest o) := by
  simp [committeeWorkerCancelRequest, getRequest]

@[simp] theorem committeeVoteRequest_halts (o : CommitteeVoteRequestOperation) :
    Halts (db.committeeVoteRequest o) := by
  simp [committeeVoteRequest, getRequest]

@[simp] theorem createInvite_halts (o : CreateInviteOperation) : Halts (db.createInvite o) := by
  simp [createInvite]

@[simp] theorem openInvite_halts (secret : String) : Halts (openInvite fc db secret) := by
  simp [openInvite]

@[simp] theorem claimInviteBalance_halts (o : InviteBalanceOperation) :
    Halts (claimInviteBalance fc db o) := by
  simp [claimInviteBalance]

@[simp] theorem useInviteBalance_halts (o : InviteBalanceOperation) :
    Halts (useInviteBalance fc db o) := by
  simp [useInviteBalance]

@[simp] theorem inviteRegistration_halts (o : InviteRegistrationOperation) :
    Halts (inviteRegistration fc db o) := by
  simp [inviteRegistration]

/-! ## Subscriptions and sales -/

@[simp] theorem setPaidSubscription_halts (o : SetPaidSubscriptionOperation) :
    Halts (db.setPaidSubscription o) := by
  cases hfound : db.paidSubscriptions.get (·.creator) o.account <;>
    simp [setPaidSubscription, hfound]

@[simp] theorem newSubscribe_halts (o : PaidSubscribeOperation) (summary : Int) :
    Halts (db.newSubscribe o summary) := by
  simp [newSubscribe, paySubscription]

@[simp] theorem changeSubscribe_halts (o : PaidSubscribeOperation) (summary : Int)
    (s : PaidSubscribeObject) : Halts (db.changeSubscribe o summary s) := by
  simp [changeSubscribe, subscribeRemain, paySubscription]

@[simp] theorem paidSubscribe_halts (o : PaidSubscribeOperation) : Halts (db.paidSubscribe o) := by
  cases hfound : db.paidSubscribes.get (·.key) (o.subscriber, o.account) <;>
    simp [paidSubscribe, hfound]

@[simp] theorem returnBid_halts : Halts (db.returnBid name) := by
  simp [returnBid]

@[simp] theorem setAccountPrice_halts (o : SetAccountPriceOperation) :
    Halts (db.setAccountPrice o) := by
  simp [setAccountPrice, paySaleFee, resetBidIf, resetBid, returnBidIf]

@[simp] theorem targetAccountSale_halts (o : TargetAccountSaleOperation) :
    Halts (db.targetAccountSale o) := by
  simp [targetAccountSale, paySaleFee, resetBidIf, resetBid, returnBidIf]

@[simp] theorem setSubaccountPrice_halts (o : SetSubaccountPriceOperation) :
    Halts (db.setSubaccountPrice o) := by
  simp [setSubaccountPrice, paySaleFee]

@[simp] theorem buyExisting_halts (clock : TimePointSec) (o : BuyAccountOperation)
    (a buyer : AccountObject) : Halts (db.buyExisting clock o a buyer) := by
  simp [buyExisting, bidAccount, returnBidIf, reserveBid, reservedAmounts, buyNow, payPrice]

@[simp] theorem buySubaccount_halts (o : BuyAccountOperation) (buyer : AccountObject) :
    Halts (buySubaccount fc db o buyer) := by
  simp [buySubaccount, payPrice]

@[simp] theorem buyAccount_halts (clock : TimePointSec) (o : BuyAccountOperation) :
    Halts (buyAccount fc clock db o) := by
  cases hfound : db.findAccount o.account <;> simp [buyAccount, hfound]

/-! ## Witnesses -/

@[simp] theorem witnessUpdate_halts (o : WitnessUpdateOperation) : Halts (db.witnessUpdate o) := by
  cases hfound : db.findWitness o.owner <;> simp [witnessUpdate, hfound]

@[simp] theorem updateProps_halts (props : VersionedChainProperties) :
    Halts (db.updateProps name props) := by
  cases hfound : db.findWitness name <;> simp [updateProps, hfound]

@[simp] theorem negDelta_halts (delta : List Int) : Halts (negDelta delta) := by
  simp [negDelta]

/-- The chain of proxies grows with every step of the walk, and its length is bounded. -/
theorem checkProxyChain_halts (fuel : Nat) (a : AccountObject) (chain : List Nat)
    (hlong : chain.length ≤ maxProxyRecursionDepth)
    (hfuel : maxProxyRecursionDepth < fuel + chain.length) :
    Halts (db.checkProxyChain fuel a chain) := by
  induction fuel generalizing a chain with
  | zero => omega
  | succ fuel ih =>
    unfold checkProxyChain
    refine (Halts.ite _ _ _).2 ⟨fun _ => .ok (), fun _ => ?_⟩
    refine (Halts.bind _ _).2 ⟨getAccount_halts _ _, fun next _ => ?_⟩
    refine (Halts.bind _ _).2 ⟨.fcAssert _ _, fun _ _ => ?_⟩
    refine (Halts.bind _ _).2 ⟨.fcAssert _ _, fun _ hnext => ?_⟩
    rw [fcAssert_eq_ok] at hnext
    refine ih next _ hnext ?_
    rw [List.length_cons]
    omega

@[simp] theorem accountWitnessProxy_halts (o : AccountWitnessProxyOperation) :
    Halts (db.accountWitnessProxy o) := by
  have hchain (d : Db) (a p : AccountObject) :
      Halts (d.checkProxyChain (maxProxyRecursionDepth + 1) p [a.id, p.id].dedup) := by
    have hlength : 1 ≤ [a.id, p.id].dedup.length := List.length_pos_of_mem (a := p.id) (by simp)
    have hmost : [a.id, p.id].dedup.length ≤ 2 := (List.dedup_sublist _).length_le
    refine checkProxyChain_halts d _ p _ (hmost.trans (by decide)) (by omega)
  simp [accountWitnessProxy, hchain, -List.dedup_cons, -Nat.reduceAdd]

@[simp] theorem clearProxy_halts : Halts (db.clearProxy name) := by
  simp [clearProxy]

@[simp] theorem adjustVotesOf_halts (account : Nat) (delta : Int) :
    Halts (db.adjustVotesOf account delta) := by
  simp [adjustVotesOf]

@[simp] theorem reweighVotes_halts (count : Nat → Nat) : Halts (db.reweighVotes name count) := by
  simp [reweighVotes]

@[simp] theorem accountWitnessVote_halts (o : AccountWitnessVoteOperation) :
    Halts (db.accountWitnessVote o) := by
  unfold accountWitnessVote
  refine (Halts.bind _ _).2 ⟨clearProxy_halts _ _, fun d _ => ?_⟩
  refine (Halts.bind _ _).2 ⟨getAccount_halts _ _, fun voter _ => ?_⟩
  refine (Halts.bind _ _).2 ⟨getWitness_halts _ _, fun witness _ => ?_⟩
  refine (Halts.bind _ _).2 ⟨safeSub_halts _ _, fun weight _ => ?_⟩
  split <;> simp

@[simp] theorem custom_halts (o : CustomOperation) : Halts (db.custom o) := by
  simp [custom, countCustom]

/-! ## Proposals -/

@[simp] theorem proposalDelete_halts (o : ProposalDeleteOperation) :
    Halts (db.proposalDelete o) := by
  simp [proposalDelete]

@[simp] theorem proposalApprovals_halts (title : String) (expirationTime : TimePointSec)
    (ops : List Operation) (review : Option TimePointSec) :
    Halts (db.proposalApprovals name title expirationTime ops review) := by
  simp [proposalApprovals]

@[simp] theorem approveProposal_halts (o : ProposalUpdateOperation) :
    Halts (db.approveProposal o) := by
  simp [approveProposal, checkExisting, checkDuplicate]

/-- **Every evaluator** halts. -/
theorem evaluate_halts (producing : Bool) (clock : TimePointSec) (op : Operation) :
    Halts (evaluate fc producing clock db op) := by
  cases op <;>
    simp [evaluate, chainPropertiesUpdate, versionedChainPropertiesUpdate]

end Db

/-! ## Authorities -/

section Authorities

variable {get : AuthorityGetter} (hget : ∀ name, Halts (get name))

include hget

theorem checkAccountAuths_halts
    {check : Option (Authority → SignState → Result (Bool × SignState))}
    (hcheck : ∀ f ∈ check, ∀ auth s, Halts (f auth s)) (threshold : Nat)
    (l : List (AccountName × Nat)) (total : Nat) (s : SignState) :
    Halts (SignState.checkAccountAuths get check threshold l total s) := by
  induction l generalizing total s with
  | nil => exact .ok _
  | cons p l ih =>
    simp only [SignState.checkAccountAuths]
    split
    · split
      · exact .ok _
      · exact ih _ _
    · cases check with
      | none => exact ih _ _
      | some f =>
        refine (Halts.bind _ _).2 ⟨hget _, fun auth _ => ?_⟩
        refine (Halts.bind _ _).2 ⟨hcheck f rfl auth _, fun r _ => ?_⟩
        simp [ih]

theorem checkAuthority_halts (levels : Nat) (auth : Authority) (s : SignState) :
    Halts (SignState.checkAuthority get levels auth s) := by
  induction levels generalizing auth s with
  | zero =>
    unfold SignState.checkAuthority
    split
    · exact .ok _
    · exact checkAccountAuths_halts hget (fun f hf => (Option.not_mem_none f hf).elim) _ _ _ _
  | succ levels ih =>
    unfold SignState.checkAuthority
    split
    · exact .ok _
    · refine checkAccountAuths_halts hget (fun f hf auth s => ?_) _ _ _ _
      cases hf
      exact ih auth s

end Authorities

theorem collectMissing_halts {α : Type} {check : α → SignState → Result (Bool × SignState)}
    (hcheck : ∀ x s, Halts (check x s)) (l : List α) (s : SignState) :
    Halts (collectMissing check l s) := by
  induction l generalizing s with
  | nil => exact .ok _
  | cons x l ih => simp [collectMissing, hcheck, ih]

/-- The getters of the arguments halt. -/
structure GettersHalt (args : VerifyArgs) : Prop where
  active : ∀ name, Halts (args.getActive name)
  master : ∀ name, Halts (args.getMaster name)
  regular : ∀ name, Halts (args.getRegular name)

theorem verifyAuthority_halts {args : VerifyArgs} (hargs : GettersHalt args)
    (ops : List Operation) : Halts (verifyAuthority args ops) := by
  have hactive := checkAuthority_halts hargs.active args.maxRecursionDepth
  have hregular := checkAuthority_halts hargs.regular args.maxRecursionDepth
  have hcheckRegular : ∀ name s, Halts (args.checkRegular name s) := by
    simp [VerifyArgs.checkRegular, VerifyArgs.orElse, SignState.checkAccount, hargs.regular,
      hargs.active, hargs.master, hregular]
  have hcheckActive : ∀ name s, Halts (args.checkActive name s) := by
    simp [VerifyArgs.checkActive, VerifyArgs.orElse, SignState.checkAccount, hargs.active,
      hargs.master, hactive]
  have hcheckMaster : ∀ name s, Halts (args.checkMaster name s) := by
    simp [VerifyArgs.checkMaster, VerifyArgs.orElse, hargs.master, hactive]
  simp [verifyAuthority, checkRequired, checkRequiredActive, checkRequiredRegular,
    assertUnusedApprovals, collectMissing_halts, hactive, hcheckRegular, hcheckActive, hcheckMaster]

namespace Db

variable (db : Db)

@[simp] theorem verify_halts (p : ProposalObject) (active master regular : List AccountName) :
    Halts (p.verify db active master regular) := by
  refine verifyAuthority_halts ⟨fun name => ?_, fun name => ?_, fun name => ?_⟩ _ <;>
    simp [verifyArgs]

@[simp] theorem assertIrrelevantAuthority_halts (p : ProposalObject)
    (o : ProposalUpdateOperation) (n : Nat) (active master regular : List AccountName)
    (usedSignatures : List PublicKey) :
    Halts (db.assertIrrelevantAuthority p o n active master regular usedSignatures) := by
  induction n generalizing active master regular usedSignatures with
  | zero => exact .ok ()
  | succ n ih =>
    have hverify := verify_halts db p active master regular
    unfold assertIrrelevantAuthority
    split <;> simp_all

/-! ## Transactions -/

theorem validateAll_halts {fc : Fc} {ops : List Operation}
    (h : ∀ op ∈ ops, Halts (op.validate fc)) : Halts (validateAll fc ops) := by
  induction ops with
  | nil => exact .ok ()
  | cons op ops ih =>
    rw [validateAll]
    refine (Halts.bind _ _).2 ⟨h op List.mem_cons_self, fun _ _ => ?_⟩
    exact ih fun op' hop' => h op' (List.mem_cons_of_mem op hop')

@[simp] theorem validateAccountName_halts (name : String) : Halts (validateAccountName name) :=
  .fcAssert _ _

@[simp] theorem validatePermlink_halts (fc : Fc) (permlink : String) :
    Halts (validatePermlink fc permlink) := by
  simp [validatePermlink]

@[simp] theorem validateMemo_halts (fc : Fc) (memo : String) : Halts (validateMemo fc memo) := by
  simp [validateMemo]

@[simp] theorem validateJsonMetadata_halts (fc : Fc) (json : String) :
    Halts (validateJsonMetadata fc json) := by
  simp [validateJsonMetadata]

@[simp] theorem validatePrice_halts (a : Asset) (symbolMsg amountMsg : String) :
    Halts (validatePrice a symbolMsg amountMsg) := by
  simp [validatePrice]

@[simp] theorem validateSubscriptionTerms_halts (amount : Asset) (period : Nat) :
    Halts (validateSubscriptionTerms amount period) := by
  simp [validateSubscriptionTerms]

theorem validateWeights_halts (l : List BeneficiaryRoute) (sum : Nat) :
    Halts (validateWeights l sum) := by
  induction l generalizing sum with
  | nil => exact .ok ()
  | cons b l ih => simp [validateWeights, ih]

@[simp] theorem validateAwardTail_halts (fc : Fc) (energy customSequence : Nat) (memo : String)
    (beneficiaries : List BeneficiaryRoute) :
    Halts (validateAwardTail fc energy customSequence memo beneficiaries) := by
  simp [validateAwardTail, validateBeneficiaries, validateWeights_halts]

theorem validateContentWeights_halts (previous : Option BeneficiaryRoute)
    (l : List BeneficiaryRoute) (sum : Nat) : Halts (validateContentWeights previous l sum) := by
  induction l generalizing previous sum with
  | nil => exact .ok ()
  | cons b l ih => simp [validateContentWeights, ih]

@[simp] theorem validateContentBeneficiaries_halts (beneficiaries : List BeneficiaryRoute) :
    Halts (validateContentBeneficiaries beneficiaries) := by
  simp [validateContentBeneficiaries, validateContentWeights_halts]

@[simp] theorem validatePercent_halts (x : Int) (name : String) :
    Halts (validatePercent x name) := by
  simp [validatePercent]

@[simp] theorem validateFee_halts (a : Asset) (name : String) : Halts (validateFee a name) := by
  simp [validateFee]

@[simp] theorem props_init_halts (p : ChainPropertiesInit) : Halts p.validate := by
  simp [ChainPropertiesInit.validate]

@[simp] theorem props_validate_halts (props : VersionedChainProperties) :
    Halts props.validate := by
  cases props <;>
    simp [VersionedChainProperties.validate, ChainPropertiesHf4.validate,
      ChainPropertiesHf6.validate, ChainPropertiesHf9.validate]

/-- **The checks of an operation**, also of one that proposes others. -/
theorem validate_halts (fc : Fc) (op : Operation) : Halts (op.validate fc) := by
  cases op with
  | proposalCreate author title memo expirationTime ops review =>
    have hall := validateAll_halts fun op (hop : op ∈ ops) =>
      have := List.sizeOf_lt_of_mem hop
      validate_halts fc op
    simp [Operation.validate, validateProposalHead, validateProposalMemo, hall]
  | _ =>
    simp [Operation.validate, ContentOperation.validate, TransferOperation.validate,
      TransferToVestingOperation.validate, WithdrawVestingOperation.validate,
      SetWithdrawVestingRouteOperation.validate, EscrowTransferOperation.validate,
      EscrowApproveOperation.validate, EscrowDisputeOperation.validate,
      EscrowReleaseOperation.validate, DelegateVestingSharesOperation.validate,
      AccountCreateOperation.validate, RecoverAccountOperation.validate,
      ProposalUpdateOperation.validate, CommitteeWorkerCreateRequestOperation.validate,
      AwardOperation.validate, FixedAwardOperation.validate, SetPaidSubscriptionOperation.validate,
      PaidSubscribeOperation.validate, SetAccountPriceOperation.validate,
      SetSubaccountPriceOperation.validate, TargetAccountSaleOperation.validate,
      BuyAccountOperation.validate, validateCreateAccountName, validateDomainName,
      validateDisjoint]
termination_by sizeOf op
decreasing_by
  simp only [Operation.proposalCreate.sizeOf_spec]
  omega

theorem validateTransaction_halts (env : Env) (trx : SignedTransaction) :
    Halts (db.validateTransaction env proposalSkip trx) := by
  have hall := validateAll_halts fun op (_ : op ∈ trx.operations) => validate_halts env.fc op
  simp [validateTransaction, validateOperations, checkExpiration, checkTapos, proposalSkip, hall]

@[simp] theorem updateAccountBandwidth_halts (producing : Bool) (name : AccountName)
    (size : Nat) : Halts (db.updateAccountBandwidth producing name size) := by
  simp [updateAccountBandwidth, decayedBandwidth, bandwidthShares]

theorem openTransaction_halts (env : Env) (trx : SignedTransaction) :
    Halts (db.openTransaction env { proposalSkip with validateOperations := true } trx) := by
  have hcharge (d : Db) (name : AccountName) : Halts (chargeBandwidth env trx d name) := by
    simp [chargeBandwidth]
  simp [openTransaction, validateTransaction, checkExpiration, checkTapos, proposalSkip, hcharge]

end Db

end VizCore.Chain
