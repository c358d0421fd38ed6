import VizCore.Chain.Evaluator.Accounts
import VizCore.Chain.Evaluator.Awards
import VizCore.Chain.Evaluator.Committee
import VizCore.Chain.Evaluator.Proposals
import VizCore.Chain.Evaluator.Sales
import VizCore.Chain.Evaluator.Subscriptions
import VizCore.Chain.Evaluator.Transfers
import VizCore.Chain.Evaluator.Witnesses

/-!
# Applying operations

The registry of evaluators and `apply_operation`.  Operations may execute proposals and
so apply further operations; the recursion is bounded by fuel.

* `evaluate_flow`: the flow of every evaluator;
* `RecountsFor`: what a property of the state and of the events that led to it has to satisfy to
  be kept by everything that is applied, and `Keeps` the same for a property of the state;
* `RecountsFor.applyOperation`, `applyOperation_ensures`: a property that is kept by every
  evaluator is kept by every operation, whatever proposals it executes.
-/

namespace VizCore.Chain

open VizCore.Lib VizCore.Protocol

namespace Db

/-- The registered evaluators, apart from the two that apply further operations themselves. -/
def evaluate (fc : Fc) (producing : Bool) (clock : TimePointSec) (db : Db) : Operation → Result Db
  | .vote _ => .error (.assertion "vote is deprecated as of HF 4")
  | .content _ => .error (.assertion "content is deprecated as of HF 4")
  | .deleteContent _ => .error (.assertion "delete_content is deprecated as of HF 4")
  | .transfer o => transfer fc db o
  | .transferToVesting o => db.transferToVesting o
  | .withdrawVesting o => db.withdrawVesting o
  | .setWithdrawVestingRoute o => db.setWithdrawVestingRoute o
  | .accountCreate o => db.accountCreate o
  | .accountUpdate o => db.accountUpdate o
  | .accountMetadata o => db.accountMetadataUpdate o
  | .witnessUpdate o => db.witnessUpdate o
  | .accountWitnessVote o => db.accountWitnessVote o
  | .accountWitnessProxy o => db.accountWitnessProxy o
  | .custom o => db.custom o
  | .requestAccountRecovery o => db.requestAccountRecovery o
  | .recoverAccount o => db.recoverAccount o
  | .changeRecoveryAccount o => db.changeRecoveryAccount o
  | .escrowTransfer o => db.escrowTransfer o
  | .escrowApprove o => db.escrowApprove o
  | .escrowDispute o => db.escrowDispute o
  | .escrowRelease o => db.escrowRelease o
  | .delegateVestingShares o => db.delegateVestingShares o
  | .proposalDelete o => db.proposalDelete o
  | .chainPropertiesUpdate o => db.chainPropertiesUpdate o
  | .versionedChainPropertiesUpdate o => db.versionedChainPropertiesUpdate o
  | .committeeWorkerCreateRequest o => db.committeeWorkerCreateRequest o
  | .committeeWorkerCancelRequest o => db.committeeWorkerCancelRequest o
  | .committeeVoteRequest o => db.committeeVoteRequest o
  | .createInvite o => db.createInvite o
  | .claimInviteBalance o => claimInviteBalance fc db o
  | .inviteRegistration o => inviteRegistration fc db o
  | .award o => db.award producing o
  | .setPaidSubscription o => db.setPaidSubscription o
  | .paidSubscribe o => db.paidSubscribe o
  | .setAccountPrice o => db.setAccountPrice o
  | .setSubaccountPrice o => db.setSubaccountPrice o
  | .buyAccount o => buyAccount fc clock db o
  | .useInviteBalance o => useInviteBalance fc db o
  | .fixedAward o => db.fixedAward producing o
  | .targetAccountSale o => db.targetAccountSale o
  | .proposalCreate .. => .error (.unknownKey "evaluator")
  | .proposalUpdate _ => .error (.unknownKey "evaluator")

/-- The evaluator of an operation, with a way to apply the operations of proposals. -/
def evaluateWith (apply : Depth → Db → Operation → Run Db) (env : Env) (depth : Depth) (db : Db) :
    Operation → Run Db
  | .proposalCreate author title memo expirationTime ops review =>
    proposalCreateWith apply env depth db author title memo expirationTime ops review
  | .proposalUpdate o => proposalUpdateWith apply env depth db o
  | op => do
    let n ← Traced.tick
    Traced.lift (evaluate env.fc env.producing (env.clock n) db op)

/-- `apply_operation`; the operation is reported before it is applied, as
`notify_pre_apply_operation` does. -/
def applyOperation (env : Env) : Nat → Depth → Db → Operation → Run Db
  | 0, _, _, _ => Traced.lift (.error .outOfFuel)
  | fuel + 1, depth, db, op => do
    Traced.report (.operation db op true)
    evaluateWith (applyOperation env fuel) env depth db op

/-- `_apply_transaction` -/
def applyTransaction (env : Env) (fuel : Nat) (skip : Skip) (db : Db) (trx : SignedTransaction) :
    Run Db :=
  applyTransactionWith (applyOperation env fuel {}) env skip db trx

def pushProposal (env : Env) (fuel : Nat) (db : Db) (p : ProposalObject) : Run Db :=
  pushProposalWith (applyOperation env fuel {}) db p

/-- `clear_expired_proposals`; every pass removes a proposal that is due and adds none. -/
def clearExpiredProposals (env : Env) (fuel : Nat) (db : Db) : Run Db :=
  clearExpiredProposalsWith (applyOperation env fuel {}) (db.proposals.rows.length + 1) db

/-! ## The flow of an evaluator -/

/-- What an operation has to be covered by: only a bid is not checked by its evaluator. -/
def Covered (db : Db) : Operation → Prop
  | .buyAccount o => db.BidCovered o
  | _ => True

/-- The tokens that an operation makes: only a fixed award pays out more than it takes. -/
def minted (db : Db) : Operation → Int
  | .fixedAward o =>
    max (partsOf (db.fixedAwardPayout o) o.beneficiaries - o.rewardAmount.amount) 0
  | _ => 0

theorem removeProposal_flow {fc : Fc} {g : Prop} (db : Db) (p : ProposalObject) :
    Flow fc g 0 0 db (db.removeProposal p) :=
  .of_move (.proposals db.ledger _ fun hs => Table.all_erase hs.proposals)

/-- **The flow of every evaluator.** -/
theorem evaluate_flow {fc : Fc} {producing : Bool} {clock : TimePointSec} {db db' : Db}
    {op : Operation} (hv : op.validate fc = .ok ()) (hs : db.ledger.Settled fc)
    (h : evaluate fc producing clock db op = .ok db') :
    Flow fc (db.Ready ∧ db.Covered op) (db.minted op) 0 db db' := by
  cases op with
  | vote o => cases h
  | content o => cases h
  | deleteContent o => cases h
  | transfer o => exact (transfer_flow hv h).mono And.left
  | transferToVesting o => exact (transferToVesting_flow hv h).mono And.left
  | withdrawVesting o => exact .of_ledger_eq (withdrawVesting_ledger h)
  | setWithdrawVestingRoute o => exact (setWithdrawVestingRoute_flow hv h).mono And.left
  | accountCreate o => exact (accountCreate_flow hv h).mono And.left
  | accountUpdate o => exact .of_ledger_eq (accountUpdate_ledger h)
  | accountMetadata o => exact .of_ledger_eq (accountMetadataUpdate_ledger h)
  | witnessUpdate o => exact (witnessUpdate_flow h).mono And.left
  | accountWitnessVote o => exact .of_ledger_eq (accountWitnessVote_ledger h)
  | accountWitnessProxy o => exact .of_ledger_eq (accountWitnessProxy_ledger h)
  | custom o => exact .of_ledger_eq (custom_ledger h)
  | requestAccountRecovery o => exact .of_ledger_eq (requestAccountRecovery_ledger h)
  | recoverAccount o => exact .of_ledger_eq (recoverAccount_ledger h)
  | changeRecoveryAccount o => exact .of_ledger_eq (changeRecoveryAccount_ledger h)
  | escrowTransfer o => exact (escrowTransfer_flow hv h).mono And.left
  | escrowApprove o => exact (escrowApprove_flow h).mono And.left
  | escrowDispute o => exact (escrowDispute_flow h).mono And.left
  | escrowRelease o => exact (escrowRelease_flow hv hs h).mono And.left
  | delegateVestingShares o => exact .of_ledger_eq (delegateVestingShares_ledger h)
  | proposalDelete o =>
    simp only [evaluate, proposalDelete, bind_eq_ok, pure_eq_ok] at h
    obtain ⟨p, -, _, -, rfl⟩ := h
    exact removeProposal_flow db p
  | chainPropertiesUpdate o =>
    simp only [Operation.validate, bind_eq_ok] at hv
    obtain ⟨_, -, hprops⟩ := hv
    have hinit : (VersionedChainProperties.init o.props).validate = .ok () := hprops
    exact (updateProps_flow hinit h).mono And.left
  | versionedChainPropertiesUpdate o =>
    simp only [Operation.validate, bind_eq_ok] at hv
    obtain ⟨_, -, hprops⟩ := hv
    exact (updateProps_flow hprops h).mono And.left
  | committeeWorkerCreateRequest o => exact (committeeWorkerCreateRequest_flow hv h).mono And.left
  | committeeWorkerCancelRequest o => exact (committeeWorkerCancelRequest_flow h).mono And.left
  | committeeVoteRequest o => exact (committeeVoteRequest_flow h).mono And.left
  | createInvite o => exact (createInvite_flow hv h).mono And.left
  | claimInviteBalance o => exact (claimInviteBalance_flow h).mono And.left
  | inviteRegistration o => exact (inviteRegistration_flow h).mono And.left
  | award o => exact (award_flow hv h).mono And.left
  | setPaidSubscription o => exact (setPaidSubscription_flow hv h).mono And.left
  | paidSubscribe o => exact paidSubscribe_flow hv h
  | setAccountPrice o => exact (setAccountPrice_flow h).mono And.left
  | setSubaccountPrice o => exact (setSubaccountPrice_flow h).mono And.left
  | buyAccount o => exact buyAccount_flow hv h
  | useInviteBalance o => exact (useInviteBalance_flow h).mono And.left
  | fixedAward o => exact (fixedAward_flow hv h).mono And.left
  | targetAccountSale o => exact (targetAccountSale_flow h).mono And.left
  | proposalCreate => cases h
  | proposalUpdate o => cases h

/-! ## Properties that are kept -/

/-- A property that the evaluators, the bookkeeping of proposals and the opening of a
transaction keep, as long as the events satisfy `C`.  `V` is what is known about the operations
of a proposal, and `W` about an operation that is applied. -/
structure KeepsFor (env : Env) (V : List Operation → Prop) (W : Operation → Prop)
    (C : Event → Prop) (I : Db → Prop) : Prop where
  member : ∀ ops, V ops → ∀ op ∈ ops, W op
  checked : ∀ ops, validateAll env.fc ops = .ok () → V ops
  validated : ∀ db, I db → db.proposals.All fun p => V p.proposedOperations
  evaluate : ∀ clock db op db', I db → W op → C (.operation db op true) →
    evaluate env.fc env.producing clock db op = .ok db' → I db'
  proposals : ∀ db t r, I db → t.All (fun p => V p.proposedOperations) →
    I { db with proposals := t, requiredApprovals := r }
  opened : ∀ skip db trx db', I db → openTransaction env skip db trx = .ok db' → I db'

/-- The evaluators of proposals apply further operations, and change nothing but proposals. -/
def defers : Operation → Bool
  | .proposalCreate .. => true
  | .proposalUpdate _ => true
  | _ => false

/-- `KeepsFor` for a property of the state and of the events that led to it. -/
structure RecountsFor (env : Env) (V : List Operation → Prop) (W : Operation → Prop)
    (C : Event → Prop) (H : List Event → Db → Prop) : Prop where
  member : ∀ ops, V ops → ∀ op ∈ ops, W op
  checked : ∀ ops, validateAll env.fc ops = .ok () → V ops
  validated : ∀ l db, H l db → db.proposals.All fun p => V p.proposedOperations
  evaluate : ∀ l clock db op db', H l db → W op → C (.operation db op true) →
    evaluate env.fc env.producing clock db op = .ok db' → H (l ++ [.operation db op true]) db'
  deferred : ∀ l db op, H l db → defers op = true → H (l ++ [.operation db op true]) db
  undone : ∀ l (l' : List Event) db, H l db → H (l ++ l'.map Event.undone) db
  proposals : ∀ l db t r, H l db → t.All (fun p => V p.proposedOperations) →
    H l { db with proposals := t, requiredApprovals := r }
  opened : ∀ l skip db trx db', H l db → openTransaction env skip db trx = .ok db' → H l db'

theorem KeepsFor.recounts {env : Env} {V : List Operation → Prop} {W : Operation → Prop}
    {C : Event → Prop} {I : Db → Prop} (hI : KeepsFor env V W C I) :
    RecountsFor env V W C fun _ => I where
  member := hI.member
  checked := hI.checked
  validated _ := hI.validated
  evaluate _ := hI.evaluate
  deferred _ _ _ hdb _ := hdb
  undone _ _ _ hdb := hdb
  proposals _ := hI.proposals
  opened _ := hI.opened

/-- A way to apply operations that keeps the property. -/
def AppliesWith (W : Operation → Prop) (C : Event → Prop) (H : List Event → Db → Prop)
    (apply : Db → Operation → Run Db) : Prop :=
  ∀ l db op, H l db → W op → Traced.Recounts C l (apply db op) H

theorem AppliesWith.foldlM {W : Operation → Prop} {C : Event → Prop} {H : List Event → Db → Prop}
    {apply : Db → Operation → Run Db} (happly : AppliesWith W C H apply) {ops : List Operation}
    (hops : ∀ op ∈ ops, W op) {l : List Event} {db : Db} (hdb : H l db) :
    Traced.Recounts C l (ops.foldlM apply db) H :=
  .foldlM H apply ops (fun op hop l db hdb => happly l db op hdb (hops op hop)) db hdb

/-- `AppliesWith` for a property of the state alone. -/
def Applies (W : Operation → Prop) (C : Event → Prop) (I : Db → Prop)
    (apply : Db → Operation → Run Db) : Prop :=
  ∀ db op, I db → W op → Traced.Ensures C (apply db op) I

theorem Applies.foldlM {W : Operation → Prop} {C : Event → Prop} {I : Db → Prop}
    {apply : Db → Operation → Run Db} (happly : Applies W C I apply) {ops : List Operation}
    (hops : ∀ op ∈ ops, W op) {db : Db} (hdb : I db) :
    Traced.Ensures C (ops.foldlM apply db) I :=
  Traced.Ensures.foldlM I apply ops (fun op hop db hdb => happly db op hdb (hops op hop)) db hdb

theorem afterAttempt_keeps {I : Db → Prop} {db db' : Db} {r : Result Db} (hdb : I db)
    (hr : ∀ d, r = .ok d → I d) (h : afterAttempt db r = .ok db') : I db' := by
  unfold afterAttempt at h
  split at h
  · cases h
    exact hr _ rfl
  · cases h
  · cases h
    exact hdb

theorem dueProposal_mem {db : Db} {p : ProposalObject} (h : db.dueProposal = some p) :
    p ∈ db.proposals.rows := by
  unfold dueProposal at h
  rw [Option.filter_eq_some_iff] at h
  have hmem := List.mem_of_mem_head? h.1
  rwa [mem_orderBy] at hmem

namespace RecountsFor

variable {env : Env} {V : List Operation → Prop} {W : Operation → Prop} {C : Event → Prop}
  {H : List Event → Db → Prop} {l : List Event}

theorem removed (hH : RecountsFor env V W C H) {db : Db} (hdb : H l db) (p : ProposalObject) :
    H l (db.removeProposal p) :=
  hH.proposals l db _ _ hdb (Table.all_erase (hH.validated l db hdb))

theorem pushProposal (hH : RecountsFor env V W C H) {apply : Db → Operation → Run Db}
    (happly : AppliesWith W C H apply) {db : Db} {p : ProposalObject} (hdb : H l db)
    (hp : V p.proposedOperations) : Traced.Recounts C l (pushProposalWith apply db p) H := by
  unfold pushProposalWith
  refine (happly.foldlM (hH.member _ hp) hdb).bind fun l db' hdb' => ?_
  exact .pure (hH.removed hdb' p)

/-- The operations of a proposal are applied to `db₁`; when that throws, `db₂` remains. -/
theorem attempted (hH : RecountsFor env V W C H) {apply : Db → Operation → Run Db}
    (happly : AppliesWith W C H apply) {db₁ db₂ : Db} {p : ProposalObject} (hdb₁ : H l db₁)
    (hdb₂ : H l db₂) (hp : V p.proposedOperations) :
    Traced.Recounts C l (do
      let r ← Traced.attempt Event.undone (pushProposalWith apply db₁ p)
      Traced.lift (afterAttempt db₂ r)) H := by
  have hattempt : Traced.Recounts C l (Traced.attempt Event.undone (pushProposalWith apply db₁ p))
      fun l r => ∀ d, afterAttempt db₂ r = .ok d → H l d := by
    refine (hH.pushProposal happly hdb₁ hp).attempt (fun l d hd d' h => ?_) fun l' e d' h => ?_
    · cases h
      exact hd
    · exact afterAttempt_keeps (hH.undone l l' db₂ hdb₂) (fun _ h => (by cases h)) h
  exact hattempt.bind fun l r hr => .lift hr

theorem proposalCreate (hH : RecountsFor env V W C H) {apply : Depth → Db → Operation → Run Db}
    {depth : Depth} {db : Db} {author : AccountName} {title memo : String}
    {expirationTime : TimePointSec} {ops : List Operation} {review : Option TimePointSec}
    (hdb : H l db) :
    Traced.Recounts C l
      (proposalCreateWith apply env depth db author title memo expirationTime ops review) H := by
  unfold proposalCreateWith
  refine Traced.Recounts.bind (H := fun l _ => H l db) (.lift fun _ _ => hdb) fun l _ hdb => ?_
  refine Traced.Recounts.bind (H := fun l _ => H l db) (.lift fun _ _ => hdb) fun l required hdb => ?_
  refine Traced.Recounts.bind (H := fun l _ => H l db ∧ V ops) (.lift fun _ h => ⟨hdb, ?_⟩)
    fun l _ hdb => ?_
  · simp only [validateTransaction, proposalSkip, unlessSkipped, validateOperations,
      Bool.false_eq_true, if_false, bind_eq_ok] at h
    obtain ⟨_, ⟨_, -, hops⟩, -⟩ := h
    exact hH.checked ops hops
  · refine Traced.Recounts.bind (H := fun l _ => H l db)
      (.dry fun l' _ => hH.undone l l' db hdb.1) fun l _ hdb' => .pure ?_
    exact hH.proposals l db _ _ hdb' (Table.all_create (hH.validated l db hdb') hdb.2)

theorem approveProposal (hH : RecountsFor env V W C H) {db db' : Db} {o : ProposalUpdateOperation}
    {p : ProposalObject} (hdb : H l db) (h : db.approveProposal o = .ok (p, db')) :
    H l db' ∧ V p.proposedOperations := by
  simp only [Db.approveProposal, getProposal, findProposal, bind_eq_ok, getOrThrow_eq_ok,
    pure_eq_ok, Prod.mk.injEq] at h
  obtain ⟨q, hq, _, -, _, -, _, -, _, -, _, -, _, -, _, -, _, -, _, -, rfl, rfl⟩ := h
  have hall := hH.validated l db hdb
  constructor
  · exact hH.proposals l db _ _ hdb (Table.all_update hall fun r _ hr => hr)
  · exact hall q (Table.get_mem hq)

theorem proposalUpdate (hH : RecountsFor env V W C H) {apply : Depth → Db → Operation → Run Db}
    (happly : ∀ depth, AppliesWith W C H (apply depth)) {depth : Depth} {db : Db}
    {o : ProposalUpdateOperation} (hdb : H l db) :
    Traced.Recounts C l (proposalUpdateWith apply env depth db o) H := by
  unfold proposalUpdateWith
  refine Traced.Recounts.bind (H := fun l _ => H l db) (.lift fun _ _ => hdb) fun l _ hdb => ?_
  refine Traced.Recounts.bind (H := fun l r => H l r.2 ∧ V r.1.proposedOperations)
    (.lift fun r h => ?_) fun l r hr => ?_
  · exact hH.approveProposal hdb h
  · obtain ⟨p, db₁⟩ := r
    obtain ⟨hdb₁, hp⟩ := hr
    cases hreview : p.reviewPeriodTime with
    | some review =>
      simp only [hreview]
      refine .pure ?_
      unfold reviewProposal
      split
      · exact hH.removed hdb₁ p
      · exact hdb₁
    | none =>
      simp only [hreview]
      refine Traced.Recounts.bind (H := fun l _ => H l db₁) (.lift fun _ _ => hdb₁)
        fun l _ hdb₁ => ?_
      split
      · exact hH.attempted (happly _) hdb₁ hdb₁ hp
      · exact .pure hdb₁

/-- **Operations.**  What every evaluator keeps, every operation keeps, together with all that
it applies. -/
theorem applyOperation (hH : RecountsFor env V W C H) (fuel : Nat) (depth : Depth) :
    AppliesWith W C H (Db.applyOperation env fuel depth) := by
  induction fuel generalizing depth with
  | zero => exact fun _ _ _ _ _ => .lift fun _ h => (by cases h)
  | succ fuel ih =>
    intro l db op hdb hW
    unfold Db.applyOperation
    refine Traced.Recounts.bind (H := fun l' _ => l' = l ++ [.operation db op true] ∧
      C (.operation db op true)) (.report fun hC => ⟨rfl, hC⟩) fun l' _ hl' => ?_
    obtain ⟨rfl, hC⟩ := hl'
    unfold evaluateWith
    split
    · exact hH.proposalCreate (hH.deferred l db _ hdb rfl)
    · exact hH.proposalUpdate (fun d => ih d) (hH.deferred l db _ hdb rfl)
    · refine Traced.Recounts.bind (H := fun l' _ => l' = l ++ [.operation db op true])
        (.tick fun _ => rfl) fun l' n hl' => ?_
      subst hl'
      exact .lift fun db' h => hH.evaluate l _ db op db' hdb hW hC h

theorem clearExpiredProposals (hH : RecountsFor env V W C H) (fuel : Nat) {db : Db}
    (hdb : H l db) : Traced.Recounts C l (Db.clearExpiredProposals env fuel db) H := by
  unfold Db.clearExpiredProposals
  generalize db.proposals.rows.length + 1 = n
  induction n generalizing l db with
  | zero => exact .lift fun _ h => (by cases h)
  | succ n ih =>
    unfold clearExpiredProposalsWith
    split
    · exact .pure hdb
    · rename_i p hdue
      have hp := hH.validated l db hdb p (dueProposal_mem hdue)
      have hpass : Traced.Recounts C l (clearProposalWith (Db.applyOperation env fuel {}) db p)
          H := by
        unfold clearProposalWith
        split
        · exact hH.attempted (hH.applyOperation fuel {}) hdb (hH.removed hdb p) hp
        · exact .pure (hH.removed hdb p)
      exact hpass.bind fun l db' hdb' => ih hdb'

end RecountsFor

namespace KeepsFor

variable {env : Env} {V : List Operation → Prop} {W : Operation → Prop} {C : Event → Prop}
  {I : Db → Prop}

theorem applyOperation (hI : KeepsFor env V W C I) (fuel : Nat) (depth : Depth) :
    Applies W C I (Db.applyOperation env fuel depth) := by
  intro db op hdb hW
  rw [Traced.ensures_iff []]
  exact hI.recounts.applyOperation fuel depth [] db op hdb hW

theorem clearExpiredProposals (hI : KeepsFor env V W C I) (fuel : Nat) {db : Db} (hdb : I db) :
    Traced.Ensures C (Db.clearExpiredProposals env fuel db) I := by
  rw [Traced.ensures_iff []]
  exact hI.recounts.clearExpiredProposals fuel hdb

end KeepsFor

/-- A property that is kept as long as the operations that are applied are valid. -/
structure Keeps (env : Env) (C : Event → Prop) (I : Db → Prop) : Prop where
  validated : ∀ db, I db →
    db.proposals.All fun p => validateAll env.fc p.proposedOperations = .ok ()
  evaluate : ∀ clock db op db', I db → op.validate env.fc = .ok () →
    C (.operation db op true) → evaluate env.fc env.producing clock db op = .ok db' → I db'
  proposals : ∀ db t r, I db →
    t.All (fun p => validateAll env.fc p.proposedOperations = .ok ()) →
    I { db with proposals := t, requiredApprovals := r }
  opened : ∀ skip db trx db', I db → openTransaction env skip db trx = .ok db' → I db'

section Ensures

variable {env : Env} {C : Event → Prop} {I : Db → Prop}

theorem Keeps.valid (hI : Keeps env C I) :
    KeepsFor env (fun ops => validateAll env.fc ops = .ok ())
      (fun op => op.validate env.fc = .ok ()) C I where
  member _ hops _ hop := validateAll_mem hops hop
  checked _ hops := hops
  validated := hI.validated
  evaluate := hI.evaluate
  proposals := hI.proposals
  opened := hI.opened

theorem applyOperation_ensures (hI : Keeps env C I) (fuel : Nat) (depth : Depth) :
    Applies (fun op => op.validate env.fc = .ok ()) C I (applyOperation env fuel depth) :=
  hI.valid.applyOperation fuel depth

/-- A property of the events and the state, as long as the operations that are applied are
valid. -/
def Recounts (env : Env) (C : Event → Prop) (H : List Event → Db → Prop) : Prop :=
  RecountsFor env (fun ops => validateAll env.fc ops = .ok ())
    (fun op => op.validate env.fc = .ok ()) C H

/-- **Transactions** that validate their operations. -/
theorem applyTransaction_recounts {H : List Event → Db → Prop} (hH : Recounts env C H) (fuel : Nat)
    {skip : Skip} (hskip : skip.validateOperations = false) {l : List Event} {db : Db}
    (trx : SignedTransaction) (hdb : H l db) :
    Traced.Recounts C l (applyTransaction env fuel skip db trx) H := by
  unfold applyTransaction applyTransactionWith
  refine Traced.Recounts.bind
    (H := fun l d => H l d ∧ validateAll env.fc trx.operations = .ok ()) (.lift fun d h => ?_)
    fun l d hd => ?_
  · exact ⟨hH.opened l skip db trx d hdb h, openTransaction_validated hskip h⟩
  · exact (hH.applyOperation fuel {}).foldlM (fun _ hop => validateAll_mem hd.2 hop) hd.1

theorem applyTransaction_ensures (hI : Keeps env C I) (fuel : Nat) {skip : Skip}
    (hskip : skip.validateOperations = false) {db : Db} (trx : SignedTransaction) (hdb : I db) :
    Traced.Ensures C (applyTransaction env fuel skip db trx) I := by
  rw [Traced.ensures_iff []]
  exact applyTransaction_recounts hI.valid.recounts fuel hskip trx hdb

theorem clearExpiredProposals_ensures (hI : Keeps env C I) (fuel : Nat) {db : Db} (hdb : I db) :
    Traced.Ensures C (clearExpiredProposals env fuel db) I :=
  hI.valid.clearExpiredProposals fuel hdb

end Ensures

/-! ## Frames -/

/-- A property that does not depend on whether operations are valid. -/
structure Framed (env : Env) (I : Db → Prop) : Prop where
  evaluate : ∀ clock db op db', I db → evaluate env.fc env.producing clock db op = .ok db' → I db'
  proposals : ∀ db t r, I db → I { db with proposals := t, requiredApprovals := r }
  opened : ∀ skip db trx db', I db → openTransaction env skip db trx = .ok db' → I db'

section Framed

variable {env : Env} {I : Db → Prop}

theorem Framed.always (hI : Framed env I) :
    KeepsFor env (fun _ => True) (fun _ => True) (fun _ => True) I where
  member _ _ _ _ := trivial
  checked _ _ := trivial
  validated _ _ _ _ := trivial
  evaluate clock db op db' hdb _ _ h := hI.evaluate clock db op db' hdb h
  proposals db t r hdb _ := hI.proposals db t r hdb
  opened := hI.opened

theorem applyTransaction_framed (hI : Framed env I) (fuel : Nat) (skip : Skip) {db : Db}
    (trx : SignedTransaction) (hdb : I db) :
    Traced.Ensures (fun _ => True) (applyTransaction env fuel skip db trx) I := by
  unfold applyTransaction applyTransactionWith
  refine Traced.Ensures.bind (Q := I) (.lift fun d h => hI.opened skip db trx d hdb h) fun d hd => ?_
  exact (hI.always.applyOperation fuel {}).foldlM (fun _ _ => trivial) hd

theorem clearExpiredProposals_framed (hI : Framed env I) (fuel : Nat) {db : Db} (hdb : I db) :
    Traced.Ensures (fun _ => True) (clearExpiredProposals env fuel db) I :=
  hI.always.clearExpiredProposals fuel hdb

end Framed

end Db

end VizCore.Chain
