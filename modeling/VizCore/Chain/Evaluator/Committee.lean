import VizCore.Chain.Flow

/-!
# Committee requests and invites

Evaluators of `committee_evaluator.cpp` and `invite_evaluator.cpp`.

* `committeeWorkerCreateRequest_flow`: a request asks for no negative amount;
* `createInvite_flow`, `claimInviteBalance_flow`: an invite holds its tokens until it is
  claimed, and is empty afterwards.
-/

namespace VizCore.Chain

open VizCore.Lib VizCore.Protocol

namespace Db

/-! ## Committee requests -/

def getRequest (db : Db) (requestId : Nat) : Result CommitteeRequestObject :=
  getOrThrow (db.committeeRequests.get (·.requestId) requestId)
    (.assertion "Committee request id not found.")

/-- The request that an operation opens at the time `now`. -/
def openedRequest (o : CommitteeWorkerCreateRequestOperation) (now : TimePointSec)
    (requestId id : Nat) : CommitteeRequestObject :=
  { id := id, requestId := requestId, url := o.url, creator := o.creator, worker := o.worker
    requiredAmountMin := o.requiredAmountMin.amount
    requiredAmountMax := o.requiredAmountMax.amount
    startTime := now, duration := o.duration, endTime := (now + o.duration) % 2 ^ 32
    status := 0, votesCount := 0, conclusionTime := 0, lastPayoutTime := 0, payoutTime := 0 }

/-- `committee_worker_create_request_evaluator::do_apply` -/
def committeeWorkerCreateRequest (db : Db) (o : CommitteeWorkerCreateRequestOperation) :
    Result Db := do
  let creator ← db.getAccount o.creator
  let _ ← db.getAccount o.worker
  let now := db.headBlockTime
  let fee := db.medianProps.committeeCreateRequestFee.amount
  fcAssert (fee ≤ creator.balance)
    "Account does not have sufficient funds to create a committee request: required $\x7ba\x7d."
  fcAssert (∀ r ∈ db.committeeRequests.rows, ¬ (r.creator = o.creator ∧ r.url = o.url))
    "Committee request with same creator and url already exist."
  fcAssert (∀ r ∈ db.committeeRequests.rows, r.creator = o.creator →
    ¬ (now : Int) - r.startTime < 60 * 60 * 24)
    "Committee request can not be created by same creator before COMMITTEE_REQUEST_PER_TIME ends."
  let requestId := (db.dgp.committeeRequests + 1) % 2 ^ 32
  let db := { db with
    committeeRequests := db.committeeRequests.create (openedRequest o now requestId) }
  let db := db.modifyDgp fun p => { p with committeeRequests := requestId }
  let db ← db.adjustBalance o.creator (-fee)
  db.addCommitteeFund fee

def modifyRequest (db : Db) (requestId : Nat)
    (f : CommitteeRequestObject → CommitteeRequestObject) : Db :=
  { db with committeeRequests := db.committeeRequests.update (·.requestId) requestId f }

/-- `committee_worker_cancel_request_evaluator::do_apply` -/
def committeeWorkerCancelRequest (db : Db) (o : CommitteeWorkerCancelRequestOperation) :
    Result Db := do
  let _ ← db.getAccount o.creator
  let request ← db.getRequest o.requestId
  fcAssert (request.creator = o.creator) "Committee request can canceled only by creator."
  fcAssert (request.status = 0) "Committee request is not active."
  return db.modifyRequest o.requestId fun r =>
    { r with status := 1, conclusionTime := db.headBlockTime }

/-- `committee_vote_request_evaluator::do_apply` -/
def committeeVoteRequest (db : Db) (o : CommitteeVoteRequestOperation) : Result Db := do
  let _ ← db.getAccount o.voter
  let request ← db.getRequest o.requestId
  fcAssert (request.status = 0) "Committee request is not active."
  let now := db.headBlockTime
  let isVote (v : CommitteeVoteObject) : Bool :=
    v.requestId = request.requestId && v.voter = o.voter
  if db.committeeVotes.rows.any isVote then
    fcAssert (∀ v ∈ db.committeeVotes.rows, isVote v → v.votePercent ≠ o.votePercent)
      "Committee vote percent equal last vote."
    return { db with
      committeeVotes := db.committeeVotes.map fun v =>
        if isVote v then { v with votePercent := o.votePercent, lastUpdate := now } else v }
  else
    let db := { db with
      committeeVotes := db.committeeVotes.create fun id =>
        ⟨id, request.requestId, o.voter, o.votePercent, now⟩ }
    return db.modifyRequest o.requestId fun r =>
      { r with votesCount := (r.votesCount + 1) % 2 ^ 32 }

/-! ## Invites -/

/-- `create_invite_evaluator::do_apply` -/
def createInvite (db : Db) (o : CreateInviteOperation) : Result Db := do
  let creator ← db.getAccount o.creator
  fcAssert (o.balance.amount ≤ creator.balance) "Insufficient balance to create invite."
  fcAssert (o.inviteKey ≠ 0) "Invite key cannot be blank."
  fcAssert (db.medianProps.createInviteMinBalance.amount ≤ o.balance.amount)
    "Invite balance must be more or equal consensus create_invite_min_balance."
  fcAssert (db.invites.get (·.inviteKey) o.inviteKey = none)
    "Invite with same key was found. Use another invite key."
  let db ← db.adjustBalance o.creator (-o.balance.amount)
  return { db with
    invites := db.invites.create fun id =>
      { id := id, creator := o.creator, inviteKey := o.inviteKey, balance := o.balance.amount
        createTime := db.headBlockTime, status := 0 } }

/-- The unclaimed invite that a secret opens. -/
def openInvite (fc : Fc) (db : Db) (secret : String) : Result InviteObject := do
  fcAssert (secret ≠ "") "Invite secret cannot be blank."
  let key ← getOrThrow (fc.wifToPublicKey secret) (.assertion "Invite secret must be WIF.")
  let invite ← getOrThrow (db.invites.get (·.inviteKey) key) (.assertion "Invite was not found.")
  fcAssert (invite.status = 0) "Invite already claimed."
  return invite

/-- The invite is empty from now on. -/
def closeInvite (db : Db) (invite : InviteObject) (status : Nat) (secret : String)
    (receiver : AccountName) : Db :=
  { db with
    invites := db.invites.update (·.inviteKey) invite.inviteKey fun i =>
      { i with
        status := status, inviteSecret := secret, receiver := receiver
        claimedBalance := i.balance, balance := 0, claimTime := db.headBlockTime } }

/-- `claim_invite_balance_evaluator::do_apply` -/
def claimInviteBalance (fc : Fc) (db : Db) (o : InviteBalanceOperation) : Result Db := do
  let _ ← db.getAccount o.initiator
  let _ ← db.getAccount o.receiver
  let invite ← openInvite fc db o.inviteSecret
  let db ← db.adjustBalance o.receiver invite.balance
  return db.closeInvite invite 1 o.inviteSecret o.receiver

/-- `use_invite_balance_evaluator::do_apply` -/
def useInviteBalance (fc : Fc) (db : Db) (o : InviteBalanceOperation) : Result Db := do
  let _ ← db.getAccount o.initiator
  let _ ← db.getAccount o.receiver
  let invite ← openInvite fc db o.inviteSecret
  let db ← db.createVesting o.receiver invite.balance
  return db.closeInvite invite 3 o.inviteSecret o.receiver

/-- `invite_registration_evaluator::do_apply` -/
def inviteRegistration (fc : Fc) (db : Db) (o : InviteRegistrationOperation) : Result Db := do
  let _ ← db.getAccount o.initiator
  let invite ← openInvite fc db o.inviteSecret
  let db ← db.registerAccount
    (fun id =>
      { id := id, name := o.newAccountName, memoKey := o.newAccountKey, created := db.headBlockTime
        recoveryAccount := invite.creator, referrer := invite.creator })
    o.newAccountName o.newAccountKey
  let db ← db.createVesting o.newAccountName invite.balance
  return db.closeInvite invite 2 o.inviteSecret o.newAccountName

/-! ## What the evaluators do to the ledger -/

variable {fc : Fc} {g : Prop} {db db' : Db}

/-- A change of the committee requests that keeps their amounts nonnegative. -/
theorem requests_flow (t : Table CommitteeRequestObject)
    (ok : g → db.ledger.Sound → t.All fun r => 0 ≤ r.requiredAmountMin ∧ 0 ≤ r.remainPayoutAmount) :
    Flow fc g 0 0 db { db with committeeRequests := t } :=
  .of_move (.terms db.ledger { db.terms with requests := t }
    (fun hg hL => { hL.terms with requests := ok hg hL }) fun hF => { hF with })

/-- A change of one request that keeps its amounts. -/
theorem modifyRequest_flow (requestId : Nat) (f : CommitteeRequestObject → CommitteeRequestObject)
    (hf : ∀ r, (f r).requiredAmountMin = r.requiredAmountMin ∧
      (f r).remainPayoutAmount = r.remainPayoutAmount) :
    Flow fc g 0 0 db (db.modifyRequest requestId f) := by
  refine requests_flow _ fun _ hL => Table.all_update hL.terms.requests fun r _ hr => ?_
  rw [(hf r).1, (hf r).2]
  exact hr

theorem committeeWorkerCreateRequest_flow {o : CommitteeWorkerCreateRequestOperation}
    (hv : o.validate = .ok ()) (h : db.committeeWorkerCreateRequest o = .ok db') :
    Flow fc db.Ready 0 0 db db' := by
  have hmin : 0 ≤ o.requiredAmountMin.amount := by
    simp only [CommitteeWorkerCreateRequestOperation.validate, bind_eq_ok, fcAssert_eq_ok] at hv
    obtain ⟨_, -, _, -, _, hmin, -⟩ := hv
    exact hmin
  simp only [committeeWorkerCreateRequest, getAccount, bind_eq_ok, getOrThrow_eq_ok,
    fcAssert_eq_ok] at h
  obtain ⟨creator, hcreator, _, -, _, hcover, _, -, _, -, db₁, hpay, hfund⟩ := h
  have hdebit : Flow fc db.Ready (-db.medianProps.committeeCreateRequestFee.amount) 0 _ db₁ :=
    adjustBalance_debit hpay hcreator hcover
  have hcredit : Flow fc db.Ready db.medianProps.committeeCreateRequestFee.amount 0 db₁ db' :=
    addCommitteeFund_flow hfund fun hF => (adjustBalance_fair hpay hF).terms.median.request
  have hpaid : Flow fc db.Ready 0 0 _ db' := (hdebit.trans hcredit).cast (by omega) rfl
  have hopen := @requests_flow fc db.Ready db
  refine ((hopen _ fun _ hL => ?_).trans (hpaid.after_same rfl)).cast (zero_add 0) (zero_add 0)
  exact Table.all_create hL.terms.requests ⟨hmin, le_rfl⟩

theorem committeeWorkerCancelRequest_flow {o : CommitteeWorkerCancelRequestOperation}
    (h : db.committeeWorkerCancelRequest o = .ok db') : Flow fc db.Ready 0 0 db db' := by
  simp only [committeeWorkerCancelRequest, bind_eq_ok, pure_eq_ok] at h
  obtain ⟨_, -, _, -, _, -, _, -, rfl⟩ := h
  exact modifyRequest_flow _ _ fun _ => ⟨rfl, rfl⟩

theorem committeeVoteRequest_flow {o : CommitteeVoteRequestOperation}
    (h : db.committeeVoteRequest o = .ok db') : Flow fc db.Ready 0 0 db db' := by
  simp only [committeeVoteRequest, bind_eq_ok] at h
  obtain ⟨_, -, request, -, _, -, h⟩ := h
  split at h
  · simp only [bind_eq_ok, pure_eq_ok] at h
    obtain ⟨_, -, rfl⟩ := h
    exact .of_ledger_eq rfl
  · rw [pure_eq_ok] at h
    subst h
    refine Flow.after_same (b := { db with committeeVotes := _ }) rfl ?_
    exact modifyRequest_flow _ _ fun _ => ⟨rfl, rfl⟩

theorem adjustBalance_invites {name : AccountName} {x : Int}
    (h : db.adjustBalance name x = .ok db') : db'.invites = db.invites := by
  simp only [adjustBalance, bind_eq_ok, pure_eq_ok] at h
  obtain ⟨_, -, _, -, rfl⟩ := h
  rfl

theorem createInvite_flow {o : CreateInviteOperation}
    (hv : (Operation.createInvite o).validate fc = .ok ()) (h : db.createInvite o = .ok db') :
    Flow fc db.Ready 0 0 db db' := by
  have hbalance : 0 < o.balance.amount := by
    simp only [Operation.validate, validatePrice, bind_eq_ok, fcAssert_eq_ok] at hv
    obtain ⟨_, -, _, -, hbalance⟩ := hv
    exact hbalance
  simp only [createInvite, getAccount, bind_eq_ok, getOrThrow_eq_ok, fcAssert_eq_ok,
    pure_eq_ok] at h
  obtain ⟨creator, hcreator, _, hcover, _, -, _, -, _, -, db₁, hpay, rfl⟩ := h
  have hdebit : Flow fc db.Ready (-o.balance.amount) 0 db db₁ :=
    adjustBalance_debit hpay hcreator hcover
  refine Flow.cast (hdebit.trans (.of_move (.invites db₁.ledger _ o.balance.amount ?_
    (fun hs => ?_) fun _ hL => ?_))) (by omega) rfl
  · exact Table.sum_create _ _ _
  · exact Table.all_create hs.invites fun hstatus => absurd rfl hstatus
  · exact Table.all_create hL.invites hbalance.le

theorem openInvite_eq {secret : String} {invite : InviteObject}
    (h : openInvite fc db secret = .ok invite) :
    db.invites.get (·.inviteKey) invite.inviteKey = some invite := by
  simp only [openInvite, bind_eq_ok, getOrThrow_eq_ok, pure_eq_ok] at h
  obtain ⟨_, -, key, -, i, hi, _, -, rfl⟩ := h
  have hkey : i.inviteKey = key := Table.get_key hi
  rw [hkey]
  exact hi

/-- Closing an invite takes its tokens out. -/
theorem closeInvite_flow {invite : InviteObject} {status : Nat} {secret : String}
    {receiver : AccountName}
    (hget : db.invites.get (·.inviteKey) invite.inviteKey = some invite) :
    Flow fc g (-invite.balance) 0 db (db.closeInvite invite status secret receiver) := by
  refine .of_move (.invites db.ledger _ _ ?_ (fun hs => ?_) fun _ hL => ?_)
  · have hsum := Table.sum_update db.invites (·.inviteKey) invite.inviteKey (fun i =>
      { i with
        status := status, inviteSecret := secret, receiver := receiver
        claimedBalance := i.balance, balance := 0, claimTime := db.headBlockTime }) (·.balance) hget
    rw [zero_sub] at hsum
    exact hsum
  · exact Table.all_update hs.invites fun _ _ _ _ => rfl
  · exact Table.all_update hL.invites fun _ _ _ => le_rfl

theorem claimInviteBalance_flow {o : InviteBalanceOperation}
    (h : claimInviteBalance fc db o = .ok db') : Flow fc db.Ready 0 0 db db' := by
  simp only [claimInviteBalance, bind_eq_ok, pure_eq_ok] at h
  obtain ⟨_, -, _, -, invite, hinvite, db₁, hpay, rfl⟩ := h
  have hget := openInvite_eq hinvite
  have hcredit : Flow fc db.Ready invite.balance 0 db db₁ :=
    adjustBalance_credit hpay fun hg _ => hg.sound.invites invite (Table.get_mem hget)
  have hget₁ : db₁.invites.get (·.inviteKey) invite.inviteKey = some invite :=
    adjustBalance_invites hpay ▸ hget
  exact (hcredit.trans (closeInvite_flow hget₁)).cast (by omega) rfl

theorem createVesting_invites {name : AccountName} {t : Int}
    (h : db.createVesting name t = .ok db') : db'.invites = db.invites := by
  obtain ⟨_, _, -, -, -, hvotes⟩ := createVesting_eq h
  have hinvites := congrArg Db.invites hvotes.1
  exact hinvites

/-- The tokens of an invite may be vested. -/
theorem Ready.invite_le {invite : InviteObject} (hg : db.Ready)
    (hget : db.invites.get (·.inviteKey) invite.inviteKey = some invite) :
    0 ≤ invite.balance ∧ invite.balance ≤ maxVest := by
  have hmem := Table.get_mem hget
  exact ⟨hg.sound.invites invite hmem, (hg.sound.invite_le_holdings hmem).trans hg.small⟩

theorem useInviteBalance_flow {o : InviteBalanceOperation}
    (h : useInviteBalance fc db o = .ok db') : Flow fc db.Ready 0 0 db db' := by
  simp only [useInviteBalance, bind_eq_ok, pure_eq_ok] at h
  obtain ⟨_, -, _, -, invite, hinvite, db₁, hvest, rfl⟩ := h
  have hget := openInvite_eq hinvite
  have hin : Flow fc db.Ready invite.balance 0 db db₁ :=
    createVesting_flow hvest fun hg _ => hg.invite_le hget
  have hget₁ : db₁.invites.get (·.inviteKey) invite.inviteKey = some invite :=
    createVesting_invites hvest ▸ hget
  exact (hin.trans (closeInvite_flow hget₁)).cast (by omega) rfl

theorem registerAccount_invites {mk : Nat → AccountObject} {name : AccountName} {key : PublicKey}
    (h : db.registerAccount mk name key = .ok db') : db'.invites = db.invites := by
  simp only [registerAccount, createAccount, bind_eq_ok, pure_eq_ok] at h
  obtain ⟨_, ⟨_, -, rfl⟩, rfl⟩ := h
  rfl

theorem inviteRegistration_flow {o : InviteRegistrationOperation}
    (h : inviteRegistration fc db o = .ok db') : Flow fc db.Ready 0 0 db db' := by
  simp only [inviteRegistration, bind_eq_ok, pure_eq_ok] at h
  obtain ⟨_, -, invite, hinvite, db₁, hregister, db₂, hvest, rfl⟩ := h
  have hget := openInvite_eq hinvite
  have hopen : Flow fc db.Ready 0 0 db db₁ := registerAccount_flow hregister fun _ => rfl
  have hin : Flow fc db.Ready invite.balance 0 db₁ db₂ :=
    createVesting_flow hvest fun hg _ => hg.invite_le hget
  have hget₂ : db₂.invites.get (·.inviteKey) invite.inviteKey = some invite :=
    createVesting_invites hvest ▸ registerAccount_invites hregister ▸ hget
  exact ((hopen.trans hin).trans (closeInvite_flow hget₂)).cast (by omega) rfl

end Db

end VizCore.Chain
