import VizCore.Chain.Flow

/-!
# Transfers, escrows and vesting

Evaluators that move tokens between accounts, lock them in escrows, vest them, and
set up withdrawals.

* `escrowTransfer_flow`, `escrowApprove_flow`, `escrowRelease_flow`: an escrow holds
  what was locked in it until it is paid out;
* `transfer_flow`: a transfer to `anonymous` with a memo vests the amount for the
  account it creates;
* `setWithdrawVestingRoute_flow`: the routes of an account never exceed 100%.
-/

namespace VizCore.Chain

open VizCore.Lib VizCore.Protocol

/-- The index `by_from_id`. -/
def EscrowObject.key (e : EscrowObject) : AccountName × Nat := (e.fromAccount, e.escrowId)

/-- `std::stoi`: leading blanks, a sign, and the longest run of digits. -/
def stoi (s : String) : Result Int := do
  let s := s.toList.dropWhile fun c => c = ' ' || ('\t' ≤ c && c ≤ '\r')
  let digits := (if s.head? = some '-' || s.head? = some '+' then s.tail else s).takeWhile isDigit
  require (digits ≠ []) (Exception.assertion "stoi")
  let n : Int := digits.foldl (fun n c => 10 * n + (c.toNat - '0'.toNat : Nat)) 0
  let n := if s.head? = some '-' then -n else n
  require (-2 ^ 31 ≤ n ∧ n < 2 ^ 31) (Exception.assertion "stoi")
  return n

namespace Db

/-! ## Escrows -/

def getEscrow (db : Db) (fromAccount : AccountName) (escrowId : Nat) : Result EscrowObject :=
  getOrThrow (db.escrows.get (·.key) (fromAccount, escrowId)) (.unknownKey "escrow by_from_id")

/-- `escrow_transfer_evaluator::do_apply` -/
def escrowTransfer (db : Db) (o : EscrowTransferOperation) : Result Db := do
  let sender ← db.getAccount o.fromAccount
  let _ ← db.getAccount o.toAccount
  let _ ← db.getAccount o.agent
  fcAssert (db.headBlockTime < o.ratificationDeadline)
    "The escorw ratification deadline must be after head block time."
  fcAssert (db.headBlockTime < o.escrowExpiration)
    "The escrow expiration must be after head block time."
  let spent ← safeAdd o.tokenAmount.amount o.fee.amount
  fcAssert (spent ≤ sender.balance)
    "Account cannot cover token costs of escrow. Required: $\x7br\x7d Available: $\x7ba\x7d"
  let db ← db.adjustBalance o.fromAccount (-spent)
  require ((db.escrows.get (·.key) (o.fromAccount, o.escrowId)).isNone)
    (Exception.duplicateKey "escrow by_from_id")
  return { db with
    escrows := db.escrows.create fun id =>
      { id := id, escrowId := o.escrowId, fromAccount := o.fromAccount, toAccount := o.toAccount
        agent := o.agent, ratificationDeadline := o.ratificationDeadline
        escrowExpiration := o.escrowExpiration, tokenBalance := o.tokenAmount.amount
        pendingFee := o.fee.amount } }

/-- The escrow with the approval of `who` added. -/
def withApproval (o : EscrowApproveOperation) (e : EscrowObject) : EscrowObject :=
  { e with
    toApproved := e.toApproved || o.who = o.toAccount
    agentApproved := e.agentApproved || o.who = o.agent }

/-- `escrow_approve_evaluator::do_apply` -/
def escrowApprove (db : Db) (o : EscrowApproveOperation) : Result Db := do
  let e ← db.getEscrow o.fromAccount o.escrowId
  fcAssert (e.toAccount = o.toAccount)
    "Operation 'to' ($\x7bo\x7d) does not match escrow 'to' ($\x7be\x7d)."
  fcAssert (e.agent = o.agent)
    "Operation 'agent' ($\x7ba\x7d) does not match escrow 'agent' ($\x7be\x7d)."
  fcAssert (db.headBlockTime ≤ e.ratificationDeadline)
    "The escrow ratification deadline has passed. Escrow can no longer be ratified."
  fcAssert (o.who = o.toAccount → e.toApproved = false)
    "Account 'to' ($\x7bt\x7d) has already approved the escrow."
  fcAssert (o.who = o.agent → e.agentApproved = false)
    "Account 'agent' ($\x7ba\x7d) has already approved the escrow."
  if o.approve then
    if (withApproval o e).isApproved then
      let db ← db.adjustBalance o.agent e.pendingFee
      return { db with
        escrows := db.escrows.update (·.key) e.key fun _ =>
          { withApproval o e with pendingFee := 0 } }
    else
      return { db with escrows := db.escrows.update (·.key) e.key fun _ => withApproval o e }
  else
    let db ← db.adjustBalance o.fromAccount e.tokenBalance
    let db ← db.adjustBalance o.fromAccount e.pendingFee
    return { db with escrows := db.escrows.erase (·.key) e.key }

/-- `escrow_dispute_evaluator::do_apply` -/
def escrowDispute (db : Db) (o : EscrowDisputeOperation) : Result Db := do
  let _ ← db.getAccount o.fromAccount
  let e ← db.getEscrow o.fromAccount o.escrowId
  fcAssert (db.headBlockTime < e.escrowExpiration)
    "Disputing the escrow must happen before expiration."
  fcAssert (e.isApproved = true)
    "The escrow must be approved by all parties before a dispute can be raised."
  fcAssert (e.disputed = false) "The escrow is already under dispute."
  fcAssert (e.toAccount = o.toAccount)
    "Operation 'to' ($\x7bo\x7d) does not match escrow 'to' ($\x7be\x7d)."
  fcAssert (e.agent = o.agent)
    "Operation 'agent' ($\x7ba\x7d) does not match escrow 'agent' ($\x7be\x7d)."
  return { db with
    escrows := db.escrows.update (·.key) e.key fun e => { e with disputed := true } }

/-- Who may release how much of an escrow to whom. -/
def checkRelease (now : TimePointSec) (o : EscrowReleaseOperation) (e : EscrowObject) :
    Result Unit := do
  fcAssert (o.tokenAmount.amount ≤ e.tokenBalance)
    "Release amount exceeds escrow balance. Amount: $\x7ba\x7d, Balance: $\x7bb\x7d"
  fcAssert (e.toAccount = o.toAccount)
    "Operation 'to' ($\x7bo\x7d) does not match escrow 'to' ($\x7be\x7d)."
  fcAssert (e.agent = o.agent)
    "Operation 'agent' ($\x7ba\x7d) does not match escrow 'agent' ($\x7be\x7d)."
  fcAssert (o.receiver = e.fromAccount ∨ o.receiver = e.toAccount)
    "Funds must be released to 'from' ($\x7bf\x7d) or 'to' ($\x7bt\x7d)"
  fcAssert (e.isApproved = true) "Funds cannot be released prior to escrow approval."
  if e.disputed then
    fcAssert (o.who = e.agent) "Only 'agent' ($\x7ba\x7d) can release funds in a disputed escrow."
  else
    fcAssert (o.who = e.fromAccount ∨ o.who = e.toAccount)
      "Only 'from' ($\x7bf\x7d) and 'to' ($\x7bt\x7d) can release funds from a non-disputed escrow"
    -- before it expires either party can only release funds to the other
    fcAssert (now < e.escrowExpiration → o.who = e.fromAccount → o.receiver = e.toAccount)
      "Only 'from' ($\x7bf\x7d) can release funds to 'to' ($\x7bt\x7d)."
    fcAssert (now < e.escrowExpiration → o.who ≠ e.fromAccount → o.receiver = e.fromAccount)
      "Only 'to' ($\x7bt\x7d) can release funds to 'from' ($\x7bt\x7d)."

/-- `escrow_release_evaluator::do_apply` -/
def escrowRelease (db : Db) (o : EscrowReleaseOperation) : Result Db := do
  let _ ← db.getAccount o.fromAccount
  let _ ← db.getAccount o.receiver
  let e ← db.getEscrow o.fromAccount o.escrowId
  checkRelease db.headBlockTime o e
  let db ← db.adjustBalance o.receiver o.tokenAmount.amount
  let rest ← safeSub e.tokenBalance o.tokenAmount.amount
  if rest = 0 then
    return { db with escrows := db.escrows.erase (·.key) e.key }
  else
    return { db with
      escrows := db.escrows.update (·.key) e.key fun e => { e with tokenBalance := rest } }

/-! ## Transfers -/

/-- The name and the key of the account that a memo to `anonymous` asks for: `login:key`, or
a key alone for the next numbered name. -/
def anonymousAccount (fc : Fc) (db : Db) (memo : String) :
    Result (AccountName × PublicKey × Db) :=
  match splitAtFirst ':' (fc.trim memo) with
  | some (login, key) => do
    fcAssert ((db.findAccount login).isNone) "Account login must be free."
    fcAssert (isValidDomainName login "anonymous")
      "Domain name $\x7bn\x7d is invalid, creator name $\x7bc\x7d"
    fcAssert (isValidAccountName login) "Account name $\x7bn\x7d is invalid"
    let key ← getOrThrow (fc.parsePublicKey key) (.assertion "public_key_type")
    return (login, key, db)
  | none => do
    let key ← getOrThrow (fc.parsePublicKey memo) (.assertion "public_key_type")
    let record ← getOrThrow (db.accountMetadata.get (·.account) "anonymous")
      (.unknownKey "account_metadata by_account")
    let num ← stoi record.jsonMetadata
    let next := toString (num + 1)
    return ("n" ++ next ++ ".anonymous", key, db.storeAccountJsonMetadata "anonymous" next)

/-- A transfer to `anonymous` with a memo pays for a new account. -/
def createAnonymous (fc : Fc) (db : Db) (amount : Int) (memo : String) : Result Db := do
  fcAssert (db.medianProps.accountCreationFee.amount ≤ amount)
    "Inssufficient amount $\x7bf\x7d required, $\x7bp\x7d provided."
  if memo = "" then return db
  else
    let (name, key, db) ← anonymousAccount fc db memo
    let now := db.headBlockTime
    let db ← db.registerAccount
      (fun id => { id := id, name := name, memoKey := key, created := now, lastVoteTime := now })
      name key
    let db ← db.adjustBalance "anonymous" (-amount)
    db.createVesting name amount

/-- `transfer_evaluator::do_apply` -/
def transfer (fc : Fc) (db : Db) (o : TransferOperation) : Result Db := do
  let sender ← db.getAccount o.fromAccount
  let _ ← db.getAccount o.toAccount
  let amount ← o.amount.amountOf tokenSymbol
  fcAssert (amount ≤ sender.balance) "Account does not have sufficient funds for transfer."
  let db ← db.adjustBalance o.fromAccount (-amount)
  let db ← db.adjustBalance o.toAccount amount
  if o.toAccount = "anonymous" then db.createAnonymous fc amount o.memo else return db

/-! ## Vesting -/

/-- `transfer_to_vesting_evaluator::do_apply` -/
def transferToVesting (db : Db) (o : TransferToVestingOperation) : Result Db := do
  let sender ← db.getAccount o.fromAccount
  let receiver := if o.toAccount = "" then o.fromAccount else o.toAccount
  let _ ← db.getAccount receiver
  fcAssert (o.amount.amount ≤ sender.balance)
    "Account does not have sufficient TOKEN for transfer."
  let db ← db.adjustBalance o.fromAccount (-o.amount.amount)
  db.createVesting receiver o.amount.amount

/-- `withdraw_vesting_evaluator::do_apply` -/
def withdrawVesting (db : Db) (o : WithdrawVestingOperation) : Result Db := do
  let account ← db.getAccount o.account
  fcAssert (0 ≤ account.vestingShares) "Account does not have sufficient SHARES for withdraw."
  let available ← account.availableVestingShares false
  fcAssert (o.vestingShares.amount ≤ available)
    "Account does not have sufficient SHARES for withdraw."
  fcAssert (0 ≤ o.vestingShares.amount) "Cannot withdraw negative SHARES."
  if o.vestingShares.amount = 0 then
    fcAssert (account.vestingWithdrawRate ≠ 0)
      "This operation would not change the vesting withdraw rate."
    return db.modifyAccount o.account fun a =>
      { a with
        vestingWithdrawRate := 0, nextVestingWithdrawal := timeMaximum
        toWithdraw := 0, withdrawn := 0 }
  else
    let share ← safeDiv available db.medianProps.withdrawIntervals
    let rate := if share = 0 then 1 else share
    fcAssert (account.vestingWithdrawRate ≠ rate)
      "This operation would not change the vesting withdraw rate."
    return db.modifyAccount o.account fun a =>
      { a with
        vestingWithdrawRate := rate
        nextVestingWithdrawal := db.headBlockTime + 60 * 60 * 24
        toWithdraw := o.vestingShares.amount, withdrawn := 0 }

/-- The index `by_withdraw_route`. -/
def routeKey (r : WithdrawVestingRouteObject) : Nat × Nat := (r.fromAccount, r.toAccount)

def changeRouteCount (db : Db) (name : AccountName) (f : Nat → Nat) : Db :=
  db.modifyAccount name fun a => { a with withdrawRoutes := f a.withdrawRoutes }

/-- The change of the routes before their sum is checked. -/
def storeRoute (db : Db) (o : SetWithdrawVestingRouteOperation) (sender receiver : AccountObject) :
    Result Db :=
  match db.withdrawVestingRoutes.get routeKey (sender.id, receiver.id) with
  | none => do
    fcAssert (o.percent ≠ 0) "Cannot create a 0% destination."
    fcAssert (sender.withdrawRoutes < 10) "Account already has the maximum number of routes."
    let db := { db with
      withdrawVestingRoutes := db.withdrawVestingRoutes.create fun id =>
        ⟨id, sender.id, receiver.id, o.percent, o.autoVest⟩ }
    return db.changeRouteCount o.fromAccount fun n => (n + 1) % 2 ^ 16
  | some _ =>
    if o.percent = 0 then
      let db := { db with
        withdrawVestingRoutes := db.withdrawVestingRoutes.erase routeKey (sender.id, receiver.id) }
      return db.changeRouteCount o.fromAccount fun n => (n + 2 ^ 16 - 1) % 2 ^ 16
    else
      return { db with
        withdrawVestingRoutes :=
          db.withdrawVestingRoutes.update routeKey (sender.id, receiver.id) fun r =>
            { r with percent := o.percent, autoVest := o.autoVest } }

/-- `set_withdraw_vesting_route_evaluator::do_apply` -/
def setWithdrawVestingRoute (db : Db) (o : SetWithdrawVestingRouteOperation) : Result Db := do
  let sender ← db.getAccount o.fromAccount
  let receiver ← db.getAccount o.toAccount
  let db ← db.storeRoute o sender receiver
  -- the sum starts behind (from, 0)
  let total := db.terms.routesPercent sender.id % 2 ^ 16
  fcAssert (total ≤ 10000)
    "More than 100% of vesting withdrawals allocated to destinations."
  return db

/-! ## What the evaluators do to the ledger -/

variable {fc : Fc} {g : Prop} {db db' : Db}

theorem adjustBalance_escrows {name : AccountName} {x : Int}
    (h : db.adjustBalance name x = .ok db') : db'.escrows = db.escrows := by
  simp only [adjustBalance, bind_eq_ok, pure_eq_ok] at h
  obtain ⟨_, -, _, -, rfl⟩ := h
  rfl

theorem escrowTransfer_flow {o : EscrowTransferOperation} (hv : o.validate fc = .ok ())
    (h : db.escrowTransfer o = .ok db') : Flow fc db.Ready 0 0 db db' := by
  simp only [EscrowTransferOperation.validate, bind_eq_ok, fcAssert_eq_ok] at hv
  obtain ⟨_, -, _, -, _, -, _, hfee, _, hamount, -⟩ := hv
  simp only [escrowTransfer, getAccount, bind_eq_ok, getOrThrow_eq_ok, fcAssert_eq_ok,
    safeAdd_eq_ok, pure_eq_ok] at h
  obtain ⟨sender, hsender, _, -, _, -, _, -, _, -, _, ⟨-, rfl⟩, _, hcover, db₁, hpay, _, -, rfl⟩ :=
    h
  have hdebit : Flow fc db.Ready (-(o.tokenAmount.amount + o.fee.amount)) 0 db db₁ :=
    adjustBalance_debit hpay hsender hcover
  refine Flow.cast (hdebit.trans (.of_move (.escrows db₁.ledger _
    (o.tokenAmount.amount + o.fee.amount) ?_ (fun hs => ?_) fun _ hL => ?_))) (by omega) rfl
  · exact Table.sum_create _ _ _
  · exact Table.all_create hs.escrows fun happroved => by simp [EscrowObject.isApproved] at happroved
  · exact Table.all_create hL.escrows ⟨hamount, hfee⟩

theorem getEscrow_eq {fromAccount : AccountName} {escrowId : Nat} {e : EscrowObject}
    (h : db.getEscrow fromAccount escrowId = .ok e) : db.escrows.get (·.key) e.key = some e := by
  rw [getEscrow, getOrThrow_eq_ok] at h
  have hkey : e.key = (fromAccount, escrowId) := Table.get_key h
  rw [hkey]
  exact h

/-- Replacing an escrow changes the ledger by what the new one holds more. -/
theorem updateEscrow_flow {e e' : EscrowObject} (he : db.escrows.get (·.key) e.key = some e)
    (f : EscrowObject → EscrowObject) (hf : f e = e')
    (settled : (e.isApproved = true → e.pendingFee = 0) → e'.isApproved = true → e'.pendingFee = 0)
    (ok : g → db.ledger.Sound → 0 ≤ e'.tokenBalance ∧ 0 ≤ e'.pendingFee) :
    Flow fc g (e'.tokenBalance + e'.pendingFee - (e.tokenBalance + e.pendingFee)) 0 db
      { db with escrows := db.escrows.update (·.key) e.key f } := by
  refine .of_move (.escrows db.ledger _ _ ?_ (fun hs => ?_) fun hg hL => ?_)
  · have hsum := Table.sum_update db.escrows (·.key) e.key f
      (fun e => e.tokenBalance + e.pendingFee) he
    rw [hf] at hsum
    exact hsum
  · refine Table.all_update hs.escrows fun x hx hold => ?_
    rw [show db.escrows.get (·.key) e.key = some x from hx] at he
    cases he
    rw [hf]
    exact settled hold
  · refine Table.all_update hL.escrows fun x hx _ => ?_
    rw [show db.escrows.get (·.key) e.key = some x from hx] at he
    cases he
    rw [hf]
    exact ok hg hL

theorem eraseEscrow_flow {e : EscrowObject} (he : db.escrows.get (·.key) e.key = some e) :
    Flow fc g (-(e.tokenBalance + e.pendingFee)) 0 db
      { db with escrows := db.escrows.erase (·.key) e.key } := by
  refine .of_move (.escrows db.ledger _ _ ?_ (fun hs => ?_) fun _ hL => ?_)
  · have hsum := Table.sum_erase db.escrows (·.key) e.key
      (fun e => e.tokenBalance + e.pendingFee) he
    exact hsum.trans (sub_eq_add_neg _ _)
  · exact Table.all_erase hs.escrows
  · exact Table.all_erase hL.escrows

theorem escrowApprove_flow {o : EscrowApproveOperation} (h : db.escrowApprove o = .ok db') :
    Flow fc db.Ready 0 0 db db' := by
  simp only [escrowApprove, bind_eq_ok] at h
  obtain ⟨e, he, _, -, _, -, _, -, _, -, _, -, h⟩ := h
  have hget := getEscrow_eq he
  have hpos (hg : db.Ready) : 0 ≤ e.tokenBalance ∧ 0 ≤ e.pendingFee :=
    hg.sound.escrows e (Table.get_mem hget)
  split at h
  · split at h
    · simp only [bind_eq_ok, pure_eq_ok] at h
      obtain ⟨db₁, hpay, rfl⟩ := h
      have hget₁ : db₁.escrows.get (·.key) e.key = some e := adjustBalance_escrows hpay ▸ hget
      have hfee : Flow fc db.Ready e.pendingFee 0 db db₁ :=
        adjustBalance_credit hpay fun hg _ => (hpos hg).2
      have hclear : Flow fc db.Ready _ 0 db₁ _ :=
        updateEscrow_flow hget₁ (fun _ => { withApproval o e with pendingFee := 0 }) rfl
          (fun _ _ => rfl) fun hg _ => ⟨(hpos hg).1, le_rfl⟩
      exact (hfee.trans hclear).cast (by simp [withApproval]) rfl
    · rename_i hopen
      rw [pure_eq_ok] at h
      subst h
      have hflow : Flow fc db.Ready _ 0 db _ :=
        updateEscrow_flow hget (fun _ => withApproval o e) rfl (fun _ happ => absurd happ hopen)
          fun hg _ => hpos hg
      exact hflow.cast (by simp [withApproval]) rfl
  · simp only [bind_eq_ok, pure_eq_ok] at h
    obtain ⟨db₁, hpay₁, db₂, hpay₂, rfl⟩ := h
    have hget₂ : db₂.escrows.get (·.key) e.key = some e :=
      adjustBalance_escrows hpay₂ ▸ adjustBalance_escrows hpay₁ ▸ hget
    have hback : Flow fc db.Ready e.tokenBalance 0 db db₁ :=
      adjustBalance_credit hpay₁ fun hg _ => (hpos hg).1
    have hfee : Flow fc db.Ready e.pendingFee 0 db₁ db₂ :=
      adjustBalance_credit hpay₂ fun hg _ => (hpos hg).2
    exact ((hback.trans hfee).trans (eraseEscrow_flow hget₂)).cast (by omega) rfl

theorem escrowDispute_flow {o : EscrowDisputeOperation} (h : db.escrowDispute o = .ok db') :
    Flow fc db.Ready 0 0 db db' := by
  simp only [escrowDispute, bind_eq_ok, pure_eq_ok] at h
  obtain ⟨_, -, e, he, _, -, _, -, _, -, _, -, _, -, rfl⟩ := h
  have hget := getEscrow_eq he
  have hflow : Flow fc db.Ready _ 0 db _ :=
    updateEscrow_flow hget (fun e => { e with disputed := true }) rfl (fun hold => hold)
      fun hg _ => hg.sound.escrows e (Table.get_mem hget)
  exact hflow.cast (by simp) rfl

theorem escrowRelease_amount_nonneg {o : EscrowReleaseOperation} (hv : o.validate = .ok ()) :
    0 ≤ o.tokenAmount.amount := by
  simp only [EscrowReleaseOperation.validate, bind_eq_ok, fcAssert_eq_ok] at hv
  obtain ⟨_, -, _, -, _, -, _, hamount, -⟩ := hv
  exact hamount

/-- The fee of a released escrow has been paid, so the balance is all that leaves. -/
theorem escrowRelease_flow {o : EscrowReleaseOperation} (hv : o.validate = .ok ())
    (hs : db.ledger.Settled fc) (h : db.escrowRelease o = .ok db') :
    Flow fc db.Ready 0 0 db db' := by
  have hamount := escrowRelease_amount_nonneg hv
  simp only [escrowRelease, bind_eq_ok, safeSub_eq_ok] at h
  obtain ⟨_, -, _, -, e, he, _, hcheck, db₁, hpay, _, ⟨-, rfl⟩, h⟩ := h
  have hget := getEscrow_eq he
  have hchecked : o.tokenAmount.amount ≤ e.tokenBalance ∧ e.isApproved = true := by
    simp only [checkRelease, bind_eq_ok, fcAssert_eq_ok] at hcheck
    obtain ⟨_, hle, _, -, _, -, _, -, _, happroved, -⟩ := hcheck
    exact ⟨hle, happroved⟩
  have hfee : e.pendingFee = 0 := hs.escrows e (Table.get_mem hget) hchecked.2
  have hget₁ : db₁.escrows.get (·.key) e.key = some e := adjustBalance_escrows hpay ▸ hget
  have hcredit : Flow fc db.Ready o.tokenAmount.amount 0 db db₁ :=
    adjustBalance_credit hpay fun _ _ => hamount
  split at h
  · rename_i hrest
    rw [pure_eq_ok] at h
    subst h
    exact (hcredit.trans (eraseEscrow_flow hget₁)).cast (by omega) rfl
  · rw [pure_eq_ok] at h
    subst h
    have hflow : Flow fc db.Ready _ 0 db₁ _ :=
      updateEscrow_flow hget₁
        (fun x => { x with tokenBalance := e.tokenBalance - o.tokenAmount.amount }) rfl
        (fun hold => hold) fun _ _ => ⟨by simp only; omega, by simp only; omega⟩
    exact (hcredit.trans hflow).cast (by simp only; omega) rfl

/-- Reading the memo changes the counter of the numbered names only. -/
theorem anonymousAccount_accounts {memo : String} {name : AccountName} {key : PublicKey}
    (h : anonymousAccount fc db memo = .ok (name, key, db')) :
    db'.accounts = db.accounts ∧ db'.ledger = db.ledger := by
  unfold anonymousAccount at h
  split at h
  · simp only [bind_eq_ok, pure_eq_ok, Prod.mk.injEq] at h
    obtain ⟨_, -, _, -, _, -, _, -, -, -, rfl⟩ := h
    exact ⟨rfl, rfl⟩
  · simp only [bind_eq_ok, pure_eq_ok, Prod.mk.injEq] at h
    obtain ⟨_, -, _, -, _, -, -, -, rfl⟩ := h
    unfold storeAccountJsonMetadata
    split
    · exact ⟨rfl, rfl⟩
    · split <;> exact ⟨rfl, rfl⟩

theorem createAnonymous_flow {amount : Int} {memo : String} {a : AccountObject}
    (ha : db.findAccount "anonymous" = some a) (hcover : g → amount ≤ a.balance)
    (ok : g → 0 ≤ amount ∧ amount ≤ maxVest) (h : createAnonymous fc db amount memo = .ok db') :
    Flow fc g 0 0 db db' := by
  simp only [createAnonymous, bind_eq_ok] at h
  obtain ⟨_, -, h⟩ := h
  split at h
  · rw [pure_eq_ok] at h
    rw [← h]
    exact .refl db
  · simp only [bind_eq_ok] at h
    obtain ⟨⟨name, key, db₁⟩, hname, db₂, hregister, db₃, hpay, hvest⟩ := h
    obtain ⟨haccounts, hledger⟩ := anonymousAccount_accounts hname
    have ha₁ : db₁.findAccount "anonymous" = some a := by
      rw [findAccount, haccounts]
      exact ha
    have hopen : Flow fc g 0 0 db db₂ :=
      (registerAccount_flow hregister fun _ => rfl).after_same hledger
    have hdebit : Flow fc g (-amount) 0 db₂ db₃ := by
      refine adjustBalance_flow hpay fun hg _ b hb => ?_
      rw [registerAccount_find ha₁ hregister] at hb
      cases hb
      have := hcover hg
      omega
    have hin : Flow fc g amount 0 db₃ db' := createVesting_flow hvest fun hg _ => ok hg
    exact ((hopen.trans hdebit).trans hin).cast (by omega) rfl

theorem transfer_amount_pos {o : TransferOperation} (hv : o.validate fc = .ok ()) :
    0 < o.amount.amount := by
  simp only [TransferOperation.validate, bind_eq_ok, fcAssert_eq_ok] at hv
  obtain ⟨_, -, _, -, _, -, _, hamount, -⟩ := hv
  exact hamount

theorem transfer_flow {o : TransferOperation} (hv : o.validate fc = .ok ())
    (h : transfer fc db o = .ok db') : Flow fc db.Ready 0 0 db db' := by
  have hamount := transfer_amount_pos hv
  simp only [transfer, getAccount, bind_eq_ok, getOrThrow_eq_ok, Asset.amountOf_eq_ok,
    fcAssert_eq_ok] at h
  obtain ⟨sender, hsender, _, -, _, ⟨-, rfl⟩, _, hcover, db₁, hpay, db₂, hcredit, h⟩ := h
  have hdebit : Flow fc db.Ready (-o.amount.amount) 0 db db₁ :=
    adjustBalance_debit hpay hsender hcover
  have hmoved : Flow fc db.Ready o.amount.amount 0 db₁ db₂ :=
    adjustBalance_credit hcredit fun _ _ => hamount.le
  have htransfer : Flow fc db.Ready 0 0 db db₂ := (hdebit.trans hmoved).cast (by omega) rfl
  split at h
  · rename_i hto
    rw [hto] at hcredit
    obtain ⟨a, ha, ha₂⟩ := adjustBalance_find hcredit
    refine htransfer.then_neutral (createAnonymous_flow ha₂ (fun hg => ?_) (fun hg => ?_) h)
    · -- the account holds at least what it has just been paid
      have hpos := (hdebit.sound hg hg.sound).purses a.purse
        (Table.get_mem (ledger_find_of_found ha))
      have hbal : 0 ≤ a.balance := hpos.1
      show o.amount.amount ≤ a.balance + o.amount.amount
      omega
    · exact ⟨hamount.le, hcover.trans (hg.balance_le hsender)⟩
  · rw [pure_eq_ok] at h
    rw [← h]
    exact htransfer

theorem transferToVesting_amount_pos {o : TransferToVestingOperation} (hv : o.validate = .ok ()) :
    0 < o.amount.amount := by
  simp only [TransferToVestingOperation.validate, bind_eq_ok] at hv
  obtain ⟨_, -, _, -, hv⟩ := hv
  split at hv
  · simp only [bind_eq_ok] at hv
    obtain ⟨_, -, hv⟩ := hv
    simpa using hv
  · simpa using hv

theorem transferToVesting_flow {o : TransferToVestingOperation} (hv : o.validate = .ok ())
    (h : db.transferToVesting o = .ok db') : Flow fc db.Ready 0 0 db db' := by
  have hamount := transferToVesting_amount_pos hv
  simp only [transferToVesting, getAccount, bind_eq_ok, getOrThrow_eq_ok, fcAssert_eq_ok] at h
  obtain ⟨sender, hsender, _, -, _, hcover, db₁, hpay, hvest⟩ := h
  have hdebit : Flow fc db.Ready (-o.amount.amount) 0 db db₁ :=
    adjustBalance_debit hpay hsender hcover
  have hin : Flow fc db.Ready o.amount.amount 0 db₁ db' :=
    createVesting_flow hvest fun hg _ => ⟨hamount.le, hcover.trans (hg.balance_le hsender)⟩
  exact (hdebit.trans hin).cast (by omega) rfl

theorem withdrawVesting_ledger {o : WithdrawVestingOperation}
    (h : db.withdrawVesting o = .ok db') : db'.ledger = db.ledger := by
  simp only [withdrawVesting, bind_eq_ok] at h
  obtain ⟨_, -, _, -, _, -, _, -, _, -, h⟩ := h
  split at h
  · simp only [bind_eq_ok, pure_eq_ok] at h
    obtain ⟨_, -, rfl⟩ := h
    exact ledger_modifyAccount_of_same db o.account _ fun _ => rfl
  · simp only [bind_eq_ok, pure_eq_ok] at h
    obtain ⟨_, -, _, -, rfl⟩ := h
    exact ledger_modifyAccount_of_same db o.account _ fun _ => rfl

theorem changeRouteCount_ledger (db : Db) (name : AccountName) (f : Nat → Nat) :
    (db.changeRouteCount name f).ledger = db.ledger :=
  ledger_modifyAccount_of_same db name _ fun _ => rfl

/-- What storing a route does: only the routes of the sender change, and they take at most
the percentage of the operation more than before. -/
theorem storeRoute_routes {o : SetWithdrawVestingRouteOperation} {sender receiver : AccountObject}
    (h : db.storeRoute o sender receiver = .ok db') :
    db'.ledger = { db.ledger with terms := { db.terms with routes := db'.withdrawVestingRoutes } } ∧
      (∀ account, account ≠ sender.id →
        db'.terms.routesPercent account = db.terms.routesPercent account) ∧
      db'.terms.routesPercent sender.id ≤ db.terms.routesPercent sender.id + o.percent := by
  unfold storeRoute at h
  split at h
  · simp only [bind_eq_ok, pure_eq_ok] at h
    obtain ⟨_, -, _, -, rfl⟩ := h
    refine ⟨changeRouteCount_ledger _ _ _, fun account hne => ?_, ?_⟩
    · zify
      rw [Terms.routesPercent_eq, Terms.routesPercent_eq]
      simp only [terms, changeRouteCount, modifyAccount, Table.sum_create]
      rw [if_neg (fun h => hne h.1.symm), add_zero]
    · zify
      rw [Terms.routesPercent_eq, Terms.routesPercent_eq]
      simp only [terms, changeRouteCount, modifyAccount, Table.sum_create]
      split <;> omega
  · rename_i r hr
    have hkey : routeKey r = (sender.id, receiver.id) := Table.get_key hr
    have hfrom : r.fromAccount = sender.id := congrArg Prod.fst hkey
    split at h
    · rw [pure_eq_ok] at h
      subst h
      refine ⟨changeRouteCount_ledger _ _ _, fun account hne => ?_, ?_⟩
      · zify
        rw [Terms.routesPercent_eq, Terms.routesPercent_eq]
        simp only [terms, changeRouteCount, modifyAccount]
        rw [Table.sum_erase _ _ _ _ hr, if_neg (fun h => hne (h.1.symm.trans hfrom)), sub_zero]
      · zify
        rw [Terms.routesPercent_eq, Terms.routesPercent_eq]
        simp only [terms, changeRouteCount, modifyAccount]
        rw [Table.sum_erase _ _ _ _ hr]
        split <;> omega
    · rw [pure_eq_ok] at h
      subst h
      refine ⟨rfl, fun account hne => ?_, ?_⟩
      · zify
        rw [Terms.routesPercent_eq, Terms.routesPercent_eq]
        simp only [terms]
        rw [Table.sum_update _ _ _ _ _ hr]
        simp only
        rw [if_neg (fun h => hne (h.1.symm.trans hfrom)), if_neg (fun h => hne (h.1.symm.trans hfrom))]
        omega
      · zify
        rw [Terms.routesPercent_eq, Terms.routesPercent_eq]
        simp only [terms]
        rw [Table.sum_update _ _ _ _ _ hr]
        simp only
        split <;> omega

theorem setWithdrawVestingRoute_flow {o : SetWithdrawVestingRouteOperation}
    (hv : o.validate = .ok ()) (h : db.setWithdrawVestingRoute o = .ok db') :
    Flow fc db.Ready 0 0 db db' := by
  have hpercent : o.percent ≤ 10000 := by
    simp only [SetWithdrawVestingRouteOperation.validate, bind_eq_ok, fcAssert_eq_ok] at hv
    obtain ⟨_, -, _, -, hpercent⟩ := hv
    exact hpercent
  simp only [setWithdrawVestingRoute, bind_eq_ok, fcAssert_eq_ok, pure_eq_ok] at h
  obtain ⟨sender, -, receiver, -, db₁, hstore, _, htotal, rfl⟩ := h
  obtain ⟨hledger, hothers, hsender⟩ := storeRoute_routes hstore
  refine .of_move ?_
  rw [hledger]
  refine .terms db.ledger _ (fun _ hL => { hL.terms with routes := fun account => ?_ })
    fun hF => { hF with }
  by_cases hne : account = sender.id
  · -- below 100% before, so the sum of 16 bits does not wrap
    have hbefore := hL.terms.routes sender.id
    have hsmall : db₁.terms.routesPercent sender.id % 2 ^ 16 = db₁.terms.routesPercent sender.id :=
      Nat.mod_eq_of_lt (by change db.terms.routesPercent sender.id ≤ 10000 at hbefore; omega)
    rw [hsmall] at htotal
    rw [hne]
    exact htotal
  · have h := hothers account hne
    have hbefore := hL.terms.routes account
    exact h.trans_le hbefore

end Db

end VizCore.Chain
