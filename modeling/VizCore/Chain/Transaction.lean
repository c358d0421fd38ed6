import VizCore.Lib.Traced
import VizCore.Protocol.VerifyAuthority
import VizCore.Chain.Flow

/-!
# Transactions

Transactions and blocks as data, the checks of `_validate_transaction`, and
`_apply_transaction` over a given way to apply an operation.

* `updateAccountBandwidth_ledger`: bandwidth is no part of the ledger;
* `openTransaction_validated`: the operations of a transaction that is opened are validated.
-/

namespace VizCore.Chain

open VizCore.Lib VizCore.Protocol

structure Transaction where
  refBlockNum : Nat
  refBlockPrefix : Nat
  expiration : TimePointSec
  operations : List Operation

structure SignedTransaction extends Transaction where
  signatures : List Nat

/-- `block_header_extensions` -/
inductive HeaderExtension
  | void
  | version (v : Version)
  | hardforkVersionVote (hfVersion : Version) (hfTime : TimePointSec)
  deriving DecidableEq

structure SignedBlockHeader where
  previous : BlockId
  timestamp : TimePointSec
  witness : AccountName
  transactionMerkleRoot : Nat
  extensions : List HeaderExtension
  witnessSignature : Nat
  deriving DecidableEq

def SignedBlockHeader.blockNum (h : SignedBlockHeader) : Nat := (h.previous.num + 1) % 2 ^ 32

structure SignedBlock extends SignedBlockHeader where
  transactions : List SignedTransaction

/-- The validation steps that a caller may skip. -/
structure Skip where
  witnessSignature : Bool := false
  transactionSignatures : Bool := false
  transactionDupeCheck : Bool := false
  forkDb : Bool := false
  blockSizeCheck : Bool := false
  taposCheck : Bool := false
  authorityCheck : Bool := false
  merkleCheck : Bool := false
  undoHistoryCheck : Bool := false
  witnessScheduleCheck : Bool := false
  validateOperations : Bool := false
  blockLog : Bool := false
  deriving DecidableEq

/-- What the node brings along: serialisation, hashes and signatures of `fc`, the clock, and
whether it is filling a block.  `clock i` is what `fc::time_point::now()` returns, in seconds,
after `i` events. -/
structure Env where
  fc : Fc
  producing : Bool := false
  clock : Nat → TimePointSec
  trxId : Transaction → TransactionId
  trxSize : SignedTransaction → Nat
  signatureKeys : SignedTransaction → Result (List PublicKey)
  headerHash : SignedBlockHeader → Nat
  blockSize : SignedBlock → Nat
  merkleDigest : SignedTransaction → Nat
  hashPair : Nat → Nat → Nat
  checksum : Nat → Nat
  signee : SignedBlockHeader → Result PublicKey

/-- `get_shared_db_merkle`: blocks with a known defect and their checksums. -/
def sharedDbMerkle : List (Nat × Nat) :=
  [(3705111, 0x0a8f0fd5450c3706ec8b8cbad795cd0b3679bf35),
    (3705120, 0x2027edb72b671f7011c8cc4c7a8b59c39b305093),
    (3713940, 0xbf8a1d516927c506ebdbb7b38bef2e992435435f),
    (3714132, 0xe8b77773d268b72c8d650337b8cce360bbe64779),
    (3714567, 0x45af59a8c2d7d4a606151ef5dae03d2dfe13fbdd),
    (3714588, 0xe64275443bdc82f104ac936486d367af8f6d1584),
    (4138790, 0xf65a3a788a2ef52406d8ba5705d7288be228403f),
    (5435426, 0x0b32538b2d22bd3146d54b6e3cb5ae8b9780e8a5)]

/-- A check that the caller may skip. -/
def unlessSkipped (skip : Bool) (check : Result Unit) : Result Unit :=
  if skip then .ok () else check

/-! ## What a run reports -/

/-- The steps of `_apply_block` around the transactions, in their order. -/
inductive BlockStep
  | openBlock
  | updateGlobalDynamicData
  | updateSigningWitness
  | createBlockSummary
  | clearExpiredTransactions
  | clearExpiredDelegations
  | clearUsedInvites
  | clearClosedCommitteeRequests
  | updateBandwidthReserveCandidates
  | updateWitnessSchedule
  | processInflationRecalc
  | expireAwardSharesProcessing
  | processFunds
  | processVestingWithdrawals
  | accountRecoveryProcessing
  | expireEscrowRatification
  | accountOnAuctionExpiration
  | clearNullAccountBalance
  | clearAnonymousAccountBalance
  | claimCommitteeAccountBalance
  | committeeProcessing
  | paidSubscribeProcessing
  | processHardforks
  deriving DecidableEq

/-- An operation about to be applied, or a step about to be taken for a block.  `kept` is false when the
session around it is undone. -/
inductive Event
  | operation (db : Db) (op : Operation) (kept : Bool)
  | step (db : Db) (b : SignedBlock) (s : BlockStep) (kept : Bool)

def Event.undone : Event → Event
  | .operation db op _ => .operation db op false
  | .step db b s _ => .step db b s false

abbrev Run (α : Type) := Traced Event Exception α

namespace Db

/-! ## Bandwidth -/

/-- `CHAIN_BANDWIDTH_AVERAGE_WINDOW_SECONDS` -/
def bandwidthWindow : Nat := 60 * 60 * 24 * 7

/-- `CHAIN_BANDWIDTH_PRECISION` -/
def bandwidthPrecision : Nat := 1000000

/-- The average bandwidth that is left of the window. -/
def decayedBandwidth (db : Db) (a : AccountObject) : Result Int :=
  let delta : Int := (db.headBlockTime : Int) - a.lastBandwidthUpdate
  if (bandwidthWindow : Int) < delta then return 0
  else toSigned64 (toUint128 (bandwidthWindow - delta) * toUint128 a.averageBandwidth % 2 ^ 128 /
    bandwidthWindow)

/-- The vesting shares that count for the bandwidth of an account. -/
def bandwidthShares (db : Db) (a : AccountObject) : Result Nat := do
  let effective ← a.effectiveVestingShares
  let props := db.medianProps
  let total := toUint128 db.dgp.totalVestingShares
  if toUint128 effective < toUint128 props.bandwidthReserveBelow.amount then
    divUint128 (total * toUint128 props.bandwidthReservePercent % 2 ^ 128 / percent100)
      db.dgp.bandwidthReserveCandidates
  else
    return toUint128 effective * toUint128 (percent100 - props.bandwidthReservePercent) % 2 ^ 128 /
      percent100

/-- `update_account_bandwidth` -/
def updateAccountBandwidth (producing : Bool) (db : Db) (name : AccountName) (size : Nat) :
    Result Db := do
  let a ← db.getAccount name
  if 0 < db.dgp.totalVestingShares then
    let trxBandwidth : Int := (size % 2 ^ 32 * bandwidthPrecision : Nat)
    let decayed ← db.decayedBandwidth a
    let average ← safeAdd decayed trxBandwidth
    let lifetime ← safeAdd a.lifetimeBandwidth trxBandwidth
    let shares ← db.bandwidthShares a
    fcAssert (producing = true → toUint128 average * toUint128 db.dgp.totalVestingShares % 2 ^ 128 <
      shares * db.dgp.maxVirtualBandwidth % 2 ^ 128)
      "Account exceeded maximum allowed bandwidth per vesting share."
    return db.modifyAccount name fun a =>
      { a with
        averageBandwidth := average, lifetimeBandwidth := lifetime
        lastBandwidthUpdate := db.headBlockTime }
  else return db

end Db

/-- `is_data_operation` -/
def isDataOperation : Operation → Bool
  | .custom _ => true
  | .accountCreate _ => true
  | .accountUpdate _ => true
  | .accountMetadata _ => true
  | .escrowTransfer _ => true
  | _ => false

/-- All names whose authority a transaction needs, in one sorted set. -/
def requiredNames (ops : List Operation) : List AccountName :=
  let r := collectRequired ops
  (r.active ++ r.master ++ r.regular).foldl (fun s n => insertName n s) []

namespace Db

/-- The bandwidth that a transaction takes from one account. -/
def chargeBandwidth (env : Env) (trx : SignedTransaction) (db : Db) (name : AccountName) :
    Result Db := do
  let size := env.trxSize trx
  let db ← db.updateAccountBandwidth env.producing name size
  let extra := size * db.medianProps.dataOperationsCostAdditionalBandwidth / percent100
  (trx.operations.filter isDataOperation).foldlM
    (fun db _ => db.updateAccountBandwidth env.producing name extra) db

/-! ## Validation -/

/-- The authorities of the accounts as `verify_authority` reads them. -/
def verifyArgs (db : Db) (sigs : List PublicKey) : VerifyArgs where
  sigs := sigs
  getActive := fun name => (·.active) <$> db.getAuthority name
  getMaster := fun name => (·.master) <$> db.getAuthority name
  getRegular := fun name => (·.regular) <$> db.getAuthority name

/-- `transaction::validate` -/
def validateOperations (fc : Fc) (ops : List Operation) : Result Unit := do
  fcAssert (ops ≠ []) "A transaction must have at least one operation"
  validateAll fc ops

def verifySignatures (env : Env) (db : Db) (trx : SignedTransaction) : Result Unit :=
  let run : Result Unit := do
    let sigs ← env.signatureKeys trx
    verifyAuthority (db.verifyArgs sigs) trx.operations
  match run with
  | .error (.txMissingActiveAuth missing used) =>
    -- a few old blocks are known to lack the signature
    if sharedDbMerkle.any (·.1 = db.headBlockNum + 1) then .ok ()
    else .error (.txMissingActiveAuth missing used)
  | r => r

def checkTapos (db : Db) (trx : Transaction) : Result Unit := do
  let summary ← getOrThrow (db.blockSummaries.get (·.id) trx.refBlockNum)
    (.unknownKey "block_summary")
  fcAssert (trx.refBlockPrefix = summary.blockId.hash % 2 ^ 32)
    "trx.ref_block_prefix == tapos_block_summary.block_id._hash[1]"

/-- Expiration and TaPoS make no sense before the first block. -/
def checkExpiration (skip : Skip) (db : Db) (trx : Transaction) : Result Unit :=
  unlessSkipped (db.headBlockNum = 0) do
    unlessSkipped skip.taposCheck (db.checkTapos trx)
    fcAssert (trx.expiration ≤ db.headBlockTime + 60 * 60)
      "trx.expiration <= now + fc::seconds(CHAIN_MAX_TIME_UNTIL_EXPIRATION)"
    fcAssert (db.headBlockTime < trx.expiration) "now < trx.expiration"

/-- `_validate_transaction` -/
def validateTransaction (env : Env) (skip : Skip) (db : Db) (trx : SignedTransaction) :
    Result Unit := do
  unlessSkipped skip.validateOperations (validateOperations env.fc trx.operations)
  unlessSkipped (skip.transactionSignatures || skip.authorityCheck) (verifySignatures env db trx)
  db.checkExpiration skip trx.toTransaction

/-! ## Application -/

/-- What `_apply_transaction` does before the operations. -/
def openTransaction (env : Env) (skip : Skip) (db : Db) (trx : SignedTransaction) :
    Result Db := do
  let trxId := env.trxId trx.toTransaction
  fcAssert (skip.transactionDupeCheck = true ∨ (db.transactions.get (·.trxId) trxId).isNone)
    "Duplicate transaction check failed"
  db.validateTransaction env skip trx
  let db ← (requiredNames trx.operations).foldlM (chargeBandwidth env trx) db
  if skip.transactionDupeCheck then return db
  else return { db with
    transactions := db.transactions.create fun id => ⟨id, trxId, trx.expiration⟩ }

/-- `_apply_transaction`, with a way to apply an operation. -/
def applyTransactionWith (apply : Db → Operation → Run Db) (env : Env) (skip : Skip) (db : Db)
    (trx : SignedTransaction) : Run Db := do
  let db ← Traced.lift (db.openTransaction env skip trx)
  trx.operations.foldlM apply db

/-! ## What a transaction does besides its operations -/

variable {env : Env} {skip : Skip} {db db' : Db}

theorem updateAccountBandwidth_ledger {producing : Bool} {name : AccountName} {size : Nat}
    (h : db.updateAccountBandwidth producing name size = .ok db') : db'.ledger = db.ledger := by
  simp only [updateAccountBandwidth, bind_eq_ok] at h
  obtain ⟨a, -, h⟩ := h
  split at h
  · simp only [bind_eq_ok, pure_eq_ok] at h
    obtain ⟨_, -, _, -, _, -, _, -, _, -, rfl⟩ := h
    exact ledger_modifyAccount_of_same db name _ fun _ => rfl
  · rw [pure_eq_ok] at h
    rw [h]

theorem chargeBandwidth_ledger {trx : SignedTransaction} {name : AccountName}
    (h : chargeBandwidth env trx db name = .ok db') : db'.ledger = db.ledger := by
  simp only [chargeBandwidth, bind_eq_ok] at h
  obtain ⟨db₁, hfirst, hrest⟩ := h
  refine foldlM_invariant (fun s => s.ledger = db.ledger) _ _ (fun _ _ s s' hs hstep => ?_) db₁ db'
    (updateAccountBandwidth_ledger hfirst) hrest
  exact (updateAccountBandwidth_ledger hstep).trans hs

theorem openTransaction_ledger {trx : SignedTransaction}
    (h : db.openTransaction env skip trx = .ok db') : db'.ledger = db.ledger := by
  simp only [openTransaction, bind_eq_ok] at h
  obtain ⟨_, -, _, -, db₁, hcharge, h⟩ := h
  have hledger : db₁.ledger = db.ledger :=
    foldlM_invariant (fun s => s.ledger = db.ledger) _ _
      (fun _ _ s s' hs hstep => (chargeBandwidth_ledger hstep).trans hs) db db₁ rfl hcharge
  split at h
  · rw [pure_eq_ok] at h
    rw [← h]
    exact hledger
  · rw [pure_eq_ok] at h
    rw [← h]
    exact hledger

/-- The operations of a transaction that was opened have been validated. -/
theorem openTransaction_validated {trx : SignedTransaction} (hskip : skip.validateOperations = false)
    (h : db.openTransaction env skip trx = .ok db') :
    validateAll env.fc trx.operations = .ok () := by
  simp only [openTransaction, validateTransaction, hskip, unlessSkipped, Bool.false_eq_true,
    if_false, validateOperations, bind_eq_ok] at h
  obtain ⟨_, -, _, ⟨_, ⟨_, -, hv⟩, -⟩, -⟩ := h
  exact hv

end Db

end VizCore.Chain
