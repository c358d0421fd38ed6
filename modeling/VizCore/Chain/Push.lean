import VizCore.Chain.Store

/-!
# The node: transactions, blocks and forks

The store with the transactions that wait for a block: `push_transaction`, `push_block`
with its fork switches, `pop_block` and `generate_block`.  An exception carries the node
it leaves behind.

Memory is never short here: `check_free_memory` and the retry after `bad_alloc` are left
out.  There are no checkpoints.
-/

namespace VizCore.Chain

open VizCore.Lib VizCore.Protocol

namespace ForkDb

variable (f : ForkDb)

/-- `set_head` -/
def setHead (item : ForkItem) : ForkDb := { f with head := some item }

/-- What `_push_block` does when blocks have failed: they are removed, and the head is set to
`head` if there is one. -/
def discard (ids : List BlockId) (head : Option ForkItem) : ForkDb :=
  let f := ids.foldl remove f
  head.elim f f.setHead

/-- A caller keeps items alive. -/
def hold (items : List ForkItem) : ForkDb := { f with held := items }

end ForkDb

/-- `pendingTx` waits for a block, `poppedTx` was in a block that has been popped.  The undo
state of the pending session, if it is valid, is the top of the undo stack. -/
structure Node extends Store where
  pendingSession : Bool := false
  pendingTx : List SignedTransaction := []
  poppedTx : List SignedTransaction := []

abbrev NodeResult (α : Type) := Except (Exception × Node) α

namespace Store

variable (s : Store)

/-- `squash`: the changes of the last session become changes of the one before. -/
def squash : Store :=
  match s.undoStack with
  | [] => s
  | (revision, _) :: rest => { s with undoStack := rest, revision := revision - 1 }

theorem squash_startUndoSession (db : Db) :
    ({ s.startUndoSession with db := db } : Store).squash = { s with db := db } := by
  cases s
  rfl

/-- A block is applied in a session of its own, which is undone when the block fails. -/
def applyInSession (env : Env) (fuel : Nat) (skip : Skip) (b : SignedBlock) :
    StoreResult Store :=
  match (s.startUndoSession.applyBlock env fuel skip b 0).2 with
  | .ok t => .ok t
  | .error (e, t) => .error (e, t.undo)

end Store

namespace Node

variable (n : Node)

/-- An exception leaves the node as it is. -/
def lift {α : Type} (r : Result α) : NodeResult α :=
  match r with
  | .ok a => .ok a
  | .error e => .error (e, n)

/-- What a computation on the store does to the node. -/
def onStore (r : StoreResult Store) : NodeResult Node :=
  match r with
  | .ok s => .ok { n with toStore := s }
  | .error (e, s) => .error (e, { n with toStore := s })

/-! ## Pending transactions -/

/-- `_pending_tx_session.reset()` -/
def resetPendingSession : Node :=
  if n.pendingSession then { n with toStore := n.undo, pendingSession := false } else n

/-- `clear_pending` -/
def clearPending : Node := { n.resetPendingSession with pendingTx := [] }

/-- The pending session is opened with the first transaction after a block. -/
def openPendingSession : Node :=
  if n.pendingSession then n
  else { n with toStore := n.startUndoSession, pendingSession := true }

/-- `_push_transaction` -/
def pushTransactionCore (env : Env) (fuel : Nat) (skip : Skip) (trx : SignedTransaction) :
    NodeResult Node :=
  let n := n.openPendingSession
  let temp := n.startUndoSession
  match (Db.applyTransaction env fuel skip temp.db trx 0).2 with
  | .error e => .error (e, { n with toStore := temp.undo })
  | .ok db => .ok { n with
      toStore := ({ temp with db := db } : Store).squash, pendingTx := n.pendingTx ++ [trx] }

/-- `push_transaction` -/
def pushTransaction (env : Env) (fuel : Nat) (skip : Skip) (trx : SignedTransaction) :
    NodeResult Node := do
  n.lift (fcAssert (env.trxSize trx ≤ (n.db.dgp.maximumBlockSize + 2 ^ 32 - 256) % 2 ^ 32)
    "fc::raw::pack_size(trx) <= (get_dynamic_global_properties().maximum_block_size - 256)")
  n.pushTransactionCore { env with producing := true } fuel skip trx

/-- `is_known_transaction` -/
def isKnownTransaction (env : Env) (trx : SignedTransaction) : Bool :=
  (n.db.transactions.get (·.trxId) (env.trxId trx.toTransaction)).isSome

/-- One transaction is restored; whatever it throws is swallowed. -/
def restoreOne (env : Env) (fuel : Nat) (skip : Skip) (trx : SignedTransaction) : Node :=
  if n.isKnownTransaction env trx then n
  else
    match n.pushTransactionCore env fuel skip trx with
    | .ok n => n
    | .error (_, n) => n

/-- The transactions that popped blocks and the pending list have left are applied again.
After `budget` of them the time is up, and the others only wait. -/
def restorePending (env : Env) (fuel : Nat) (skip : Skip) (budget : Nat)
    (pending : List SignedTransaction) : Node :=
  let waiting := n.poppedTx ++ pending
  let n := (waiting.take budget).foldl (fun n trx => n.restoreOne env fuel skip trx) n
  { n with pendingTx := n.pendingTx ++ waiting.drop budget, poppedTx := [] }

/-! ## Blocks -/

/-- `pop_block` -/
def popBlock (env : Env) : NodeResult Node := do
  let n := n.resetPendingSession
  let head ← n.lift (getOrThrow (n.fetchBlockById env n.db.dgp.headBlockId) .popEmptyChain)
  let f ← n.lift n.forkDb.popBlock
  let s : Store := { n.toStore with forkDb := f }
  return { n with toStore := s.undo, poppedTx := head.transactions ++ n.poppedTx }

/-- Pops blocks until `target` is the head.  Each one moves the head of the fork database to
an older item, so there are no more of them than items. -/
def popTo (env : Env) (target : BlockId) : Nat → Node → NodeResult Node
  | 0, n => .error (.outOfFuel, n)
  | fuel + 1, n =>
    if n.db.dgp.headBlockId ≠ target then do
      let n ← n.popBlock env
      popTo env target fuel n
    else return n

/-- Applies the blocks of a branch.  An exception carries what was not applied, the block that
failed included. -/
def applyBranch (env : Env) (fuel : Nat) (skip : Skip) : List ForkItem → Node →
    Except (Exception × Node × List ForkItem) Node
  | [], n => .ok n
  | item :: rest, n =>
    match n.onStore (n.applyInSession env fuel skip item.data) with
    | .ok n => applyBranch env fuel skip rest n
    | .error (e, n) => .error (e, n, item :: rest)

/-- The branch that had been the chain comes back after a block of the other one failed: what
was not applied of that one is removed from the fork database. -/
def restoreBranch (env : Env) (fuel : Nat) (skip : Skip) (second failed : List ForkItem)
    (base : BlockId) : NodeResult Node := do
  let f := n.forkDb.discard (failed.map (·.id)) second.head?
  let n : Node := { n with forkDb := f }
  let n ← popTo env base (f.nextAddr + 1) n
  match applyBranch env fuel skip second.reverse n with
  | .ok n => .ok n
  | .error (e, n, _) => .error (e, n)

/-- A switch to the branch of the new head. -/
def switchForks (env : Env) (fuel : Nat) (skip : Skip) (newHead : ForkItem) : NodeResult Node := do
  let (first, second) ← n.lift (n.forkDb.fetchBranchFrom newHead.id n.db.dgp.headBlockId)
  let last ← n.lift (getOrThrow second.getLast? (.assertion "branches.second.back()"))
  let n : Node := { n with forkDb := n.forkDb.hold (first ++ second) }
  let n ← popTo env last.data.previous (n.forkDb.nextAddr + 1) n
  match applyBranch env fuel skip first.reverse n with
  | .ok n => .ok n
  | .error (e, n, failed) => do
    let n ← n.restoreBranch env fuel skip second failed last.data.previous
    .error (e, n)

/-- The caller lets the items go, also when it throws. -/
def releasing (r : NodeResult Node) : NodeResult Node :=
  match r with
  | .ok n => .ok { n with forkDb := n.forkDb.hold [] }
  | .error (e, n) => .error (e, { n with forkDb := n.forkDb.hold [] })

/-- The block is appended to the chain. -/
def appendBlock (env : Env) (fuel : Nat) (skip : Skip) (b : SignedBlock) : NodeResult Node :=
  match n.onStore (n.applyInSession env fuel skip b) with
  | .ok n => .ok n
  | .error (e, n) => .error (e, { n with forkDb := n.forkDb.discard [Db.blockId env b] none })

/-- `_push_block`; the result tells whether the node switched forks. -/
def pushBlockCore (env : Env) (fuel : Nat) (skip : Skip) (b : SignedBlock) :
    NodeResult (Node × Bool) :=
  if skip.forkDb then do
    let n ← n.appendBlock env fuel skip b
    return (n, false)
  else do
    let f ← n.lift (n.forkDb.pushBlock env b)
    let n : Node := { n with forkDb := f }
    let newHead ← n.lift (getOrThrow f.head (.assertion "_head"))
    if newHead.data.previous = n.db.dgp.headBlockId then
      let n ← n.appendBlock env fuel skip b
      return (n, false)
    else if n.db.dgp.headBlockNumber < newHead.data.blockNum then
      let n ← releasing (n.switchForks env fuel skip newHead)
      return (n, true)
    else return (n, false)

/-- `push_block`; the pending transactions are put back also when the block fails. -/
def pushBlock (env : Env) (fuel : Nat) (skip : Skip) (budget : Nat) (b : SignedBlock) :
    NodeResult (Node × Bool) :=
  match n.clearPending.pushBlockCore env fuel skip b with
  | .ok (m, switched) => .ok (m.restorePending env fuel skip budget n.pendingTx, switched)
  | .error (e, m) => .error (e, m.restorePending env fuel skip budget n.pendingTx)

/-! ## The production of a block -/

/-- `CHAIN_VERSION`, which is also `CHAIN_HARDFORK_VERSION` -/
def chainVersion : Version := 0x03000000

/-- `CHAIN_HARDFORK_11_TIME`, the time of the last hardfork. -/
def lastHardforkTime : TimePointSec := 1691643600

/-- `CHAIN_BLOCK_GENERATION_POSTPONED_TX_LIMIT` -/
def postponedTxLimit : Nat := 5

/-- A witness's key: the public key, and what it signs a header with. -/
structure SigningKey where
  publicKey : PublicKey
  sign : SignedBlockHeader → Nat

/-- What `generate_block` collects: the transactions, their size and the number of those that
are too big for the block. -/
structure Collected where
  node : Node
  transactions : List SignedTransaction := []
  size : Nat
  postponed : Nat := 0

/-- A pending transaction goes into the block if it is alive, fits and applies. -/
def collect (env : Env) (fuel : Nat) (skip : Skip) (time : TimePointSec) (limit : Nat) :
    List SignedTransaction → Collected → Collected
  | [], c => c
  | trx :: rest, c =>
    if trx.expiration < time then collect env fuel skip time limit rest c
    else if limit ≤ c.size + env.trxSize trx then
      if postponedTxLimit < c.postponed then c
      else collect env fuel skip time limit rest { c with postponed := c.postponed + 1 }
    else
      let temp := c.node.startUndoSession
      match (Db.applyTransaction env fuel skip temp.db trx 0).2 with
      | .error _ =>
        collect env fuel skip time limit rest { c with node := { c.node with toStore := temp.undo } }
      | .ok db =>
        collect env fuel skip time limit rest
          { c with
            node := { c.node with toStore := ({ temp with db := db } : Store).squash }
            transactions := c.transactions ++ [trx]
            size := c.size + env.trxSize trx }

/-- The pending session is thrown away and built again for the given time; what remains of it
is the list of transactions for the block. -/
def collectPending (env : Env) (fuel : Nat) (skip : Skip) (time : TimePointSec)
    (headerSize : Nat) : Node × List SignedTransaction :=
  let limit := n.db.dgp.maximumBlockSize
  let m := n.resetPendingSession.openPendingSession
  let c := collect env fuel skip time limit n.pendingTx { node := m, size := headerSize }
  (c.node.resetPendingSession, c.transactions)

/-- The extensions of a new block: the version of the node when the witness has not told it,
and a vote against a hardfork that the node does not know. -/
def headerExtensions (w : WitnessObject) (p : HardforkPropertyObject) : List HeaderExtension :=
  (if w.runningVersion ≠ chainVersion then [.version chainVersion] else []) ++
    if p.currentHardforkVersion = chainVersion ∧ chainVersion < w.hardforkVersionVote then
      [.hardforkVersionVote chainVersion lastHardforkTime] else []

/-- The new block, before it is signed. -/
def unsignedBlock (env : Env) (db : Db) (w : WitnessObject) (time : TimePointSec)
    (trxs : List SignedTransaction) : SignedBlock :=
  let b : SignedBlock :=
    { previous := db.dgp.headBlockId, timestamp := time, witness := w.owner
      transactionMerkleRoot := 0, extensions := headerExtensions w db.hardforkProperty
      witnessSignature := 0, transactions := trxs }
  { b with transactionMerkleRoot := calculateMerkleRoot env b }

/-- The new block, signed. -/
def signedBlock (env : Env) (skip : Skip) (db : Db) (w : WitnessObject) (time : TimePointSec)
    (trxs : List SignedTransaction) (key : SigningKey) : SignedBlock :=
  let b := unsignedBlock env db w time trxs
  if skip.witnessSignature then b
  else { b with witnessSignature := key.sign b.toSignedBlockHeader }

/-- What `generate_block` does before the block is pushed; the pending session is closed, and
the pending transactions stay in their list. -/
def assembleBlock (env : Env) (fuel : Nat) (skip : Skip) (headerSize : Nat) (time : TimePointSec)
    (witnessOwner : AccountName) (key : SigningKey) : NodeResult (Node × SignedBlock) := do
  let slotNum := n.db.getSlotAtTime time
  n.lift (fcAssert (0 < slotNum) "slot_num > 0")
  n.lift (fcAssert (n.db.getScheduledWitness slotNum = witnessOwner)
    "scheduled_witness == witness_owner")
  let w ← n.lift (n.db.getWitness witnessOwner)
  n.lift (unlessSkipped skip.witnessSignature (fcAssert (w.signingKey = key.publicKey)
    "witness_obj.signing_key == block_signing_private_key.get_public_key()"))
  let (n, trxs) := n.collectPending env fuel skip time headerSize
  let w ← n.lift (n.db.getWitness witnessOwner)
  return (n, signedBlock env skip n.db w time trxs key)

/-- `generate_block`; `headerSize` is the size of an empty header, and some bytes more. -/
def generateBlock (env : Env) (fuel : Nat) (skip : Skip) (budget headerSize : Nat)
    (time : TimePointSec) (witnessOwner : AccountName) (key : SigningKey) :
    NodeResult (Node × SignedBlock) := do
  let (n, b) ← n.assembleBlock env fuel skip headerSize time witnessOwner key
  n.lift (unlessSkipped skip.blockSizeCheck (fcAssert (env.blockSize b ≤ chainBlockSize)
    "fc::raw::pack_size(pending_block) <= CHAIN_BLOCK_SIZE"))
  let (n, _) ← n.pushBlock env fuel skip budget b
  return (n, b)

/-! ## What a call leaves behind -/

/-- The node after a call, whether it returned or threw. -/
def left {α : Type} : NodeResult (Node × α) → Node
  | .ok (n, _) => n
  | .error (_, n) => n

end Node

end VizCore.Chain
