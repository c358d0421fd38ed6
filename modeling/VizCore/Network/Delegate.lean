import VizCore.Network.Intake
import VizCore.Chain.Push

/-!
# The delegate of a node

What the node asks of its client, the p2p plugin, and through it of the chain: to take a block, a
transaction or another message, and to hand out an item.

A handler of an exception goes by the class of the exception, and the chain and the network each
have a class `unlinkable_block_exception` of their own.  So an exception is here its class with
the state that it leaves.

* `handleBlock_parentUnknown`: a block whose parent is unknown is refused;
* `handleBlock_class`: but with an exception of neither class, as `push_block` of the chain throws
  a copy of the one it caught.
-/

namespace VizCore.Network

open VizCore.Lib VizCore.Protocol VizCore.Chain

/-! ## Exceptions -/

/-- The classes of `fc::exception` that somebody tells apart. -/
inductive ExceptionClass
  | exception
  | assertException
  | keyNotFound
  | canceled
  | chainUnlinkableBlock
  | networkUnlinkableBlock
  | blockOlderThanUndoHistory
  | derived
  deriving DecidableEq

/-- `catch (const handler &)` -/
def ExceptionClass.caughtBy (c handler : ExceptionClass) : Bool :=
  handler = .exception ∨ c = handler

/-- The class of an exception of the chain. -/
def classOf : Exception → ExceptionClass
  | .assertion _ => .assertException
  | .unlinkableBlock => .chainUnlinkableBlock
  | _ => .derived

/-- An exception leaves the chain in some state. -/
abbrev Thrown := ExceptionClass × Chain.Node

/-- The chain's exception goes on as it is. -/
def rethrow {α : Type} (r : NodeResult α) : Except Thrown α :=
  match r with
  | .ok a => .ok a
  | .error (e, n) => .error (classOf e, n)

/-- `throw e` in a handler of `const fc::exception &e` throws a copy of the class of `e`. -/
def throwCopy {α : Type} (r : NodeResult α) : Except Thrown α :=
  match r with
  | .ok a => .ok a
  | .error (_, n) => .error (.exception, n)

/-! ## Messages -/

/-- `core_message_type_enum::trx_message_type` -/
def trxMessageType : Nat := 1000

/-- `core_message_type_enum::block_post_validation_message_type` -/
def blockPostValidationMessageType : Nat := 6009

/-- `core_message_type_enum::item_not_available_message_type` -/
def itemNotAvailableMessageType : Nat := 5005

structure BlockPostValidationMessage where
  blockId : BlockId
  witnessAccount : AccountName
  witnessSignature : Nat
  deriving DecidableEq

/-- A message, with what can be unpacked from its data.  `other` has data that cannot be unpacked
as one of the others. -/
inductive Packet
  | block (m : BlockMessage)
  | trx (t : SignedTransaction)
  | postValidation (m : BlockPostValidationMessage)
  | itemNotAvailable (item : ItemId)
  | other (msgType : Nat) (data : Nat)

def Packet.msgType : Packet → Nat
  | .block _ => blockMessageType
  | .trx _ => trxMessageType
  | .postValidation _ => blockPostValidationMessageType
  | .itemNotAvailable _ => itemNotAvailableMessageType
  | .other t _ => t

/-- An `item_hash_t` as the id of a block: the number is in the first 32 bits. -/
def asBlockId (h : ItemHash) : BlockId := ⟨h / 2 ^ 128, h % 2 ^ 128⟩

/-! ## The client -/

/-- The p2p plugin: what the chain needs, and how it was configured.  `recover` is the public key
that belongs to a signature of the chain's id and a block's, `packedTrx` the transaction that the
chain has stored with its object. -/
structure Client where
  env : Env
  fuel : Nat
  budget : Nat
  blockProducer : Bool := false
  forceValidate : Bool := false
  recover : BlockId → Nat → Option PublicKey
  packedTrx : TransactionObject → SignedTransaction

namespace Client

variable (client : Client)

/-- `allow_future_time` -/
def allowFutureTime : Nat := 5

/-- `check_time_in_block` -/
def checkTimeInBlock (now : TimePointSec) (b : SignedBlock) : Result Unit :=
  fcAssert (b.timestamp ≤ now + allowFutureTime)
    "block.timestamp.sec_since_epoch() <= max_accept_time"

/-- `push_block` of the chain -/
def pushBlock (n : Chain.Node) (skip : Skip) (b : SignedBlock) :
    Except Thrown (Chain.Node × Bool) :=
  throwCopy (n.pushBlock client.env client.fuel skip client.budget b)

/-- `accept_block` of the chain plugin -/
def acceptBlock (now : TimePointSec) (n : Chain.Node) (skip : Skip) (b : SignedBlock) :
    Except Thrown (Chain.Node × Bool) := do
  rethrow (n.lift (checkTimeInBlock now b))
  rethrow (n.lift (n.db.validateBlock client.env skip b))
  client.pushBlock n { skip with merkleCheck := true, blockSizeCheck := true } b

/-- `handle_block` -/
def handleBlock (now : TimePointSec) (n : Chain.Node) (m : BlockMessage) :
    Except Thrown (Chain.Node × Bool) :=
  let skip : Skip := { transactionSignatures := !(client.blockProducer || client.forceValidate) }
  match client.acceptBlock now n skip m.block with
  | .ok r => .ok r
  | .error (c, n) =>
    if c.caughtBy .networkUnlinkableBlock then .error (.networkUnlinkableBlock, n)
    else .error (c, n)

/-- `handle_transaction`, which is `accept_transaction` of the chain plugin -/
def handleTransaction (n : Chain.Node) (t : SignedTransaction) : Except Thrown Chain.Node := do
  rethrow (n.lift (n.db.validateTransaction client.env {} t))
  rethrow (n.pushTransaction client.env client.fuel
    { authorityCheck := true, transactionSignatures := true, validateOperations := true
      taposCheck := true } t)

/-- `handle_message` -/
def handleMessage (n : Chain.Node) : Packet → Except Thrown Chain.Node
  | .postValidation m =>
    match client.recover m.blockId m.witnessSignature with
    | none => .error (.derived, n)
    | some key =>
      match n.db.findWitness m.witnessAccount with
      | none => .error (.derived, n)
      | some w =>
        if w.signingKey = key then
          rethrow (n.onStore (n.applyBlockPostValidation client.env m.blockId m.witnessAccount))
        else .ok n
  | _ => .error (.exception, n)

/-- `get_item` -/
def getItem (n : Chain.Node) (item : ItemId) : Except ExceptionClass Packet :=
  if item.itemType = blockMessageType then
    match n.fetchBlockById client.env (asBlockId item.itemHash) with
    | some b => .ok (.block ⟨b, Db.blockId client.env b⟩)
    | none => .error .assertException
  else
    match n.db.transactions.get (·.trxId) item.itemHash with
    | some row => .ok (.trx (client.packedTrx row))
    | none => .error .assertException

/-- `get_block_time` -/
def getBlockTime (n : Chain.Node) (id : BlockId) : TimePointSec :=
  match n.fetchBlockById client.env id with
  | some b => b.timestamp
  | none => 0

end Client

/-! ## Blocks without a parent -/

/-- The block is recent enough for the fork database, which does not have its parent. -/
structure ParentUnknown (f : ForkDb) (b : SignedBlock) : Prop where
  recent : ∃ h, f.head = some h ∧ max 0 ((h.num : Int) - f.maxSize) < b.blockNum
  previous : b.previous ≠ ⟨0, 0⟩
  unknown : f.fetchBlock b.previous = none

section

variable {client : Client} {now : TimePointSec} {n n' : Chain.Node} {m : BlockMessage} {skip : Skip}
  {b : SignedBlock} {c : ExceptionClass}

theorem clearPending_forkDb (n : Chain.Node) : n.clearPending.forkDb = n.forkDb := by
  show n.resetPendingSession.forkDb = n.forkDb
  unfold Chain.Node.resetPendingSession
  split
  · show n.undo.forkDb = n.forkDb
    unfold Store.undo
    split <;> rfl
  · rfl

/-- The fork database refuses the block. -/
theorem pushBlock_parentUnknown (client : Client) (h : ParentUnknown n.forkDb b) :
    n.forkDb.pushBlock client.env b = .error .unlinkableBlock := by
  obtain ⟨head, hhead, hrecent⟩ := h.recent
  unfold ForkDb.pushBlock ForkDb.linkTo
  rw [hhead]
  simp only [fcAssert, require, if_pos hrecent, if_neg h.previous, h.unknown, getOrThrow]
  rfl

theorem pushBlockCore_parentUnknown {env : Env} {fuel : Nat} (hskip : skip.forkDb = false)
    (h : n.forkDb.pushBlock env b = .error .unlinkableBlock) :
    n.pushBlockCore env fuel skip b = .error (.unlinkableBlock, n) := by
  unfold Chain.Node.pushBlockCore
  rw [hskip, h]
  rfl

/-- `push_block` of the chain throws a copy of the exception. -/
theorem clientPushBlock_parentUnknown (client : Client) (hskip : skip.forkDb = false)
    (h : ParentUnknown n.forkDb b) :
    ∃ n', client.pushBlock n skip b = .error (.exception, n') := by
  have hclear : ParentUnknown n.clearPending.forkDb b := by
    rw [clearPending_forkDb]
    exact h
  unfold Client.pushBlock Chain.Node.pushBlock
  rw [pushBlockCore_parentUnknown hskip (pushBlock_parentUnknown client hclear)]
  exact ⟨_, rfl⟩

theorem classOf_cases (e : Exception) :
    classOf e = .assertException ∨ classOf e = .chainUnlinkableBlock ∨ classOf e = .derived := by
  cases e <;> simp [classOf]

theorem classOf_ne (e : Exception) :
    classOf e ≠ .networkUnlinkableBlock ∧ classOf e ≠ .canceled := by
  rcases classOf_cases e with h | h | h <;> rw [h] <;> decide

/-- `accept_block` ends with a check that fails, or with what `push_block` does. -/
theorem acceptBlock_cases (client : Client) (now : TimePointSec) (n : Chain.Node) (skip : Skip)
    (b : SignedBlock) :
    (∃ e, client.acceptBlock now n skip b = .error (classOf e, n)) ∨
      client.acceptBlock now n skip b =
        client.pushBlock n { skip with merkleCheck := true, blockSizeCheck := true } b := by
  unfold Client.acceptBlock
  cases htime : Client.checkTimeInBlock now b with
  | error e => exact .inl ⟨e, rfl⟩
  | ok u =>
    cases hvalid : n.db.validateBlock client.env skip b with
    | error e => exact .inl ⟨e, rfl⟩
    | ok v => exact .inr rfl

/-- The classes of what `accept_block` throws. -/
theorem acceptBlock_class (h : client.acceptBlock now n skip b = .error (c, n')) :
    c ≠ .networkUnlinkableBlock ∧ c ≠ .canceled := by
  rcases acceptBlock_cases client now n skip b with ⟨e, he⟩ | hpush
  · rw [he] at h
    cases h
    exact classOf_ne e
  · rw [hpush] at h
    unfold Client.pushBlock throwCopy at h
    split at h
    · cases h
    · cases h
      decide

/-- **What the delegate throws.**  The plugin waits for an exception of the network to translate
it, and the chain never throws one. -/
theorem handleBlock_class (h : client.handleBlock now n m = .error (c, n')) :
    c ≠ .networkUnlinkableBlock ∧ c ≠ .canceled := by
  unfold Client.handleBlock at h
  dsimp only at h
  split at h
  · cases h
  · rename_i c' n'' haccept
    have hclass := acceptBlock_class haccept
    have hother : c'.caughtBy .networkUnlinkableBlock = false := by
      cases c' <;> simp [ExceptionClass.caughtBy] at hclass ⊢
    rw [hother] at h
    cases h
    exact hclass

/-- A block without a parent is refused. -/
theorem handleBlock_parentUnknown (client : Client) (now : TimePointSec)
    (h : ParentUnknown n.forkDb m.block) :
    ∃ c n', client.handleBlock now n m = .error (c, n') := by
  have haccept (skip : Skip) (hskip : skip.forkDb = false) :
      ∃ c n', client.acceptBlock now n skip m.block = .error (c, n') := by
    rcases acceptBlock_cases client now n skip m.block with ⟨e, he⟩ | hpush
    · exact ⟨_, _, he⟩
    · have hpushed : ∃ n', client.pushBlock n
          { skip with merkleCheck := true, blockSizeCheck := true } m.block = .error (.exception, n') :=
        clientPushBlock_parentUnknown client hskip h
      obtain ⟨n', hn'⟩ := hpushed
      exact ⟨_, _, hpush.trans hn'⟩
  unfold Client.handleBlock
  dsimp only
  obtain ⟨c, n', hthrown⟩ := haccept
    { transactionSignatures := !(client.blockProducer || client.forceValidate) } rfl
  rw [hthrown]
  dsimp only
  split
  · exact ⟨_, _, rfl⟩
  · exact ⟨_, _, rfl⟩

end

end VizCore.Network
