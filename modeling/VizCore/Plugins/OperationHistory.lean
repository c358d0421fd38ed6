import VizCore.Chain.Objects
import VizCore.Lib.Index

/-!
# The operation history plugin

Before an operation is applied the plugin stores it as an object of its own, unless the options
of the node leave it out, and after a block it drops the objects that are too old.

* `upToBlock_eq_filter`: a purge walks over the rows up to its block and no others;
* `get_purgeOperations`: an object of a younger block is found after the purge as before.
-/

namespace VizCore.Plugins

open VizCore.Lib VizCore.Protocol VizCore.Chain

/-! ## Operations -/

/-- The virtual operations, with the accounts that they name. -/
inductive VirtualOperation
  | authorReward (author : AccountName)
  | curationReward (curator : AccountName)
  | contentReward
  | fillVestingWithdraw (fromAccount toAccount : AccountName)
  | shutdownWitness (owner : AccountName)
  | hardfork
  | contentPayoutUpdate
  | contentBenefactorReward (benefactor author : AccountName)
  | returnVestingDelegation (account : AccountName)
  | committeeCancelRequest
  | committeeApproveRequest
  | committeePayoutRequest
  | committeePayRequest (worker : AccountName)
  | witnessReward (witness : AccountName)
  | receiveAward (receiver : AccountName)
  | benefactorAward (benefactor : AccountName)
  | paidSubscriptionAction (subscriber account : AccountName)
  | cancelPaidSubscription (subscriber account : AccountName)
  | accountSale (account buyer seller : AccountName)
  | expireEscrowRatification (fromAccount toAccount agent : AccountName)
  | bid (account bidder : AccountName)
  | outbid (account bidder : AccountName)

/-- `protocol::operation` -/
inductive ChainOperation
  | carried (op : Operation)
  | virtual (op : VirtualOperation)

/-- `operation_notification`, without the block number and the id that the node fills in -/
structure OperationNotification where
  trxId : TransactionId := 0
  trxInBlock : Nat := 0
  opInTrx : Nat := 0
  virtualOp : Nat := 0
  op : ChainOperation

/-! ## Stored operations -/

/-- `operation_object`; the packed operation is kept as it is -/
structure OperationObject where
  id : Nat
  trxId : TransactionId
  block : Nat
  trxInBlock : Nat
  opInTrx : Nat
  virtualOp : Nat
  timestamp : TimePointSec
  op : ChainOperation

/-- What a query shows of an `operation_object`. -/
structure AppliedOperation where
  trxId : TransactionId
  block : Nat
  trxInBlock : Nat
  opInTrx : Nat
  virtualOp : Nat
  timestamp : TimePointSec
  op : ChainOperation

def OperationObject.toApplied (o : OperationObject) : AppliedOperation :=
  { trxId := o.trxId
    block := o.block
    trxInBlock := o.trxInBlock
    opInTrx := o.opInTrx
    virtualOp := o.virtualOp
    timestamp := o.timestamp
    op := o.op }

/-- The options of the plugin; `typeName` is the name under which an operation is listed. -/
structure OperationHistory where
  typeName : ChainOperation → String
  filterContent : Bool := false
  blacklist : Bool := false
  opsList : List String := []
  startBlock : Nat := 0

namespace OperationHistory

variable (H : OperationHistory)

/-- `operation_visitor_filter` and `operation_visitor` -/
def stores (headBlockNum : Nat) (op : ChainOperation) : Bool :=
  let wanted :=
    if H.filterContent then
      if H.typeName op ∈ H.opsList then !H.blacklist else H.blacklist
    else true
  wanted && decide (H.startBlock ≤ headBlockNum)

end OperationHistory

/-- The object that a visited operation is stored as. -/
def OperationNotification.object (note : OperationNotification) (block : Nat)
    (headBlockTime : TimePointSec) (id : Nat) : OperationObject :=
  { id := id
    trxId := note.trxId
    block := block
    trxInBlock := note.trxInBlock
    opInTrx := note.opInTrx
    virtualOp := note.virtualOp
    timestamp := headBlockTime
    op := note.op }

/-! ## Purging -/

/-- The rows that a purge walks over: those up to a block, in the order of `by_block`. -/
def upToBlock {α : Type} (block : α → Nat) (needBlock : Nat) (rows : List α) : List α :=
  (index block rows).takeWhile fun x => decide (block x ≤ needBlock)

theorem upToBlock_eq_filter {α : Type} (block : α → Nat) (needBlock : Nat) (rows : List α) :
    upToBlock block needBlock rows =
      (index block rows).filter fun x => decide (block x ≤ needBlock) := by
  unfold upToBlock
  apply takeWhile_eq_filter
  refine (index_le block rows).imp ?_
  intro x y hxy hy
  exact decide_eq_true (hxy.trans (of_decide_eq_true hy))

theorem block_le_of_mem_upToBlock {α : Type} {block : α → Nat} {needBlock : Nat} {rows : List α}
    {x : α} (h : x ∈ upToBlock block needBlock rows) : block x ≤ needBlock := by
  rw [upToBlock_eq_filter, List.mem_filter] at h
  exact of_decide_eq_true h.2

/-- `purge_old_history` of the stored operations. -/
def purgeOperations (headBlockNum historyCountBlocks : Nat) (t : Table OperationObject) :
    Table OperationObject :=
  if historyCountBlocks ≤ headBlockNum then
    (upToBlock (·.block) (headBlockNum - historyCountBlocks) t.rows).foldl
      (fun t x => t.erase (·.id) x.id) t
  else t

theorem foldl_erase_numbered {removed : List OperationObject} {t : Table OperationObject}
    (h : t.Numbered (·.id)) :
    (removed.foldl (fun t x => t.erase (·.id) x.id) t).Numbered (·.id) := by
  induction removed generalizing t with
  | nil => exact h
  | cons x rest ih => exact ih (h.erase _ _)

theorem get_foldl_erase {removed : List OperationObject} {t : Table OperationObject} {id : Nat}
    (h : ∀ x ∈ removed, x.id ≠ id) :
    (removed.foldl (fun t x => t.erase (·.id) x.id) t).get (·.id) id = t.get (·.id) id := by
  induction removed generalizing t with
  | nil => rfl
  | cons x rest ih =>
    rw [List.foldl_cons, ih fun y hy => h y (List.mem_cons_of_mem x hy)]
    exact Table.get_erase_ne t _ (Ne.symm (h x List.mem_cons_self))

theorem purgeOperations_numbered {t : Table OperationObject} (head count : Nat)
    (h : t.Numbered (·.id)) : (purgeOperations head count t).Numbered (·.id) := by
  unfold purgeOperations
  split
  · exact foldl_erase_numbered h
  · exact h

/-- **What a purge keeps**: an object of a younger block is found as before. -/
theorem get_purgeOperations {t : Table OperationObject} {head count id : Nat}
    {o : OperationObject} (h : t.Numbered (·.id)) (hget : t.get (·.id) id = some o)
    (hyoung : count ≤ head → head - count < o.block) :
    (purgeOperations head count t).get (·.id) id = some o := by
  unfold purgeOperations
  split
  · rename_i hcount
    rw [get_foldl_erase, hget]
    intro x hx hid
    have hold := block_le_of_mem_upToBlock hx
    have hxmem : x ∈ t.rows := by
      rw [upToBlock_eq_filter, List.mem_filter, mem_index] at hx
      exact hx.1
    have hxget := h.get hxmem
    rw [hid, hget] at hxget
    obtain rfl := Option.some.inj hxget
    have hlt := hyoung hcount
    omega
  · exact hget

end VizCore.Plugins
