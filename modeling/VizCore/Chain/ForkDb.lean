import VizCore.Chain.Block.Schedule

/-!
# The fork database

The tree of recent blocks.  Items are shared objects: an item has an address, and its
`prev` is a weak pointer that can be followed as long as somebody holds the item it
points to.  The index holds items, the head pointer holds one, and a caller may hold
some more (`held`).  The unlinked index of the source is never filled and no item is ever
marked invalid, so both are left out.
-/

namespace VizCore.Chain

open VizCore.Lib VizCore.Protocol

structure ForkItem where
  addr : Nat
  prev : Option Nat
  num : Nat
  id : BlockId
  data : SignedBlock

structure ForkDb where
  nextAddr : Nat := 0
  index : List ForkItem := []
  head : Option ForkItem := none
  maxSize : Nat := 1024
  held : List ForkItem := []

namespace ForkDb

variable (f : ForkDb)

/-- `fetch_block` -/
def fetchBlock (id : BlockId) : Option ForkItem := f.index.find? (·.id = id)

/-- `fetch_block_by_number` -/
def fetchBlockByNumber (num : Nat) : List ForkItem := f.index.filter (·.num = num)

/-- `prev.lock()` -/
def lock (item : ForkItem) : Option ForkItem :=
  item.prev.bind fun addr => (f.index ++ f.head.toList ++ f.held).find? (·.addr = addr)

/-- `start_block` -/
def startBlock (env : Env) (b : SignedBlock) : ForkDb :=
  let item : ForkItem := ⟨f.nextAddr, none, b.blockNum, Db.blockId env b, b⟩
  { f with
    nextAddr := f.nextAddr + 1
    index := if (f.fetchBlock item.id).isNone then f.index ++ [item] else f.index
    head := some item }

/-- The item that a new block is linked to. -/
def linkTo (b : SignedBlock) : Result (Option Nat) :=
  match f.head with
  | none => return none
  | some h => do
    fcAssert ((max 0 ((h.num : Int) - f.maxSize)) < b.blockNum)
      "attempting to push a block that is too old"
    if b.previous = ⟨0, 0⟩ then return none
    else
      let item ← getOrThrow (f.fetchBlock b.previous) .unlinkableBlock
      return some item.addr

/-- Inserting an item whose id is in the index already has no effect on the index. -/
def insert (item : ForkItem) : ForkDb :=
  { f with
    nextAddr := f.nextAddr + 1
    index := if (f.fetchBlock item.id).isNone then f.index ++ [item] else f.index
    head := match f.head with
      | none => some item
      | some h => if h.num < item.num then some item else some h }

/-- `push_block`; the new head is the head of the result. -/
def pushBlock (env : Env) (b : SignedBlock) : Result ForkDb := do
  let prev ← f.linkTo b
  return f.insert ⟨f.nextAddr, prev, b.blockNum, Db.blockId env b, b⟩

/-- `pop_block` -/
def popBlock : Result ForkDb := do
  let h ← getOrThrow f.head (.assertion "cannot pop an empty fork database")
  let prev ← getOrThrow (f.lock h)
    (.assertion "popping head block would leave fork DB empty")
  return { f with head := some prev }

/-- `set_max_size` -/
def setMaxSize (size : Nat) : ForkDb :=
  match f.head with
  | none => { f with maxSize := size }
  | some h => { f with
    maxSize := size
    index := f.index.filter fun i => decide (max 0 ((h.num : Int) - size) ≤ i.num) }

/-- `remove` -/
def remove (id : BlockId) : ForkDb := { f with index := f.index.filter (·.id ≠ id) }

/-! ## Branches -/

def parent (item : ForkItem) : Result ForkItem :=
  getOrThrow (f.lock item) (.assertion "prev.lock()")

/-- Collects items until the number is at most `num`.  Parents have smaller addresses, so
the address of an item is enough fuel. -/
def climbTo (num : Nat) : Nat → ForkItem → Result (List ForkItem × ForkItem)
  | 0, _ => .error .outOfFuel
  | fuel + 1, item =>
    if num < item.data.blockNum then do
      let p ← f.parent item
      let (rest, last) ← climbTo num fuel p
      return (item :: rest, last)
    else return ([], item)

/-- Collects items of both branches until they have the same previous block. -/
def climbBoth : Nat → ForkItem → ForkItem → Result (List ForkItem × List ForkItem)
  | 0, _, _ => .error .outOfFuel
  | fuel + 1, a, b =>
    if a.data.previous ≠ b.data.previous then do
      let pa ← f.parent a
      let pb ← f.parent b
      let (restA, restB) ← climbBoth fuel pa pb
      return (a :: restA, b :: restB)
    else return ([a], [b])

/-- `fetch_branch_from`: from the two blocks down to the children of their last common
ancestor. -/
def fetchBranchFrom (first second : BlockId) : Result (List ForkItem × List ForkItem) := do
  let a ← getOrThrow (f.fetchBlock first) (.assertion "first_branch_itr != end()")
  let b ← getOrThrow (f.fetchBlock second) (.assertion "second_branch_itr != end()")
  let (topA, a) ← f.climbTo b.data.blockNum (a.addr + 1) a
  let (topB, b) ← f.climbTo a.data.blockNum (b.addr + 1) b
  let (restA, restB) ← f.climbBoth (a.addr + 1) a b
  return (topA ++ restA, topB ++ restB)

/-- Follows the weak pointers down to the number `num`. -/
def walkDown (num : Nat) : Nat → ForkItem → Option ForkItem
  | 0, _ => none
  | fuel + 1, item =>
    if num < item.num then (f.lock item).bind (walkDown num fuel) else some item

/-- `walk_main_branch_to_num` -/
def walkMainBranchToNum (num : Nat) : Option ForkItem :=
  f.head.bind fun h => if h.num < num then none else f.walkDown num (h.addr + 1) h

/-- `fetch_block_on_main_branch_by_number` -/
def fetchBlockOnMainBranchByNumber (num : Nat) : Option ForkItem :=
  match f.fetchBlockByNumber num with
  | [] => none
  | [item] => some item
  | _ => f.walkMainBranchToNum num

end ForkDb

end VizCore.Chain
