import Mathlib.Data.List.DropRight
import VizCore.Lib.Runs
import VizCore.Chain.Block.Schedule
import VizCore.Network.Node

/-!
# The ids that a peer has listed

A peer is asked for ids with a synopsis; its reply is put on the end of the ids that it listed
before.  The synopsis is that of the delegate, continued over the listed ids.

* `synopsis_of_run`: in every run the ids have consecutive numbers in 32 bits, and the synopsis
  gets done and ascends to the last id as long as that one is below the greatest number;
* `synopsis_unfinished`: from the greatest number on it does not.

The list does not change while a handler waits for the delegate, so that a handler is one step.
The count of unfetched items over all peers and the reports of it are left out.
-/

namespace VizCore.Network

open VizCore.Lib VizCore.Protocol VizCore.Chain

/-- `get_block_number`, a `uint32_t` -/
def getBlockNumber (id : BlockId) : Nat := id.num % 2 ^ 32

/-- `GRAPHENE_NET_FUTURE_SYNC_BLOCKS_GRACE_PERIOD_SEC` -/
def futureSyncBlocksGracePeriodSec : Nat := 60 * 60

/-- `blockchain_item_ids_inventory_message` -/
structure IdsInventory where
  totalRemainingItemCount : Nat
  itemHashesAvailable : List BlockId

/-- `block_id_type()` -/
def noBlock : BlockId := ⟨0, 0⟩

/-- Why `get_blockchain_synopsis` of the delegate throws. -/
inductive ChainFailure
  | noSuchBlock
  | notOnFork
  | unreachableFork
  | olderThanUndoHistory
  deriving DecidableEq

/-- What the delegate answers while a reply is handled, and the first ids of the other active
peers. -/
structure SyncAnswers where
  hasItem : BlockId → Bool
  blockTime : BlockId → TimePointSec
  blockchainNow : TimePointSec
  otherFronts : List BlockId

/-- The fields of a `peer_connection` that the synchronisation with it is about. -/
structure SyncPeer where
  idsOfItemsToGet : List BlockId := []
  numberOfUnfetchedItemIds : Nat := 0
  itemIdsRequestedFromPeer : Option (List BlockId) := none
  lastBlockDelegateHasSeen : BlockId := noBlock
  lastBlockTimeDelegateHasSeen : TimePointSec := 0
  weNeedSyncItemsFromPeer : Bool := true
  inhibitFetchingSyncBlocks : Bool := false
  disconnected : Bool := false

/-- What the handler of a reply does next. -/
inductive FollowUp
  | nothing
  | fetchSyncItems
  | fetchNextBatch
  deriving DecidableEq

/-! ## The synopsis for a peer -/

/-- `outOfRange` stands for a read beyond the end of the list. -/
inductive SynopsisFailure
  | outOfFuel
  | outOfRange
  deriving DecidableEq

/-- What a turn of the loop adds. -/
def idsAt (ids : List BlockId) (first low : Nat) : Except SynopsisFailure (List BlockId) :=
  if first ≤ low then
    match ids[low - first]? with
    | some id => .ok [id]
    | none => .error .outOfRange
  else .ok []

/-- `low_block_num += (true_high_block_num - low_block_num + 2) / 2` -/
def nextLow (trueHigh low : Nat) : Nat :=
  (low + (trueHigh + 2 ^ 32 - low + 2) % 2 ^ 32 / 2) % 2 ^ 32

/-- The loop of `create_blockchain_synopsis_for_peer`. -/
def missingIds (ids : List BlockId) (first trueHigh : Nat) :
    Nat → Nat → Except SynopsisFailure (List BlockId)
  | 0, _ => .error .outOfFuel
  | fuel + 1, low => do
    let here ← idsAt ids first low
    if nextLow trueHigh low ≤ trueHigh then do
      let rest ← missingIds ids first trueHigh fuel (nextLow trueHigh low)
      pure (here ++ rest)
    else pure here

/-- Where the synopsis starts: the number of its first block. -/
def lowBlockNum (synopsis : List BlockId) : Nat := (synopsis.head?.map getBlockNumber).getD 1

/-- `create_blockchain_synopsis_for_peer`, after the answer of the delegate. -/
def createBlockchainSynopsisForPeer (fuel : Nat) (ids synopsis : List BlockId) :
    Except SynopsisFailure (List BlockId) :=
  match ids with
  | [] => .ok synopsis
  | front :: _ => do
    let first := getBlockNumber front
    let trueHigh := (first + ids.length - 1) % 2 ^ 32
    let missing ← missingIds ids first trueHigh fuel (lowBlockNum synopsis)
    pure (synopsis ++ missing)

/-! ## A reply -/

/-- The `i`-th id has to have the number `first + i`. -/
def isSequential (first : Nat) : Nat → List BlockId → Bool
  | _, [] => true
  | i, id :: ids =>
    decide (getBlockNumber id = (first + i) % 2 ^ 32) && isSequential first (i + 1) ids

/-- The ids are sequential, and start in the synopsis that was sent. -/
def isValidReply (synopsis : List BlockId) : List BlockId → Bool
  | [] => true
  | first :: ids =>
    isSequential (getBlockNumber first) 1 ids &&
      if synopsis = [] then decide (getBlockNumber first = 1) else decide (first ∈ synopsis)

namespace SyncPeer

/-- The peer has nothing that we lack. -/
def UpToDate (a : SyncAnswers) (m : IdsInventory) (p : SyncPeer) : Prop :=
  m.totalRemainingItemCount = 0 ∧
    (m.itemHashesAvailable = [] ∨ ∃ id ∈ m.itemHashesAvailable.head?,
      m.itemHashesAvailable.length = 1 ∧ a.hasItem id = true) ∧
    p.idsOfItemsToGet = [] ∧ p.numberOfUnfetchedItemIds = 0

instance (a : SyncAnswers) (m : IdsInventory) (p : SyncPeer) : Decidable (p.UpToDate a m) :=
  inferInstanceAs (Decidable (_ ∧ (_ ∨ _) ∧ _ ∧ _))

def noteSeen (id : BlockId) (time : TimePointSec) (p : SyncPeer) : SyncPeer :=
  { p with lastBlockDelegateHasSeen := id, lastBlockTimeDelegateHasSeen := time }

/-- The ids at the front of the reply that the delegate has are dropped. -/
def flushSeen (a : SyncAnswers) : List BlockId → SyncPeer → SyncPeer × List BlockId
  | [], p => (p, [])
  | id :: ids, p =>
    if a.hasItem id then flushSeen a ids (p.noteSeen id (a.blockTime id)) else (p, id :: ids)

/-- Ids are popped off the back of the list until the last one is the first of the reply. -/
def splice (a : SyncAnswers) (first : BlockId) (ids : List BlockId) (p : SyncPeer) :
    SyncPeer × List BlockId :=
  let kept := p.idsOfItemsToGet.rdropWhile fun id => decide (id ≠ first)
  if kept = [] then
    ({ p with idsOfItemsToGet := [] }.noteSeen first (a.blockTime first), ids)
  else ({ p with idsOfItemsToGet := kept.dropLast }, first :: ids)

/-- What is left of the peer's list and of the reply. -/
def meet (a : SyncAnswers) (received : List BlockId) (p : SyncPeer) : SyncPeer × List BlockId :=
  match received with
  | [] => (p, [])
  | first :: ids =>
    if p.idsOfItemsToGet = [] then
      if first ∈ a.otherFronts then (p, first :: ids) else flushSeen a (first :: ids) p
    else p.splice a first ids

def takeIds (a : SyncAnswers) (received : List BlockId) (p : SyncPeer) : SyncPeer :=
  let (p, ids) := p.meet a received
  { p with idsOfItemsToGet := p.idsOfItemsToGet ++ ids }

/-- The last block that the peer offers would be in the future. -/
def Implausible (a : SyncAnswers) (p : SyncPeer) : Prop :=
  (a.blockchainNow + futureSyncBlocksGracePeriodSec) % 2 ^ 32 <
    (p.lastBlockTimeDelegateHasSeen + p.numberOfUnfetchedItemIds * blockInterval) % 2 ^ 32

instance (a : SyncAnswers) (p : SyncPeer) : Decidable (p.Implausible a) :=
  inferInstanceAs (Decidable (_ < _))

/-- What follows when the ids are taken. -/
def followUp (m : IdsInventory) (p : SyncPeer) : FollowUp :=
  if m.totalRemainingItemCount ≠ 0 then
    if minBlockIdsToPrefetch < p.idsOfItemsToGet.length then .fetchSyncItems else .fetchNextBatch
  else if p.idsOfItemsToGet ≠ [] then .fetchSyncItems
  else .fetchNextBatch

def onBlockchainItemIdsInventoryMessage (a : SyncAnswers) (m : IdsInventory) (p : SyncPeer) :
    SyncPeer × FollowUp :=
  match p.itemIdsRequestedFromPeer with
  | none => (p, .nothing)
  | some synopsis =>
    if isValidReply synopsis m.itemHashesAvailable then
      let p := { p with itemIdsRequestedFromPeer := none }
      if p.UpToDate a m then ({ p with weNeedSyncItemsFromPeer := false }, .nothing)
      else
        let q := { p with numberOfUnfetchedItemIds := m.totalRemainingItemCount }.takeIds a
          m.itemHashesAvailable
        if q.Implausible a then ({ q with disconnected := true }, .nothing)
        else (q, q.followUp m)
    else ({ p with disconnected := true }, .nothing)

/-! ## Steps -/

/-- `fetch_next_batch_of_item_ids_from_peer`.  The request is stored when the synopsis is
done. -/
def fetchNextBatchOfItemIds (fuel : Nat) (answer : Except ChainFailure (List BlockId))
    (p : SyncPeer) : SyncPeer :=
  match answer with
  | .error .olderThanUndoHistory => { p with disconnected := true }
  | .error _ => p
  | .ok synopsis =>
    match createBlockchainSynopsisForPeer fuel p.idsOfItemsToGet synopsis with
    | .ok synopsis => { p with itemIdsRequestedFromPeer := some synopsis }
    | .error _ => p

def startSynchronizing (genesisTime : TimePointSec) (fuel : Nat)
    (answer : Except ChainFailure (List BlockId)) (p : SyncPeer) : SyncPeer :=
  { p with
    idsOfItemsToGet := [], numberOfUnfetchedItemIds := 0, weNeedSyncItemsFromPeer := true
    lastBlockDelegateHasSeen := noBlock, lastBlockTimeDelegateHasSeen := genesisTime
    inhibitFetchingSyncBlocks := false }.fetchNextBatchOfItemIds fuel answer

/-- `process_backlog_of_sync_blocks`, when it meets the block. -/
def popReceived (id : BlockId) (p : SyncPeer) : SyncPeer :=
  if p.idsOfItemsToGet.head? = some id then
    { p with idsOfItemsToGet := p.idsOfItemsToGet.tail }
  else p

/-- `seen` is what other handlers note about the blocks of the peer. -/
inductive Act
  | reply (a : SyncAnswers) (m : IdsInventory)
  | request (fuel : Nat) (answer : Except ChainFailure (List BlockId))
  | restart (genesisTime : TimePointSec) (fuel : Nat) (answer : Except ChainFailure (List BlockId))
  | pop (id : BlockId)
  | seen (id : BlockId) (time : TimePointSec)

def step (p : SyncPeer) : Act → SyncPeer
  | .reply a m => (p.onBlockchainItemIdsInventoryMessage a m).1
  | .request fuel answer => p.fetchNextBatchOfItemIds fuel answer
  | .restart genesisTime fuel answer => p.startSynchronizing genesisTime fuel answer
  | .pop id => p.popReceived id
  | .seen id time => p.noteSeen id time

end SyncPeer

/-! ## What should hold -/

/-- The second block has the next number. -/
def Next (x y : BlockId) : Prop := getBlockNumber y = (getBlockNumber x + 1) % 2 ^ 32

/-- The numbers are consecutive, in 32 bits. -/
def Consecutive (ids : List BlockId) : Prop := ids.IsChain Next

/-- The blocks have ascending numbers. -/
def Ascending (ids : List BlockId) : Prop :=
  ids.Pairwise fun x y => getBlockNumber x < getBlockNumber y

/-- A synopsis for a peer ascends to the last id of its list. -/
structure Summarises (ids synopsis : List BlockId) : Prop where
  ascending : Ascending synopsis
  last : synopsis.getLast? = ids.getLast?

variable {ids received synopsis : List BlockId} {p : SyncPeer} {a : SyncAnswers}

/-! ## The list -/

/-- A sequential list goes on from the id before it. -/
theorem consecutive_of_isSequential {x : BlockId} {first i : Nat}
    (hx : getBlockNumber x = (first + i) % 2 ^ 32) (h : isSequential first (i + 1) ids = true) :
    Consecutive (x :: ids) := by
  induction ids generalizing x i with
  | nil => exact List.isChain_singleton x
  | cons y ids ih =>
    obtain ⟨hy, hrest⟩ := (Bool.and_eq_true _ _).mp h
    have hnum : getBlockNumber y = (first + (i + 1)) % 2 ^ 32 := of_decide_eq_true hy
    apply List.IsChain.cons_cons
    · show getBlockNumber y = (getBlockNumber x + 1) % 2 ^ 32
      rw [hnum, hx, Nat.mod_add_mod, Nat.add_assoc]
    · exact ih hnum hrest

theorem consecutive_of_valid (h : isValidReply synopsis received = true) :
    Consecutive received := by
  cases received with
  | nil => exact List.isChain_nil
  | cons first ids =>
    obtain ⟨hsequential, -⟩ := (Bool.and_eq_true _ _).mp h
    have hfirst : getBlockNumber first = (getBlockNumber first + 0) % 2 ^ 32 :=
      (Nat.mod_mod _ _).symm
    exact consecutive_of_isSequential hfirst hsequential

namespace SyncPeer

theorem flushSeen_spec (received : List BlockId) (p : SyncPeer) :
    (flushSeen a received p).1.idsOfItemsToGet = p.idsOfItemsToGet ∧
      (flushSeen a received p).2 <:+ received := by
  induction received generalizing p with
  | nil => exact ⟨rfl, List.suffix_refl []⟩
  | cons id ids ih =>
    rw [flushSeen]
    split
    · obtain ⟨hids, hsuffix⟩ := ih (p.noteSeen id (a.blockTime id))
      exact ⟨hids, hsuffix.trans (List.suffix_cons id ids)⟩
    · exact ⟨rfl, List.suffix_refl _⟩

/-- The reply is put on where the list meets it. -/
theorem splice_consecutive {first : BlockId} (hids : Consecutive p.idsOfItemsToGet)
    (hreceived : Consecutive (first :: ids)) :
    Consecutive ((p.splice a first ids).1.idsOfItemsToGet ++ (p.splice a first ids).2) := by
  unfold splice
  dsimp only
  split
  · exact hreceived.tail
  · rename_i hsome
    -- the last id that is kept is the first of the reply
    generalize hkept : p.idsOfItemsToGet.rdropWhile (fun id => decide (id ≠ first)) = kept at hsome
    have hprefix : kept <+: p.idsOfItemsToGet := hkept ▸ List.rdropWhile_prefix _ _
    have hlast : kept.getLast hsome = first := by
      subst hkept
      have hnot := List.rdropWhile_last_not _ _ hsome
      by_contra hne
      exact hnot (decide_eq_true hne)
    have hold : Consecutive (kept.dropLast ++ [first]) := by
      rw [← hlast, List.dropLast_append_getLast]
      exact hids.prefix hprefix
    obtain ⟨hbefore, -, hmeet⟩ := List.isChain_append.mp hold
    exact List.isChain_append.mpr ⟨hbefore, hreceived, hmeet⟩

theorem takeIds_consecutive (hids : Consecutive p.idsOfItemsToGet)
    (hreceived : Consecutive received) :
    Consecutive (p.takeIds a received).idsOfItemsToGet := by
  show Consecutive ((p.meet a received).1.idsOfItemsToGet ++ (p.meet a received).2)
  cases received with
  | nil =>
    show Consecutive (p.idsOfItemsToGet ++ [])
    rw [List.append_nil]
    exact hids
  | cons first ids =>
    unfold meet
    dsimp only
    split
    · rename_i hnone
      split
      · show Consecutive (p.idsOfItemsToGet ++ first :: ids)
        rw [hnone]
        exact hreceived
      · obtain ⟨hsame, hsuffix⟩ := flushSeen_spec (a := a) (first :: ids) p
        rw [hsame, hnone]
        exact hreceived.suffix hsuffix
    · exact splice_consecutive hids hreceived

theorem reply_consecutive (h : Consecutive p.idsOfItemsToGet) (a : SyncAnswers) (m : IdsInventory) :
    Consecutive (p.onBlockchainItemIdsInventoryMessage a m).1.idsOfItemsToGet := by
  unfold onBlockchainItemIdsInventoryMessage
  split
  · exact h
  · split
    · rename_i hvalid
      dsimp only
      split
      · exact h
      · have htaken : ∀ q : SyncPeer, q.idsOfItemsToGet = p.idsOfItemsToGet →
            Consecutive (q.takeIds a m.itemHashesAvailable).idsOfItemsToGet := by
          intro q hq
          exact takeIds_consecutive (hq ▸ h) (consecutive_of_valid hvalid)
        split
        · exact htaken _ rfl
        · exact htaken _ rfl
    · exact h

theorem request_ids (fuel : Nat) (answer : Except ChainFailure (List BlockId)) :
    (p.fetchNextBatchOfItemIds fuel answer).idsOfItemsToGet = p.idsOfItemsToGet := by
  unfold fetchNextBatchOfItemIds
  split
  · rfl
  · rfl
  · split
    · rfl
    · rfl

theorem step_consecutive (h : Consecutive p.idsOfItemsToGet) (act : Act) :
    Consecutive (p.step act).idsOfItemsToGet := by
  cases act with
  | reply a m => exact reply_consecutive h a m
  | request fuel answer =>
    show Consecutive (p.fetchNextBatchOfItemIds fuel answer).idsOfItemsToGet
    rw [request_ids]
    exact h
  | restart genesisTime fuel answer =>
    show Consecutive (fetchNextBatchOfItemIds fuel answer _).idsOfItemsToGet
    rw [request_ids]
    exact List.isChain_nil
  | pop id =>
    show Consecutive (p.popReceived id).idsOfItemsToGet
    unfold popReceived
    split
    · exact h.tail
    · exact h
  | seen id time => exact h

theorem run_consecutive (h : Consecutive p.idsOfItemsToGet) (acts : List Act) :
    Consecutive (run step p acts).idsOfItemsToGet := by
  induction acts generalizing p with
  | nil => exact h
  | cons act acts ih => exact ih (step_consecutive h act)

end SyncPeer

/-! ## The loop -/

variable {front : BlockId} {first low trueHigh : Nat}

/-- The numbers of a list that does not pass the greatest number. -/
theorem Consecutive.num (h : Consecutive (front :: ids))
    (hfits : getBlockNumber front + (front :: ids).length ≤ 2 ^ 32) {i : Nat} {id : BlockId}
    (hid : (front :: ids)[i]? = some id) : getBlockNumber id = getBlockNumber front + i := by
  induction i generalizing id with
  | zero =>
    cases hid
    rfl
  | succ i ih =>
    obtain ⟨hlt, hget⟩ := List.getElem?_eq_some_iff.mp hid
    have hbefore := ih (List.getElem?_eq_getElem (Nat.lt_of_succ_lt hlt))
    have hnext : Next _ _ := List.isChain_iff_getElem.mp h i hlt
    rw [hget] at hnext
    unfold Next at hnext
    rw [hnext, hbefore]
    have hi : i + 1 < (front :: ids).length := hlt
    rw [Nat.mod_eq_of_lt (by omega)]
    rfl

/-- A turn goes at least one block ahead and not past the last one. -/
theorem nextLow_spec (hlow : low ≤ trueHigh) (hhigh : trueHigh + 1 < 2 ^ 32)
    (hzero : low = 0 → trueHigh + 2 < 2 ^ 32) :
    low < nextLow trueHigh low ∧ nextLow trueHigh low ≤ trueHigh + 1 ∧
      (low < trueHigh → nextLow trueHigh low ≤ trueHigh) := by
  have hsum : (trueHigh + 2 ^ 32 - low + 2) % 2 ^ 32 = trueHigh - low + 2 := by omega
  have hnext : (low + (trueHigh - low + 2) / 2) % 2 ^ 32 = low + (trueHigh - low + 2) / 2 := by
    omega
  unfold nextLow
  rw [hsum, hnext]
  refine ⟨?_, ?_, ?_⟩
  · omega
  · omega
  · omega

/-- What the loop adds, from `low` on. -/
structure Completes (ids : List BlockId) (first low : Nat) (missing : List BlockId) : Prop where
  ascending : Ascending missing
  above : ∀ id ∈ missing, low ≤ getBlockNumber id ∧ first ≤ getBlockNumber id
  last : missing.getLast? = ids.getLast?

theorem missingIds_more {here rest : List BlockId} {fuel : Nat} (hhere : idsAt ids first low = .ok here)
    (hnext : nextLow trueHigh low ≤ trueHigh)
    (hrest : missingIds ids first trueHigh fuel (nextLow trueHigh low) = .ok rest) :
    missingIds ids first trueHigh (fuel + 1) low = .ok (here ++ rest) := by
  rw [missingIds, bind_eq_ok]
  refine ⟨here, hhere, ?_⟩
  rw [if_pos hnext, bind_eq_ok]
  exact ⟨rest, hrest, rfl⟩

theorem missingIds_done {here : List BlockId} (hhere : idsAt ids first low = .ok here)
    (hnext : ¬ nextLow trueHigh low ≤ trueHigh) (fuel : Nat) :
    missingIds ids first trueHigh (fuel + 1) low = .ok here := by
  rw [missingIds, bind_eq_ok]
  refine ⟨here, hhere, ?_⟩
  rw [if_neg hnext]
  rfl

/-- What one turn reads is inside the list. -/
theorem idsAt_spec (h : Consecutive (front :: ids))
    (hfits : getBlockNumber front + (front :: ids).length ≤ 2 ^ 32)
    (hlow : low < getBlockNumber front + (front :: ids).length) :
    ∃ here, idsAt (front :: ids) (getBlockNumber front) low = .ok here ∧ Ascending here ∧
      ∀ id ∈ here, getBlockNumber id = low ∧ getBlockNumber front ≤ low := by
  unfold idsAt
  split
  · rename_i hfirst
    have hinside : low - getBlockNumber front < (front :: ids).length := by omega
    rw [List.getElem?_eq_getElem hinside]
    refine ⟨_, rfl, List.pairwise_singleton _ _, ?_⟩
    intro id hid
    have hnum := h.num hfits (List.getElem?_eq_getElem hinside)
    rw [List.mem_singleton.mp hid, hnum]
    exact ⟨Nat.add_sub_of_le hfirst, hfirst⟩
  · exact ⟨[], rfl, List.Pairwise.nil, fun id hid => (by cases hid)⟩

/-- The turn at the end of the list reads the last id. -/
theorem idsAt_last (hlow : low + 1 = getBlockNumber front + (front :: ids).length) :
    idsAt (front :: ids) (getBlockNumber front) low =
      .ok [(front :: ids).getLast (List.cons_ne_nil front ids)] := by
  have hlength : (front :: ids).length = ids.length + 1 := rfl
  have hindex : low - getBlockNumber front = (front :: ids).length - 1 := by omega
  unfold idsAt
  rw [if_pos (by omega), hindex, ← List.getLast?_eq_getElem?, List.getLast?_eq_some_getLast]

/-- The loop gets done, by induction on how far it has to go. -/
theorem missingIds_spec (h : Consecutive (front :: ids))
    (hfits : getBlockNumber front + (front :: ids).length < 2 ^ 32)
    (htrue : trueHigh + 1 = getBlockNumber front + (front :: ids).length) (hlow : low ≤ trueHigh)
    (hzero : low = 0 → trueHigh + 2 < 2 ^ 32) :
    ∃ fuel missing,
      missingIds (front :: ids) (getBlockNumber front) trueHigh fuel low = .ok missing ∧
        Completes (front :: ids) (getBlockNumber front) low missing := by
  have hhigh : trueHigh + 1 < 2 ^ 32 := htrue ▸ hfits
  induction hfar : trueHigh - low using Nat.strong_induction_on generalizing low with
  | _ far ih =>
    obtain ⟨hahead, hend, hinside⟩ := nextLow_spec hlow hhigh hzero
    generalize hnext : nextLow trueHigh low = next at hahead hend hinside
    rcases Nat.eq_or_lt_of_le hlow with heq | hlt
    · -- the last turn
      have hlow' : low + 1 = getBlockNumber front + (front :: ids).length := by
        rw [heq]
        exact htrue
      have hlast := idsAt_last hlow'
      refine ⟨1, [(front :: ids).getLast (List.cons_ne_nil front ids)], ?_,
        List.pairwise_singleton _ _, ?_, ?_⟩
      · have hover : ¬ next ≤ trueHigh := by omega
        exact missingIds_done hlast (hnext ▸ hover) 0
      · intro id hid
        obtain ⟨here, hhere, -, hnums⟩ := idsAt_spec h (Nat.le_of_lt hfits)
          (show low < _ by omega)
        rw [hlast] at hhere
        cases hhere
        obtain ⟨hnum, hfirst⟩ := hnums id hid
        rw [hnum]
        exact ⟨Nat.le_refl low, hfirst⟩
      · rw [List.getLast?_eq_some_getLast (List.cons_ne_nil front ids)]
        rfl
    · obtain ⟨here, hhere, hsorted, hnums⟩ := idsAt_spec h (Nat.le_of_lt hfits)
        (show low < _ by omega)
      obtain ⟨fuel, rest, hrest, hcompletes⟩ := ih (trueHigh - next) (by omega) (hinside hlt)
        (by omega) rfl
      refine ⟨fuel + 1, here ++ rest, ?_, ?_, ?_, ?_⟩
      · subst hnext
        exact missingIds_more hhere (hinside hlt) hrest
      · apply List.pairwise_append.mpr
        refine ⟨hsorted, hcompletes.ascending, ?_⟩
        intro x hx y hy
        have hnum := (hnums x hx).1
        have habove := (hcompletes.above y hy).1
        omega
      · intro id hid
        rcases List.mem_append.mp hid with hid | hid
        · obtain ⟨hnum, hfirst⟩ := hnums id hid
          rw [hnum]
          exact ⟨Nat.le_refl low, hfirst⟩
        · obtain ⟨habove, hfirst⟩ := hcompletes.above id hid
          exact ⟨by omega, hfirst⟩
      · have hlast := hcompletes.last
        rw [List.getLast?_append, hlast, List.getLast?_eq_some_getLast (List.cons_ne_nil front ids)]
        rfl

/-! ## The synopsis -/

/-- The list starts with a block and ends below the greatest number, where one more is kept from a
synopsis that starts with number 0. -/
structure HasRoom (ids synopsis : List BlockId) (first : Nat) : Prop where
  block : 0 < first
  room : first + ids.length < 2 ^ 32
  zero : lowBlockNum synopsis = 0 → first + ids.length + 1 < 2 ^ 32

/-- The delegate has answered with blocks before the list. -/
structure Precedes (synopsis : List BlockId) (first : Nat) : Prop where
  ascending : Ascending synopsis
  below : ∀ id ∈ synopsis, getBlockNumber id < first

theorem Precedes.low_lt (h : Precedes synopsis first) (hfirst : 0 < first) :
    lowBlockNum synopsis ≤ first := by
  unfold lowBlockNum
  cases synopsis with
  | nil => exact hfirst
  | cons id synopsis => exact Nat.le_of_lt (h.below id List.mem_cons_self)

/-- The synopsis of the delegate, continued. -/
theorem createSynopsis_spec (h : Consecutive (front :: ids))
    (hprecedes : Precedes synopsis (getBlockNumber front))
    (hroom : HasRoom (front :: ids) synopsis (getBlockNumber front)) :
    ∃ fuel result, createBlockchainSynopsisForPeer fuel (front :: ids) synopsis = .ok result ∧
      Summarises (front :: ids) result := by
  obtain ⟨hblock, hlist, hzero⟩ := hroom
  have hlow := hprecedes.low_lt hblock
  have hlength : 0 < (front :: ids).length := Nat.succ_pos _
  have htrue : (getBlockNumber front + (front :: ids).length - 1) % 2 ^ 32 =
      getBlockNumber front + (front :: ids).length - 1 := by
    apply Nat.mod_eq_of_lt
    omega
  have hhigh : getBlockNumber front + (front :: ids).length - 1 + 1 =
      getBlockNumber front + (front :: ids).length := by omega
  obtain ⟨fuel, missing, hmissing, hcompletes⟩ :=
    missingIds_spec h hlist hhigh (show lowBlockNum synopsis ≤ _ by omega) (fun h0 => by
      have hmore := hzero h0
      omega)
  refine ⟨fuel, synopsis ++ missing, ?_, ?_, ?_⟩
  · unfold createBlockchainSynopsisForPeer
    dsimp only
    rw [htrue, bind_eq_ok]
    exact ⟨missing, hmissing, rfl⟩
  · apply List.pairwise_append.mpr
    refine ⟨hprecedes.ascending, hcompletes.ascending, ?_⟩
    intro x hx y hy
    exact Nat.lt_of_lt_of_le (hprecedes.below x hx) (hcompletes.above y hy).2
  · rw [List.getLast?_append, hcompletes.last,
      List.getLast?_eq_some_getLast (List.cons_ne_nil front ids)]
    rfl

/-- **Listed ids.**  After any run the ids of a peer have consecutive numbers in 32 bits, and every
synopsis of the delegate that precedes them gets done and ascends to the last of them. -/
theorem synopsis_of_run (acts : List SyncPeer.Act) :
    let listed := (run SyncPeer.step {} acts).idsOfItemsToGet
    Consecutive listed ∧ ∀ front synopsis, listed.head? = some front →
      Precedes synopsis (getBlockNumber front) → HasRoom listed synopsis (getBlockNumber front) →
      ∃ fuel result, createBlockchainSynopsisForPeer fuel listed synopsis = .ok result ∧
        Summarises listed result := by
  have hlisted := SyncPeer.run_consecutive (p := {}) List.isChain_nil acts
  generalize (run SyncPeer.step {} acts).idsOfItemsToGet = listed at hlisted ⊢
  refine ⟨hlisted, ?_⟩
  intro front synopsis hfront hprecedes hroom
  cases listed with
  | nil => cases hfront
  | cons first ids =>
    cases hfront
    exact createSynopsis_spec hlisted hprecedes hroom

/-! ## Two lists -/

def nothingSeen : SyncAnswers := ⟨fun _ => false, fun _ => 0, 0, []⟩

/-- The delegate has block 1, and the peer lists the blocks from there. -/
def listFour : List SyncPeer.Act :=
  [.request 1 (.ok [⟨1, 1⟩]),
    .reply { nothingSeen with hasItem := fun id => decide (id = ⟨1, 1⟩) }
      ⟨0, [⟨1, 1⟩, ⟨2, 2⟩, ⟨3, 3⟩, ⟨4, 4⟩]⟩,
    .pop ⟨2, 2⟩]

theorem synopsis_of_run_four :
    (run SyncPeer.step {} listFour).idsOfItemsToGet = [⟨3, 3⟩, ⟨4, 4⟩] ∧
      ∃ fuel result,
        createBlockchainSynopsisForPeer fuel (run SyncPeer.step {} listFour).idsOfItemsToGet
          [⟨1, 1⟩] = .ok result ∧
        Summarises (run SyncPeer.step {} listFour).idsOfItemsToGet result := by
  have hlisted : (run SyncPeer.step {} listFour).idsOfItemsToGet = [⟨3, 3⟩, ⟨4, 4⟩] := by
    decide +kernel
  refine ⟨hlisted, (synopsis_of_run listFour).2 ⟨3, 3⟩ [⟨1, 1⟩] ?_ ?_ ?_⟩
  · rw [hlisted]
    rfl
  · refine ⟨List.pairwise_singleton _ _, ?_⟩
    intro id hid
    rw [List.mem_singleton.mp hid]
    decide
  · rw [hlisted]
    exact ⟨by decide, by decide, by decide⟩

/-- The ids of a block with the greatest number, of the one before and of one that follows it in
32 bits. -/
def greatest : BlockId := ⟨2 ^ 32 - 1, 7⟩

def lastButOne : BlockId := ⟨2 ^ 32 - 2, 6⟩

def wrapped : BlockId := ⟨0, 8⟩

/-- A turn that goes nowhere is taken for ever. -/
theorem missingIds_stuck (hnext : nextLow trueHigh low = low) (hlow : low ≤ trueHigh) (fuel : Nat)
    (missing : List BlockId) : missingIds ids first trueHigh fuel low ≠ .ok missing := by
  induction fuel generalizing missing with
  | zero =>
    intro h
    cases h
  | succ fuel ih =>
    intro h
    rw [missingIds, bind_eq_ok] at h
    obtain ⟨here, -, h⟩ := h
    rw [hnext, if_pos hlow, bind_eq_ok] at h
    obtain ⟨rest, hrest, -⟩ := h
    exact ih rest hrest

theorem createSynopsis_stuck {x : BlockId}
    (hnext : nextLow (getBlockNumber x) (lowBlockNum synopsis) = lowBlockNum synopsis)
    (hlow : lowBlockNum synopsis ≤ getBlockNumber x) :
    ¬ ∃ fuel result, createBlockchainSynopsisForPeer fuel [x] synopsis = .ok result := by
  rintro ⟨fuel, result, h⟩
  have hlt : getBlockNumber x < 2 ^ 32 := Nat.mod_lt _ (by decide)
  have htrue : (getBlockNumber x + [x].length - 1) % 2 ^ 32 = getBlockNumber x := by
    rw [List.length_singleton, Nat.add_sub_cancel, Nat.mod_eq_of_lt hlt]
  unfold createBlockchainSynopsisForPeer at h
  dsimp only at h
  rw [htrue, bind_eq_ok] at h
  obtain ⟨missing, hmissing, -⟩ := h
  exact missingIds_stuck hnext hlow fuel missing hmissing

/-- At the greatest number the next block has number 0.  A synopsis for a list that ends there does
not get done, nor, if it starts with number 0, for one that ends at the number before, and the list
of a block with number 0 is read outside. -/
theorem synopsis_unfinished :
    ((run SyncPeer.step {} [.request 1 (.ok [greatest]),
        .reply nothingSeen ⟨0, [greatest, wrapped]⟩]).idsOfItemsToGet.map getBlockNumber =
      [2 ^ 32 - 1, 0]) ∧
      (¬ ∃ fuel result, createBlockchainSynopsisForPeer fuel [greatest] [] = .ok result) ∧
      (¬ ∃ fuel result, createBlockchainSynopsisForPeer fuel [lastButOne] [wrapped] = .ok result) ∧
      createBlockchainSynopsisForPeer 1 [wrapped] [] = .error .outOfRange := by
  refine ⟨by decide +kernel, ?_, ?_, by rfl⟩
  · exact createSynopsis_stuck (by decide) (by decide)
  · exact createSynopsis_stuck (by decide) (by decide)

end VizCore.Network
