import VizCore.Network.Delegate

/-!
# Passing on messages

What a node does with the messages that its peers advertise, send and ask for: the inventory, the
message cache, and the handlers of ordinary messages and of blocks in normal operation.

* `processing_running`: as long as the delegate takes every block, the messages that count as
  being processed are those of running calls;
* `unlinkable_never_restarts`: a block whose parent is unknown never restarts synchronisation;
* `postValidation_relayed_iff`: when a post-validation message is passed on only if it is signed
  by the witness that it names.
-/

namespace VizCore.Network

open VizCore.Lib VizCore.Protocol VizCore.Chain

/-- An entry of `blockchain_tied_message_cache`. -/
structure MessageInfo where
  messageHash : ItemHash
  messageBody : Packet
  blockClockWhenReceived : Nat

/-- `GRAPHENE_NET_MESSAGE_CACHE_DURATION_IN_BLOCKS` -/
def cacheDurationInBlocks : Nat := 5

/-- A `queued_message`: an item that is looked up when it is sent, or a message. -/
inductive QueuedMessage
  | item (id : BlockId)
  | message (p : Packet)

/-- The node with what it passes on.  The items requested from a peer that are blocks are in its
`Offers`, the others in `itemsRequested`.  `syncRestarts` lists the peers with which
synchronisation was started again. -/
structure Relay extends Intake where
  messageIdsCurrentlyBeingProcessed : List ItemHash := []
  messageCache : List MessageInfo := []
  blockClock : Nat := 0
  newInventory : List ItemId := []
  itemsToFetch : List ItemId := []
  recentlyFailedItems : List ItemId := []
  itemsRequested : ConnId → List ItemId := fun _ => []
  inventoryAdvertisedToPeer : ConnId → List ItemId := fun _ => []
  inventoryPeerAdvertisedToUs : ConnId → List ItemId := fun _ => []
  queuedMessages : ConnId → List QueuedMessage := fun _ => []
  lastBlockDelegateHasSeen : ConnId → BlockId := fun _ => ⟨0, 0⟩
  lastBlockTimeDelegateHasSeen : ConnId → TimePointSec := fun _ => 0
  syncRestarts : List ConnId := []

namespace Relay

variable (packetHash : Packet → ItemHash)

/-! ## The message cache -/

/-- `block_accepted` of the cache -/
def blockAccepted (s : Relay) : Relay :=
  let clock := s.blockClock + 1
  { s with
    blockClock := clock
    messageCache :=
      if cacheDurationInBlocks < clock then
        s.messageCache.filter fun i =>
          decide (clock - cacheDurationInBlocks ≤ i.blockClockWhenReceived)
      else s.messageCache }

/-- `get_message` of the cache -/
def getMessage (s : Relay) (hash : ItemHash) : Option Packet :=
  (s.messageCache.find? (·.messageHash = hash)).map (·.messageBody)

/-- `cache_message`: a second message with the same hash is not inserted. -/
def cacheMessage (p : Packet) (s : Relay) : Relay :=
  { s with
    messageCache :=
      if (s.getMessage (packetHash p)).isSome then s.messageCache
      else s.messageCache ++ [⟨packetHash p, p, s.blockClock⟩] }

/-- The message is kept for those who ask for it, and put in the inventory. -/
def announce (p : Packet) (s : Relay) : Relay :=
  let s := s.cacheMessage packetHash p
  { s with newInventory := s.newInventory.insert ⟨p.msgType, packetHash p⟩ }

/-- `broadcast` -/
def broadcast (p : Packet) (s : Relay) : Relay :=
  match p with
  | .block m => announce packetHash p { s with toIntake := s.toIntake.broadcast m.blockId }
  | _ => s.announce packetHash p

/-! ## Blocks in normal operation -/

/-- `message.id()` of a block message -/
def blockHash (m : BlockMessage) : ItemHash := packetHash (.block m)

/-- `process_block_during_normal_operation` up to the delegate. -/
def processBlockDuringNormalOperation (c : ConnId) (m : BlockMessage) (s : Relay) : Relay :=
  let intake := s.toIntake.processBlockDuringNormalOperation c m
  if m.blockId ∈ s.mostRecentBlocksAccepted then
    blockAccepted (announce packetHash (.block m) { s with toIntake := intake })
  else
    { s with
      toIntake := intake
      messageIdsCurrentlyBeingProcessed :=
        s.messageIdsCurrentlyBeingProcessed.insert (blockHash packetHash m) }

/-- `start_synchronizing_with_peer` -/
def startSynchronizingWithPeer (c : ConnId) (s : Relay) : Relay :=
  { s with
    toIntake := s.toIntake.setOffers c { s.peers c with idsOfItemsToGet := [] }
    syncRestarts := c :: s.syncRestarts }

/-- The rest of it, when the delegate has returned (`none`) or thrown. -/
def endNormalCall (i : Nat) (thrown : Option ExceptionClass) (s : Relay) : Relay :=
  match s.normalCalls[i]? with
  | none => s
  | some (c, m) =>
    match thrown with
    | none =>
      let s : Relay := { s with
        toIntake := s.toIntake.endNormalCall i .accepted
        messageIdsCurrentlyBeingProcessed :=
          s.messageIdsCurrentlyBeingProcessed.filter (· ≠ blockHash packetHash m) }
      blockAccepted (s.announce packetHash (.block m))
    | some e =>
      if e.caughtBy .canceled then { s with toIntake := s.toIntake.endNormalCall i .unlinkable }
      else if e.caughtBy .networkUnlinkableBlock then
        startSynchronizingWithPeer c { s with toIntake := s.toIntake.endNormalCall i .unlinkable }
      else { s with toIntake := s.toIntake.endNormalCall i .rejected }

/-- `process_block_message` -/
def processBlockMessage (c : ConnId) (m : BlockMessage) (s : Relay) : Relay :=
  let p := s.peers c
  let hash := blockHash packetHash m
  if hash ∈ p.itemsRequestedFromPeer then
    processBlockDuringNormalOperation packetHash c m { s with
      toIntake := s.toIntake.setOffers c
        { p with itemsRequestedFromPeer := p.itemsRequestedFromPeer.erase hash } }
  else { s with toIntake := s.toIntake.processBlockMessage (blockHash packetHash) c m }

/-! ## Other messages -/

/-- The item is not requested from the peer any more. -/
def eraseRequest (c : ConnId) (item : ItemId) (s : Relay) : Relay :=
  let items := (s.itemsRequested c).erase item
  { s with itemsRequested := Function.update s.itemsRequested c items }

/-- `process_ordinary_message` -/
def processOrdinaryMessage (client : Client) (c : ConnId) (p : Packet) (s : Relay)
    (n : Chain.Node) : Relay × Chain.Node :=
  let item : ItemId := ⟨p.msgType, packetHash p⟩
  if item ∉ s.itemsRequested c then ({ s with toIntake := s.toIntake.disconnectFromPeer c }, n)
  else
    let s := s.eraseRequest c item
    let result :=
      match p with
      | .trx t => client.handleTransaction n t
      | p => client.handleMessage n p
    match result with
    | .ok n => (s.broadcast packetHash p, n)
    | .error (e, n) =>
      if e.caughtBy .canceled then (s, n)
      else ({ s with recentlyFailedItems := s.recentlyFailedItems.insert item }, n)

/-! ## The inventory of a peer -/

/-- `is_inventory_advertised_to_us_list_full_for_transactions` -/
def maxTransactionsAdvertised : Nat := 2 * 1000 * 60

/-- `is_inventory_advertised_to_us_list_full` -/
def maxAdvertised : Nat := maxTransactionsAdvertised + (2 + 1) * 60 / 3

def isListFull (itemType : Nat) (advertised : List ItemId) : Bool :=
  itemType = trxMessageType ∧ maxTransactionsAdvertised < advertised.length ∨
    maxAdvertised < advertised.length

/-- Whether the node asked one of its active peers for the item. -/
def isRequested (s : Relay) (item : ItemId) : Bool :=
  s.activeConnections.any fun d =>
    item ∈ s.itemsRequested d ∨
      item.itemType = blockMessageType ∧ item.itemHash ∈ (s.peers d).itemsRequestedFromPeer

/-- The peer has advertised the item. -/
def noteAdvertised (c : ConnId) (item : ItemId) (s : Relay) : Relay :=
  let items := (s.inventoryPeerAdvertisedToUs c).insert item
  { s with inventoryPeerAdvertisedToUs := Function.update s.inventoryPeerAdvertisedToUs c items }

/-- One item of `on_item_ids_inventory_message`, and whether the loop goes on. -/
def onItemId (c : ConnId) (itemType : Nat) (hash : ItemHash) (s : Relay) : Relay × Bool :=
  let item : ItemId := ⟨itemType, hash⟩
  if hash ∈ s.messageIdsCurrentlyBeingProcessed then (s, true)
  else if item ∈ s.newInventory then (s, true)
  else if s.activeConnections.any fun d => item ∈ s.inventoryAdvertisedToPeer d then (s, true)
  else if isListFull itemType (s.inventoryPeerAdvertisedToUs c) then (s, false)
  else
    let s := s.noteAdvertised c item
    if s.isRequested item ∨ item ∈ s.recentlyFailedItems then (s, true)
    else ({ s with itemsToFetch := s.itemsToFetch.insert item }, true)

/-- `on_item_ids_inventory_message`; what is old has been cleared. -/
def onItemIdsInventoryMessage (c : ConnId) (itemType : Nat) : List ItemHash → Relay → Relay
  | [], s => s
  | hash :: rest, s =>
    match s.onItemId c itemType hash with
    | (s, true) => onItemIdsInventoryMessage c itemType rest s
    | (s, false) => s

/-! ## Steps -/

/-- What concerns the calls of `process_block_during_normal_operation`.  `others` is whatever the
other handlers and tasks do: they leave the calls and the ids of their messages alone. -/
inductive Act
  | blockMessage (c : ConnId) (m : BlockMessage)
  | endNormalCall (i : Nat) (thrown : Option ExceptionClass)
  | others (t : Relay)

def step (s : Relay) : Act → Relay
  | .blockMessage c m => s.processBlockMessage packetHash c m
  | .endNormalCall i thrown => s.endNormalCall packetHash i thrown
  | .others t =>
    { t with
      normalCalls := s.normalCalls
      messageIdsCurrentlyBeingProcessed := s.messageIdsCurrentlyBeingProcessed }

/-- The delegate takes the block of a call that ends. -/
def Succeeds (_ : Relay) : Act → Prop
  | .endNormalCall _ thrown => thrown = none
  | _ => True

/-- A call for a message with the hash waits for the delegate. -/
def Running (s : Relay) (hash : ItemHash) : Prop :=
  ∃ c m, (c, m) ∈ s.normalCalls ∧ blockHash packetHash m = hash

/-- Every message that counts as being processed is processed by a running call. -/
def ProcessingRuns (s : Relay) : Prop :=
  ∀ hash ∈ s.messageIdsCurrentlyBeingProcessed, s.Running packetHash hash

variable {packetHash} {s s' : Relay} {c : ConnId} {m : BlockMessage} {hash : ItemHash}

/-! ## What other handlers leave alone -/

/-- The calls and the ids of their messages are the same. -/
def SameCalls (s s' : Relay) : Prop :=
  s'.normalCalls = s.normalCalls ∧
    s'.messageIdsCurrentlyBeingProcessed = s.messageIdsCurrentlyBeingProcessed

theorem SameCalls.runs (h : SameCalls s s') (hruns : s.ProcessingRuns packetHash) :
    s'.ProcessingRuns packetHash := by
  intro hash hmem
  rw [h.2] at hmem
  obtain ⟨c, m, hcall, hm⟩ := hruns hash hmem
  refine ⟨c, m, ?_, hm⟩
  rw [h.1]
  exact hcall

/-! ## The messages being processed -/

theorem processBlockDuringNormalOperation_runs (h : s.ProcessingRuns packetHash) :
    (s.processBlockDuringNormalOperation packetHash c m).ProcessingRuns packetHash := by
  unfold processBlockDuringNormalOperation Intake.processBlockDuringNormalOperation
  dsimp only
  by_cases hknown : m.blockId ∈ s.mostRecentBlocksAccepted
  · rw [if_pos hknown, if_pos hknown]
    have hsame : SameCalls s (blockAccepted (announce packetHash (.block m)
        { s with toIntake := s.toIntake.broadcast m.blockId })) := ⟨rfl, rfl⟩
    exact hsame.runs h
  · rw [if_neg hknown, if_neg hknown]
    intro hash hmem
    rcases List.mem_insert_iff.mp hmem with hnew | hold
    · exact ⟨c, m, List.mem_append_right _ (List.mem_singleton_self _), hnew.symm⟩
    · obtain ⟨c', m', hcall, hm'⟩ := h hash hold
      exact ⟨c', m', List.mem_append_left _ hcall, hm'⟩

theorem processBlockMessage_runs (h : s.ProcessingRuns packetHash) :
    (s.processBlockMessage packetHash c m).ProcessingRuns packetHash := by
  unfold processBlockMessage
  dsimp only
  split
  · apply processBlockDuringNormalOperation_runs
    exact SameCalls.runs (s := s) ⟨rfl, rfl⟩ h
  · rename_i hrequested
    refine SameCalls.runs (s := s) ⟨?_, rfl⟩ h
    show (s.toIntake.processBlockMessage (blockHash packetHash) c m).normalCalls = s.normalCalls
    unfold Intake.processBlockMessage
    dsimp only
    rw [if_neg hrequested]
    split <;> rfl

/-- A call that ends leaves the others. -/
theorem endNormalCall_normalCalls {i : Nat} {outcome : Outcome} {intake : Intake} :
    (intake.endNormalCall i outcome).normalCalls =
      if (intake.normalCalls[i]?).isSome then intake.normalCalls.eraseIdx i
      else intake.normalCalls := by
  unfold Intake.endNormalCall
  cases hcall : intake.normalCalls[i]? with
  | none => rfl
  | some call =>
    obtain ⟨c, m⟩ := call
    cases outcome <;> rfl

theorem endNormalCall_accepted_runs {i : Nat} (h : s.ProcessingRuns packetHash) :
    (s.endNormalCall packetHash i none).ProcessingRuns packetHash := by
  unfold endNormalCall
  cases hcall : s.normalCalls[i]? with
  | none => exact h
  | some call =>
    obtain ⟨c, m⟩ := call
    intro hash hmem
    obtain ⟨hold, hne⟩ := List.mem_filter.mp hmem
    obtain ⟨c', m', hcall', hm'⟩ := h hash hold
    refine ⟨c', m', ?_, hm'⟩
    show (c', m') ∈ (s.toIntake.endNormalCall i .accepted).normalCalls
    rw [endNormalCall_normalCalls, hcall]
    -- the call that has ended was for another message
    rw [Option.isSome_some, if_pos rfl, List.mem_eraseIdx_iff_getElem?]
    obtain ⟨j, hj⟩ := List.getElem?_of_mem hcall'
    refine ⟨j, ?_, hj⟩
    intro heq
    rw [heq, hcall] at hj
    cases hj
    exact absurd hm' (fun hsame => of_decide_eq_true hne hsame.symm)

theorem step_runs {act : Act} (h : s.ProcessingRuns packetHash) (hok : s.Succeeds act) :
    (s.step packetHash act).ProcessingRuns packetHash := by
  cases act with
  | blockMessage c m => exact processBlockMessage_runs h
  | endNormalCall i thrown =>
    have hnone : thrown = none := hok
    rw [hnone]
    exact endNormalCall_accepted_runs h
  | others t => exact SameCalls.runs (s := s) ⟨rfl, rfl⟩ h

/-- **Messages being processed.**  In every run in which the delegate takes the block of every
call that ends, a message counts as being processed only while a call for it is running. -/
theorem processing_running {acts : List Act}
    (h : Guarded (step packetHash) Succeeds {} acts) :
    (run (step packetHash) {} acts).ProcessingRuns packetHash :=
  run_invariant (I := ProcessingRuns packetHash) (fun _ hmem => nomatch hmem)
    (fun _ _ hruns hok => step_runs hruns hok) h

/-- A call that ends with an exception leaves its message among those being processed. -/
theorem endNormalCall_remembers_iff {i : Nat} {thrown : Option ExceptionClass}
    (hcall : s.normalCalls[i]? = some (c, m))
    (hmem : blockHash packetHash m ∈ s.messageIdsCurrentlyBeingProcessed) :
    blockHash packetHash m ∈
        (s.endNormalCall packetHash i thrown).messageIdsCurrentlyBeingProcessed ↔
      thrown ≠ none := by
  unfold endNormalCall
  simp only [hcall]
  cases thrown with
  | none =>
    constructor
    · intro hkept
      exact absurd rfl (of_decide_eq_true (List.mem_filter.mp hkept).2)
    · intro hne
      exact absurd rfl hne
  | some e =>
    refine ⟨fun _ => Option.some_ne_none e, fun _ => ?_⟩
    dsimp only
    split
    · exact hmem
    · split
      · exact hmem
      · exact hmem

/-- A message that counts as being processed is ignored when it is advertised. -/
theorem onItemId_ignores (itemType : Nat)
    (hmem : hash ∈ s.messageIdsCurrentlyBeingProcessed) :
    s.onItemId c itemType hash = (s, true) := by
  unfold onItemId
  rw [if_pos hmem]

/-- A peer sends a block that was requested from it. -/
def oneBlockMessage : BlockMessage := ⟨smallBlock [], ⟨11, 77⟩⟩

def oneHash : Packet → ItemHash := fun _ => 7

def oneRequest : Relay :=
  { activeConnections := [0], peers := fun _ => { itemsRequestedFromPeer := [7] } }

theorem processing_running_one :
    (run (step oneHash) {} [.others oneRequest, .blockMessage 0 oneBlockMessage,
      .endNormalCall 0 none]).ProcessingRuns oneHash :=
  processing_running ⟨trivial, trivial, rfl, trivial⟩

/-- The delegate refuses the block: no call is running, and the message is ignored for ever. -/
theorem processing_leaks :
    let s := run (step oneHash) {} [.others oneRequest, .blockMessage 0 oneBlockMessage,
      .endNormalCall 0 (some .exception)]
    s.normalCalls = [] ∧ 7 ∈ s.messageIdsCurrentlyBeingProcessed ∧
      ¬ s.ProcessingRuns oneHash ∧
      (s.onItemIdsInventoryMessage 1 blockMessageType [7]).itemsToFetch = [] := by
  have hcalls : (run (step oneHash) {} [.others oneRequest, .blockMessage 0 oneBlockMessage,
      .endNormalCall 0 (some .exception)]).normalCalls = [] := rfl
  have hmem : 7 ∈ (run (step oneHash) {} [.others oneRequest, .blockMessage 0 oneBlockMessage,
      .endNormalCall 0 (some .exception)]).messageIdsCurrentlyBeingProcessed := by decide +kernel
  refine ⟨hcalls, hmem, ?_, ?_⟩
  · intro hruns
    obtain ⟨c, m, hcall, -⟩ := hruns 7 hmem
    rw [hcalls] at hcall
    cases hcall
  · unfold onItemIdsInventoryMessage
    rw [onItemId_ignores blockMessageType hmem]
    rfl

/-! ## Blocks that do not link -/

/-- The exception that `handle_block` throws, if any. -/
def thrownBy (client : Client) (now : TimePointSec) (n : Chain.Node) (m : BlockMessage) :
    Option ExceptionClass :=
  match client.handleBlock now n m with
  | .ok _ => none
  | .error (e, _) => some e

/-- Synchronisation with the peer has been started again, and it is still connected. -/
def RestartsSync (s s' : Relay) (c : ConnId) : Prop :=
  s'.syncRestarts.count c = s.syncRestarts.count c + 1 ∧ c ∈ s'.activeConnections

theorem endNormalCall_syncRestarts {i : Nat} {thrown : Option ExceptionClass}
    (h : thrown ≠ some .networkUnlinkableBlock) :
    (s.endNormalCall packetHash i thrown).syncRestarts = s.syncRestarts := by
  unfold endNormalCall
  split
  · rfl
  · cases thrown with
    | none => rfl
    | some e =>
      dsimp only
      split
      · rfl
      · split
        · rename_i hlink
          cases e <;> simp [ExceptionClass.caughtBy] at hlink h
        · rfl

theorem thrownBy_ne (client : Client) (now : TimePointSec) (n : Chain.Node) (m : BlockMessage) :
    thrownBy client now n m ≠ some .networkUnlinkableBlock ∧
      thrownBy client now n m ≠ some .canceled := by
  unfold thrownBy
  split
  · exact ⟨by simp, by simp⟩
  · rename_i e n' hthrown
    obtain ⟨hlink, hcanceled⟩ := handleBlock_class hthrown
    exact ⟨fun heq => hlink (Option.some.inj heq), fun heq => hcanceled (Option.some.inj heq)⟩

/-- The peer that sent a rejected block is disconnected. -/
theorem endNormalCall_rejected {i : Nat} {intake : Intake}
    (hcall : intake.normalCalls[i]? = some (c, m)) :
    c ∉ (intake.endNormalCall i .rejected).activeConnections := by
  unfold Intake.endNormalCall
  simp only [hcall]
  intro hmem
  have hactive := (List.mem_filter.mp hmem).1
  exact absurd rfl (of_decide_eq_true (List.mem_filter.mp hactive).2)

theorem processBlockDuringNormalOperation_syncRestarts :
    (s.processBlockDuringNormalOperation packetHash c m).syncRestarts = s.syncRestarts := by
  unfold processBlockDuringNormalOperation
  dsimp only
  split <;> rfl

/-- **A block that does not link.**  Whatever the chain and the fork database, a block of a peer
in normal operation never restarts synchronisation with it; if its parent is unknown, the peer is
disconnected. -/
theorem unlinkable_never_restarts {i : Nat} (client : Client) (now : TimePointSec)
    (n : Chain.Node) (hcall : s.normalCalls[i]? = some (c, m)) :
    ¬ RestartsSync s (s.processBlockDuringNormalOperation packetHash c m) c ∧
      ¬ RestartsSync s (s.endNormalCall packetHash i (thrownBy client now n m)) c ∧
      (ParentUnknown n.forkDb m.block →
        c ∉ (s.endNormalCall packetHash i (thrownBy client now n m)).activeConnections) := by
  refine ⟨?_, ?_, ?_⟩
  · intro hrestarts
    have hcount := hrestarts.1
    rw [processBlockDuringNormalOperation_syncRestarts] at hcount
    omega
  · intro hrestarts
    have hcount := hrestarts.1
    rw [endNormalCall_syncRestarts (thrownBy_ne client now n m).1] at hcount
    omega
  · intro hunknown
    obtain ⟨e, n', he⟩ := handleBlock_parentUnknown client now hunknown
    have hthrown : thrownBy client now n m = some e := by
      unfold thrownBy
      rw [he]
    have hclass := handleBlock_class he
    have hcanceled : e.caughtBy .canceled = false := by
      cases e <;> simp [ExceptionClass.caughtBy] at hclass ⊢
    have hlink : e.caughtBy .networkUnlinkableBlock = false := by
      cases e <;> simp [ExceptionClass.caughtBy] at hclass ⊢
    rw [hthrown]
    unfold endNormalCall
    simp only [hcall, hcanceled, hlink, Bool.false_eq_true, if_false]
    exact endNormalCall_rejected hcall

def orphan : BlockMessage := ⟨{ smallBlock [] with previous := ⟨10, 99⟩ }, ⟨11, 78⟩⟩

def orphanCall : Relay := { activeConnections := [0], normalCalls := [(0, orphan)] }

/-- A chain whose fork database has the block with the number 10. -/
def orphanChain : Chain.Node :=
  { toStore := { smallStore [] with
    forkDb := ({} : ForkDb).startBlock smallEnv { smallBlock [] with previous := ⟨9, 29⟩ } } }

def smallClient : Client :=
  { env := smallEnv, fuel := 2, budget := 2, recover := fun _ signature => some signature
    packedTrx := fun _ => ⟨⟨0, 0, 0, []⟩, []⟩ }

theorem orphan_parentUnknown : ParentUnknown orphanChain.forkDb orphan.block := by
  constructor
  · exact ⟨_, rfl, by decide +kernel⟩
  · decide
  · rfl

theorem unlinkable_never_restarts_orphan :
    ¬ RestartsSync orphanCall (orphanCall.processBlockDuringNormalOperation oneHash 0 orphan) 0 ∧
      ¬ RestartsSync orphanCall
        (orphanCall.endNormalCall oneHash 0 (thrownBy smallClient 33 orphanChain orphan)) 0 ∧
      0 ∉ (orphanCall.endNormalCall oneHash 0
        (thrownBy smallClient 33 orphanChain orphan)).activeConnections := by
  have hcall : orphanCall.normalCalls[0]? = some (0, orphan) := rfl
  obtain ⟨hfirst, hend, hgone⟩ := unlinkable_never_restarts smallClient 33 orphanChain hcall
  exact ⟨hfirst, hend, hgone orphan_parentUnknown⟩

/-- The peer that sent a block without a parent is disconnected. -/
theorem orphan_disconnects :
    ParentUnknown orphanChain.forkDb orphan.block ∧ 0 ∈ orphanCall.activeConnections ∧
      ¬ RestartsSync orphanCall
        (orphanCall.endNormalCall oneHash 0 (thrownBy smallClient 33 orphanChain orphan)) 0 := by
  have hthrown : thrownBy smallClient 33 orphanChain orphan = some .exception := by decide +kernel
  refine ⟨orphan_parentUnknown, List.mem_singleton_self 0, ?_⟩
  intro hrestarts
  rw [hthrown] at hrestarts
  exact absurd hrestarts.2 (by decide +kernel)

/-! ## Post-validation messages -/

/-- The signature of the message belongs to the signing key of the witness that it names. -/
def SignedByWitness (client : Client) (n : Chain.Node) (v : BlockPostValidationMessage) : Prop :=
  ∃ w, n.db.findWitness v.witnessAccount = some w ∧
    client.recover v.blockId v.witnessSignature = some w.signingKey

/-- A message that is not signed by its witness changes neither the chain nor what the node
passes on. -/
def RelaysOnlySigned (packetHash : Packet → ItemHash) (client : Client) (c : ConnId)
    (v : BlockPostValidationMessage) (s : Relay) (n : Chain.Node) : Prop :=
  ¬ SignedByWitness client n v →
    let (s', n') := s.processOrdinaryMessage packetHash client c (.postValidation v) n
    n' = n ∧ s'.messageCache = s.messageCache ∧ s'.newInventory = s.newInventory

/-- The message was requested, and its signature belongs to another key. -/
def Forged (packetHash : Packet → ItemHash) (client : Client) (c : ConnId)
    (v : BlockPostValidationMessage) (s : Relay) (n : Chain.Node) : Prop :=
  ⟨blockPostValidationMessageType, packetHash (.postValidation v)⟩ ∈ s.itemsRequested c ∧
    ∃ w key, n.db.findWitness v.witnessAccount = some w ∧
      client.recover v.blockId v.witnessSignature = some key ∧ w.signingKey ≠ key

/-- The message is in the cache and in the inventory already. -/
def Announced (packetHash : Packet → ItemHash) (v : BlockPostValidationMessage) (s : Relay) :
    Prop :=
  (s.getMessage (packetHash (.postValidation v))).isSome = true ∧
    ⟨blockPostValidationMessageType, packetHash (.postValidation v)⟩ ∈ s.newInventory

/-- The message of another key is passed on. -/
theorem processOrdinaryMessage_otherKey {client : Client} {v : BlockPostValidationMessage}
    {n : Chain.Node} {w : WitnessObject} {key : PublicKey}
    (hrequested : ⟨blockPostValidationMessageType, packetHash (.postValidation v)⟩ ∈
      s.itemsRequested c)
    (hw : n.db.findWitness v.witnessAccount = some w)
    (hkey : client.recover v.blockId v.witnessSignature = some key) (hne : w.signingKey ≠ key) :
    s.processOrdinaryMessage packetHash client c (.postValidation v) n =
      ((s.eraseRequest c ⟨blockPostValidationMessageType, packetHash (.postValidation v)⟩).broadcast
        packetHash (.postValidation v), n) := by
  have hhandled : client.handleMessage n (.postValidation v) = .ok n := by
    unfold Client.handleMessage
    simp only [hkey, hw, if_neg hne]
  unfold processOrdinaryMessage
  dsimp only [Packet.msgType]
  rw [if_neg (not_not_intro hrequested), hhandled]

/-- A message that the delegate throws at is not passed on. -/
theorem processOrdinaryMessage_thrown {client : Client} {v : BlockPostValidationMessage}
    {n n' : Chain.Node} {e : ExceptionClass}
    (hrequested : ⟨blockPostValidationMessageType, packetHash (.postValidation v)⟩ ∈
      s.itemsRequested c)
    (hhandled : client.handleMessage n (.postValidation v) = .error (e, n')) :
    (s.processOrdinaryMessage packetHash client c (.postValidation v) n).2 = n' ∧
      (s.processOrdinaryMessage packetHash client c (.postValidation v) n).1.messageCache =
        s.messageCache ∧
      (s.processOrdinaryMessage packetHash client c (.postValidation v) n).1.newInventory =
        s.newInventory := by
  unfold processOrdinaryMessage
  dsimp only [Packet.msgType]
  rw [if_neg (not_not_intro hrequested), hhandled]
  dsimp only
  split <;> exact ⟨rfl, rfl, rfl⟩

theorem broadcast_unchanged {v : BlockPostValidationMessage} {item : ItemId}
    (h : ((s.eraseRequest c item).broadcast packetHash (.postValidation v)).messageCache =
        s.messageCache ∧
      ((s.eraseRequest c item).broadcast packetHash (.postValidation v)).newInventory =
        s.newInventory) : Announced packetHash v s := by
  obtain ⟨hcache, hinventory⟩ := h
  constructor
  · by_contra hnew
    have hlength := congrArg List.length hcache
    have happended : ((s.eraseRequest c item).broadcast packetHash (.postValidation v)).messageCache =
        s.messageCache ++ [⟨packetHash (.postValidation v), .postValidation v, s.blockClock⟩] :=
      if_neg hnew
    rw [happended, List.length_append] at hlength
    simp at hlength
  · have hinserted : ((s.eraseRequest c item).broadcast packetHash (.postValidation v)).newInventory =
        s.newInventory.insert
          ⟨blockPostValidationMessageType, packetHash (.postValidation v)⟩ := rfl
    rw [hinserted] at hinventory
    rw [← hinventory]
    exact List.mem_insert_self

theorem announced_broadcast {v : BlockPostValidationMessage} {item : ItemId}
    (h : Announced packetHash v s) :
    ((s.eraseRequest c item).broadcast packetHash (.postValidation v)).messageCache =
        s.messageCache ∧
      ((s.eraseRequest c item).broadcast packetHash (.postValidation v)).newInventory =
        s.newInventory :=
  ⟨if_pos h.1, List.insert_of_mem h.2⟩

/-- **Post-validation messages.**  A message that is not signed by its witness is passed on exactly
where it was requested and has a signature of another key. -/
theorem postValidation_relayed_iff (packetHash : Packet → ItemHash) (client : Client) (c : ConnId)
    (v : BlockPostValidationMessage) (s : Relay) (n : Chain.Node) :
    RelaysOnlySigned packetHash client c v s n ↔
      ¬ Forged packetHash client c v s n ∨ Announced packetHash v s := by
  constructor
  · intro honly
    by_contra hforged
    rw [not_or, not_not] at hforged
    obtain ⟨⟨hrequested, w, key, hw, hkey, hne⟩, hnew⟩ := hforged
    have hunsigned : ¬ SignedByWitness client n v := by
      rintro ⟨w', hw', hkey'⟩
      rw [hw] at hw'
      cases hw'
      rw [hkey] at hkey'
      exact hne (Option.some.inj hkey').symm
    have hrelayed := honly hunsigned
    rw [processOrdinaryMessage_otherKey hrequested hw hkey hne] at hrelayed
    exact hnew (broadcast_unchanged hrelayed.2)
  · intro h hunsigned
    by_cases hrequested : ⟨blockPostValidationMessageType, packetHash (.postValidation v)⟩ ∈
        s.itemsRequested c
    · cases hkey : client.recover v.blockId v.witnessSignature with
      | none =>
        refine processOrdinaryMessage_thrown (e := .derived) hrequested ?_
        unfold Client.handleMessage
        simp only [hkey]
      | some key =>
        cases hw : n.db.findWitness v.witnessAccount with
        | none =>
          refine processOrdinaryMessage_thrown (e := .derived) hrequested ?_
          unfold Client.handleMessage
          simp only [hkey, hw]
        | some w =>
          have hne : w.signingKey ≠ key := by
            intro heq
            exact hunsigned ⟨w, hw, hkey.trans (congrArg some heq.symm)⟩
          rw [processOrdinaryMessage_otherKey hrequested hw hkey hne]
          have hannounced : Announced packetHash v s := by
            cases h with
            | inl hforged => exact absurd ⟨hrequested, w, key, hw, hkey, hne⟩ hforged
            | inr hannounced => exact hannounced
          exact ⟨rfl, announced_broadcast hannounced⟩
    · unfold processOrdinaryMessage
      dsimp only [Packet.msgType]
      rw [if_pos hrequested]
      exact ⟨rfl, rfl, rfl⟩

/-- Somebody signs with the key 9 for the witness alice, whose key is 7. -/
def forgery : BlockPostValidationMessage := ⟨⟨11, 77⟩, "alice", 9⟩

def forgeryRequest : Relay :=
  { activeConnections := [0], itemsRequested := fun _ => [⟨blockPostValidationMessageType, 7⟩] }

/-- The forgery is put in the inventory. -/
theorem forgery_relayed :
    ¬ SignedByWitness smallClient orphanChain forgery ∧
      ⟨blockPostValidationMessageType, 7⟩ ∈ (forgeryRequest.processOrdinaryMessage oneHash
        smallClient 0 (.postValidation forgery) orphanChain).1.newInventory ∧
      ¬ RelaysOnlySigned oneHash smallClient 0 forgery forgeryRequest orphanChain := by
  have hw : orphanChain.db.findWitness "alice" =
      some { id := 0, owner := "alice", signingKey := 7 } := rfl
  have hunsigned : ¬ SignedByWitness smallClient orphanChain forgery := by
    rintro ⟨w, hw', hkey⟩
    have heq := Option.some.inj (hw.symm.trans hw')
    rw [← heq] at hkey
    exact absurd (Option.some.inj hkey) (by decide)
  have hinventory : ⟨blockPostValidationMessageType, 7⟩ ∈ (forgeryRequest.processOrdinaryMessage
      oneHash smallClient 0 (.postValidation forgery) orphanChain).1.newInventory := by
    decide +kernel
  refine ⟨hunsigned, hinventory, ?_⟩
  intro honly
  have hsame : (forgeryRequest.processOrdinaryMessage oneHash smallClient 0
      (.postValidation forgery) orphanChain).1.newInventory = [] := (honly hunsigned).2.2
  rw [hsame] at hinventory
  cases hinventory

end Relay

end VizCore.Network
