import Mathlib.Data.Finset.Card
import VizCore.Lib.Runs

/-!
# The peers of a node

The state of `node_impl` and the steps of its tasks, as far as they decide which connections
are active and which blocks are requested from whom while synchronising.

The tasks take turns at the points where they wait, so that a step here is what a task does
between two such points.  `on_hello_message` waits for the delegate between its check of the
node id and its answer, and is two steps.  Where a handler asks the delegate, the step has the
answer as an argument.  Times, the database of potential peers and the firewall checks are
left out.
-/

namespace VizCore.Network

open VizCore.Lib

/-- A `peer_connection` object; they are numbered as they are made. -/
abbrev ConnId := Nat

abbrev NodeId := Nat

abbrev ChainId := Nat

abbrev ItemHash := Nat

structure ItemId where
  itemType : Nat
  itemHash : ItemHash
  deriving DecidableEq

/-- `core_message_type_enum::block_message_type` -/
def blockMessageType : Nat := 1001

/-- `GRAPHENE_NET_MIN_BLOCK_IDS_TO_PREFETCH` -/
def minBlockIdsToPrefetch : Nat := 10000

/-! ## The state -/

inductive Direction
  | unknown
  | inbound
  | outbound
  deriving DecidableEq

/-- `our_connection_state` and `their_connection_state`, which have the same values. -/
inductive ConnectionState
  | disconnected
  | justConnected
  | connectionAccepted
  | connectionRejected
  deriving DecidableEq

inductive RejectionReason
  | unspecified
  | differentChain
  | alreadyConnected
  | connectedToSelf
  | notAcceptingConnections
  | blocked
  | invalidHelloMessage
  | clientTooOld
  deriving DecidableEq

/-- The task that reads messages: it starts when the key exchange is over, and ends when the
connection is closed or the object deleted. -/
inductive ReadLoop
  | waiting
  | reading
  | over
  deriving DecidableEq

/-- `hello_message`, with what its user data says. -/
structure Hello where
  nodePublicKey : NodeId
  signedSharedSecret : Nat
  nodeId : Option NodeId
  chainId : Option ChainId
  lastKnownForkBlockNumber : Option Nat
  deriving DecidableEq

/-- The id by which the node of a hello is known. -/
def Hello.knownId (h : Hello) : NodeId := h.nodeId.getD h.nodePublicKey

/-- `peer_connection` -/
structure Peer where
  readLoop : ReadLoop := .waiting
  direction : Direction := .unknown
  ourState : ConnectionState := .disconnected
  theyHaveRequestedClose : Bool := false
  theirState : ConnectionState := .disconnected
  weHaveRequestedClose : Bool := false
  sharedSecret : Nat := 0
  nodePublicKey : NodeId := 0
  nodeId : NodeId := 0
  chainId : Option ChainId := none
  lastKnownForkBlockNumber : Nat := 0
  /-- The hello that waits for its answer, and whether its node was connected already. -/
  greeting : Option (Hello × Bool) := none
  idsOfItemsToGet : List ItemHash := []
  numberOfUnfetchedItemIds : Nat := 0
  peerNeedsSyncItemsFromUs : Bool := true
  weNeedSyncItemsFromPeer : Bool := true
  itemIdsRequestedFromPeer : Bool := false
  syncItemsRequestedFromPeer : Finset ItemHash := ∅
  itemsRequestedFromPeer : Finset ItemId := ∅
  inhibitFetchingSyncBlocks : Bool := false

def Peer.idle (p : Peer) : Prop :=
  p.itemsRequestedFromPeer = ∅ ∧ p.syncItemsRequestedFromPeer = ∅ ∧
    p.itemIdsRequestedFromPeer = false

instance (p : Peer) : Decidable p.idle := inferInstanceAs (Decidable (_ ∧ _ ∧ _))

/-- The node; `recover` is the public key that a signature of a shared secret belongs to. -/
structure Node where
  recover : Nat → Nat → Option NodeId
  nodeId : NodeId
  chainId : ChainId
  maximumNumberOfConnections : Nat
  connectLoopCanceled : Bool := false
  allowedPeers : Finset NodeId := ∅
  hardForkBlockNumbers : List Nat := []
  maximumBlocksPerPeerDuringSyncing : Nat := 200
  peers : ConnId → Peer := fun _ => {}
  nextConn : ConnId := 0
  handshakingConnections : Finset ConnId := ∅
  activeConnections : Finset ConnId := ∅
  closingConnections : Finset ConnId := ∅
  terminatingConnections : Finset ConnId := ∅
  peersToDelete : Finset ConnId := ∅
  activeSyncRequests : Finset ItemHash := ∅
  receivedSyncItems : List ItemHash := []
  newReceivedSyncItems : List ItemHash := []
  suspendFetchingSyncBlocks : Bool := false

namespace Node

def modifyPeer (c : ConnId) (f : Peer → Peer) (n : Node) : Node :=
  { n with peers := Function.update n.peers c (f (n.peers c)) }

/-! ## The lists of connections -/

/-- The connection is taken off all lists. -/
def unlist (c : ConnId) (n : Node) : Node :=
  { n with
    handshakingConnections := n.handshakingConnections.erase c
    activeConnections := n.activeConnections.erase c
    closingConnections := n.closingConnections.erase c
    terminatingConnections := n.terminatingConnections.erase c }

def movePeerToActiveList (c : ConnId) (n : Node) : Node :=
  { n.unlist c with activeConnections := insert c n.activeConnections }

def movePeerToClosingList (c : ConnId) (n : Node) : Node :=
  { n.unlist c with closingConnections := insert c n.closingConnections }

def movePeerToTerminatingList (c : ConnId) (n : Node) : Node :=
  { n.unlist c with terminatingConnections := insert c n.terminatingConnections }

def schedulePeerForDeletion (c : ConnId) (n : Node) : Node :=
  { n with peersToDelete := insert c n.peersToDelete }

/-- Closing the socket, which the other side or the end of the read loop will notice, is left
out. -/
def disconnectFromPeer (c : ConnId) (n : Node) : Node :=
  (n.movePeerToClosingList c).modifyPeer c fun p =>
    if p.theyHaveRequestedClose then p else { p with weHaveRequestedClose := true }

def numberOfConnections (n : Node) : Nat :=
  n.handshakingConnections.card + n.activeConnections.card

def isAcceptingNewConnections (n : Node) : Prop :=
  n.connectLoopCanceled = false ∧ n.numberOfConnections ≤ n.maximumNumberOfConnections

instance (n : Node) : Decidable n.isAcceptingNewConnections :=
  inferInstanceAs (Decidable (_ ∧ _))

def isAlreadyConnectedToId (n : Node) (id : NodeId) : Prop :=
  id = n.nodeId ∨ (∃ c ∈ n.activeConnections, id = (n.peers c).nodeId) ∨
    ∃ c ∈ n.handshakingConnections, id = (n.peers c).nodeId

instance (n : Node) (id : NodeId) : Decidable (n.isAlreadyConnectedToId id) :=
  inferInstanceAs (Decidable (_ ∨ _ ∨ _))

/-! ## Synchronising -/

/-- The request for ids; `unswitchable` says that the delegate has no synopsis for the fork of
the peer. -/
def fetchNextBatchOfItemIdsFromPeer (c : ConnId) (unswitchable : Bool) (n : Node) : Node :=
  if unswitchable then n.disconnectFromPeer c
  else n.modifyPeer c fun p => { p with itemIdsRequestedFromPeer := true }

def startSynchronizingWithPeer (c : ConnId) (unswitchable : Bool) (n : Node) : Node :=
  (n.modifyPeer c fun p =>
    { p with
      idsOfItemsToGet := [], numberOfUnfetchedItemIds := 0, weNeedSyncItemsFromPeer := true
      inhibitFetchingSyncBlocks := false }).fetchNextBatchOfItemIdsFromPeer c unswitchable

def newPeerJustAdded (c : ConnId) (unswitchable : Bool) (n : Node) : Node :=
  n.startSynchronizingWithPeer c unswitchable

def haveAlreadyReceivedSyncItem (n : Node) (item : ItemHash) : Prop :=
  item ∈ n.receivedSyncItems ∨ item ∈ n.newReceivedSyncItems

instance (n : Node) (item : ItemHash) : Decidable (n.haveAlreadyReceivedSyncItem item) :=
  inferInstanceAs (Decidable (_ ∨ _))

/-- Nothing speaks against requesting the item, when the ones of `scheduled` are about to be
requested. -/
def Requestable (n : Node) (scheduled : Finset ItemHash) (item : ItemHash) : Prop :=
  ¬ n.haveAlreadyReceivedSyncItem item ∧ item ∉ scheduled ∧ item ∉ n.activeSyncRequests

instance (n : Node) (scheduled : Finset ItemHash) (item : ItemHash) :
    Decidable (n.Requestable scheduled item) :=
  inferInstanceAs (Decidable (_ ∧ _ ∧ _))

/-- The items that are scheduled for one peer, in the order of its list. -/
def scheduleItems (n : Node) (scheduled : Finset ItemHash) :
    List ItemHash → List ItemHash → List ItemHash
  | [], items => items
  | item :: ids, items =>
    if n.Requestable (scheduled ∪ items.toFinset) item then
      if n.maximumBlocksPerPeerDuringSyncing ≤ (items ++ [item]).length then items ++ [item]
      else scheduleItems n scheduled ids (items ++ [item])
    else scheduleItems n scheduled ids items

/-- The requests that one pass over the active connections schedules. -/
def scheduleRequests (n : Node) : List ConnId → Finset ItemHash → List (ConnId × List ItemHash)
  | [], _ => []
  | c :: order, scheduled =>
    let p := n.peers c
    if p.weNeedSyncItemsFromPeer ∧ p.idle ∧ p.inhibitFetchingSyncBlocks = false then
      let items := n.scheduleItems scheduled p.idsOfItemsToGet []
      (c, items) :: scheduleRequests n order (scheduled ∪ items.toFinset)
    else scheduleRequests n order scheduled

def requestSyncItemsFromPeer (n : Node) (request : ConnId × List ItemHash) : Node :=
  let n := n.modifyPeer request.1 fun p =>
    { p with syncItemsRequestedFromPeer := p.syncItemsRequestedFromPeer ∪ request.2.toFinset }
  { n with activeSyncRequests := n.activeSyncRequests ∪ request.2.toFinset }

/-- An iteration of `fetch_sync_items_loop`, which visits the active connections in some
order. -/
def fetchSyncItems (order : List ConnId) (n : Node) : Node :=
  if n.suspendFetchingSyncBlocks then n
  else (n.scheduleRequests order ∅).foldl requestSyncItemsFromPeer n

/-! ## The messages of the handshake -/

def answer (c : ConnId) (state : ConnectionState) (n : Node) : Node :=
  n.modifyPeer c fun p => { p with theirState := state }

/-- `on_hello_message` up to its questions to the delegate. -/
def onHelloMessage (c : ConnId) (h : Hello) (n : Node) : Node :=
  let alreadyConnected := decide (n.isAlreadyConnectedToId h.knownId)
  match n.recover h.signedSharedSecret (n.peers c).sharedSecret with
  | none => n
  | some _ =>
    n.modifyPeer c fun p =>
      { p with
        nodePublicKey := h.nodePublicKey, nodeId := h.knownId, chainId := h.chainId.or p.chainId
        lastKnownForkBlockNumber := h.lastKnownForkBlockNumber.getD p.lastKnownForkBlockNumber
        greeting := some (h, alreadyConnected) }

/-- The first hard fork after a block, 0 if there is none. -/
def nextKnownHardForkBlockNumber (n : Node) (blockNumber : Nat) : Nat :=
  (n.hardForkBlockNumbers.find? (blockNumber < ·)).getD 0

/-- The peer cannot follow a hard fork that the head has passed. -/
def Outdated (n : Node) (p : Peer) (headBlockNum : Nat) : Prop :=
  p.lastKnownForkBlockNumber ≠ 0 ∧
    n.nextKnownHardForkBlockNumber p.lastKnownForkBlockNumber ≠ 0 ∧
    n.nextKnownHardForkBlockNumber p.lastKnownForkBlockNumber < headBlockNum

instance (n : Node) (p : Peer) (headBlockNum : Nat) : Decidable (n.Outdated p headBlockNum) :=
  inferInstanceAs (Decidable (_ ∧ _ ∧ _))

/-- The hello is signed by the key that it names. -/
def Signed (n : Node) (p : Peer) (h : Hello) : Prop :=
  n.recover h.signedSharedSecret p.sharedSecret = some h.nodePublicKey

instance (n : Node) (p : Peer) (h : Hello) : Decidable (n.Signed p h) :=
  inferInstanceAs (Decidable (_ = _))

/-- `on_hello_message` after its questions to the delegate: the answer to the hello. -/
def answerHello (c : ConnId) (headBlockNum : Nat) (n : Node) : Node :=
  match (n.peers c).greeting with
  | none => n
  | some (h, alreadyConnected) =>
    let n := n.modifyPeer c fun p => { p with greeting := none }
    let p := n.peers c
    let reject := n.answer c .connectionRejected
    if p.theirState = .justConnected then
      if ¬ n.Signed p h then reject.disconnectFromPeer c
      else if n.Outdated p headBlockNum then reject.disconnectFromPeer c
      else if p.chainId ≠ some n.chainId then reject.disconnectFromPeer c
      else if alreadyConnected then reject
      else if n.allowedPeers ≠ ∅ ∧ p.nodeId ∉ n.allowedPeers then reject
      else if ¬ n.isAcceptingNewConnections then reject
      else n.answer c .connectionAccepted
    else n.disconnectFromPeer c

def onConnectionAcceptedMessage (c : ConnId) (n : Node) : Node :=
  n.modifyPeer c fun p => { p with ourState := .connectionAccepted }

/-- An unexpected rejection throws. -/
def onConnectionRejectedMessage (c : ConnId) (reason : RejectionReason) (n : Node) : Node :=
  if (n.peers c).ourState = .justConnected then
    let n := if reason = .connectedToSelf then n.movePeerToClosingList c else n
    n.modifyPeer c fun p => { p with ourState := .connectionRejected }
  else n

def onAddressMessage (c : ConnId) (unswitchable : Bool) (n : Node) : Node :=
  if c ∈ n.handshakingConnections then
    if (n.peers c).ourState = .connectionRejected then n.disconnectFromPeer c
    else if (n.peers c).theirState = .connectionRejected then n.disconnectFromPeer c
    else (n.movePeerToActiveList c).newPeerJustAdded c unswitchable
  else n

/-- A request for ids: the synopsis, the ids that the delegate has for it, and whether it has
the last block of the synopsis. -/
structure IdsRequest where
  synopsis : List ItemHash
  available : List ItemHash
  hasLastSeen : Bool

/-- The peer has all that we have. -/
def IdsRequest.InSync (r : IdsRequest) : Prop :=
  r.available = [] ∨
    (r.synopsis ≠ [] ∧ r.available.length = 1 ∧ ∃ id ∈ r.available, id ∈ r.synopsis)

instance (r : IdsRequest) : Decidable r.InSync := inferInstanceAs (Decidable (_ ∨ _))

/-- The peer is told that it has all, and nothing is wanted from it. -/
def Inhibited (n : Node) (c : ConnId) (r : IdsRequest) : Prop :=
  r.available ≠ [] ∧ r.InSync ∧ (n.peers c).inhibitFetchingSyncBlocks = true

instance (n : Node) (c : ConnId) (r : IdsRequest) : Decidable (n.Inhibited c r) :=
  inferInstanceAs (Decidable (_ ∧ _ ∧ _))

/-- What a request for ids tells about the peer; when it has a block that we lack, we start
synchronising with it again. -/
def noteIdsRequest (c : ConnId) (r : IdsRequest) (unswitchable : Bool) (n : Node) : Node :=
  let n := n.modifyPeer c fun p => { p with peerNeedsSyncItemsFromUs := !decide r.InSync }
  if (n.peers c).weNeedSyncItemsFromPeer = false ∧ r.synopsis ≠ [] ∧ r.hasLastSeen = false then
    n.startSynchronizingWithPeer c unswitchable
  else n

def onFetchBlockchainItemIdsMessage (c : ConnId) (r : IdsRequest) (unswitchable : Bool)
    (n : Node) : Node :=
  let m := n.noteIdsRequest c r unswitchable
  if n.Inhibited c r then m.disconnectFromPeer c
  else if (m.peers c).direction = .inbound ∧ c ∈ m.handshakingConnections then
    (m.movePeerToActiveList c).newPeerJustAdded c unswitchable
  else m

/-! ## The messages of the synchronisation -/

def takeSyncItem (c : ConnId) (item : ItemHash) (n : Node) : Node :=
  n.modifyPeer c fun p =>
    { p with syncItemsRequestedFromPeer := p.syncItemsRequestedFromPeer.erase item }

/-- `process_block_during_sync`, with what comes before it. -/
def receiveSyncItem (c : ConnId) (blockId : ItemHash) (n : Node) : Node :=
  { n.takeSyncItem c blockId with
    activeSyncRequests := n.activeSyncRequests.erase blockId
    newReceivedSyncItems := blockId :: n.newReceivedSyncItems }

/-- A block that was asked for in normal operation is handed on, which does not change the
requests; one that was asked for while synchronising is added to the received ones. -/
def processBlockMessage (c : ConnId) (blockId messageHash : ItemHash) (unswitchable : Bool)
    (n : Node) : Node :=
  let p := n.peers c
  if ⟨blockMessageType, messageHash⟩ ∈ p.itemsRequestedFromPeer then
    n.modifyPeer c fun p =>
      { p with
        itemsRequestedFromPeer := p.itemsRequestedFromPeer.erase ⟨blockMessageType, messageHash⟩ }
  else if blockId ∈ p.syncItemsRequestedFromPeer then
    let n := n.receiveSyncItem c blockId
    if (n.peers c).idle ∧ 0 < (n.peers c).numberOfUnfetchedItemIds ∧
      (n.peers c).idsOfItemsToGet.length < minBlockIdsToPrefetch then
      n.fetchNextBatchOfItemIdsFromPeer c unswitchable
    else n
  else n.disconnectFromPeer c

def onItemNotAvailableMessage (c : ConnId) (item : ItemId) (n : Node) : Node :=
  let p := n.peers c
  if item ∈ p.itemsRequestedFromPeer then
    n.modifyPeer c fun p =>
      { p with itemsRequestedFromPeer := p.itemsRequestedFromPeer.erase item }
  else if item.itemHash ∈ p.syncItemsRequestedFromPeer then
    let n := n.takeSyncItem c item.itemHash
    if p.peerNeedsSyncItemsFromUs then
      n.modifyPeer c fun p => { p with inhibitFetchingSyncBlocks := true }
    else n.disconnectFromPeer c
  else n

def onClosingConnectionMessage (c : ConnId) (n : Node) : Node :=
  n.modifyPeer c fun p => { p with theyHaveRequestedClose := true }

/-! ## Opening and closing -/

/-- `accept_loop` and `initiate_connect_to` make a connection. -/
def openConnection (direction : Direction) (n : Node) : Node :=
  { n with
    peers := Function.update n.peers n.nextConn { direction := direction }
    nextConn := n.nextConn + 1
    handshakingConnections := insert n.nextConn n.handshakingConnections }

/-- The key exchange is over: `accept_connection_task`, or `connect_to_task` when it
succeeds. -/
def establish (c : ConnId) (sharedSecret : Nat) (n : Node) : Node :=
  n.modifyPeer c fun p =>
    { p with
      readLoop := .reading, ourState := .justConnected, theirState := .justConnected
      sharedSecret := sharedSecret }

/-- `connect_to_task` when it fails, or when it was a firewall check, for which the connection
was established. -/
def dropNewPeer (c : ConnId) (sharedSecret : Option Nat) (n : Node) : Node :=
  match sharedSecret with
  | none => (n.unlist c).schedulePeerForDeletion c
  | some secret => ((n.establish c secret).unlist c).schedulePeerForDeletion c

/-- The end of the read loop reports that the connection is closed. -/
def onConnectionClosed (c : ConnId) (n : Node) : Node :=
  let n := { n.unlist c with
    activeSyncRequests := n.activeSyncRequests \ (n.peers c).syncItemsRequestedFromPeer }
  (n.modifyPeer c fun p => { p with readLoop := .over }).schedulePeerForDeletion c

/-- A connection that `terminate_inactive_connections_loop` could not get closed. -/
def terminatePeer (c : ConnId) (n : Node) : Node :=
  { n with terminatingConnections := n.terminatingConnections.erase c }.schedulePeerForDeletion c

/-- `delayed_peer_deletion_task`; the read loop is cancelled and reports nothing. -/
def deletePeer (c : ConnId) (n : Node) : Node :=
  { n with peersToDelete := n.peersToDelete.erase c }.modifyPeer c fun p =>
    { p with readLoop := .over }

end Node

/-! ## Steps -/

/-- The messages that are looked at here. -/
inductive Message
  | hello (h : Hello)
  | connectionAccepted
  | connectionRejected (reason : RejectionReason)
  | addressRequest
  | address (unswitchable : Bool)
  | fetchBlockchainItemIds (r : Node.IdsRequest) (unswitchable : Bool)
  | block (blockId messageHash : ItemHash) (unswitchable : Bool)
  | itemNotAvailable (item : ItemId)
  | closingConnection

/-- What the handlers of ids, of inventories and of blocks in normal operation may set. -/
structure Progress where
  idsOfItemsToGet : List ItemHash
  numberOfUnfetchedItemIds : Nat
  peerNeedsSyncItemsFromUs : Bool
  weNeedSyncItemsFromPeer : Bool
  itemIdsRequestedFromPeer : Bool
  itemsRequestedFromPeer : Finset ItemId
  inhibitFetchingSyncBlocks : Bool

/-- The steps of a node.  `progress` and `backlog` stand for the steps of the other tasks of
the synchronisation, which may change the fields that they name in any way. -/
inductive Act
  | openConnection (direction : Direction)
  | establish (c : ConnId) (sharedSecret : Nat)
  | dropNewPeer (c : ConnId) (sharedSecret : Option Nat)
  | message (c : ConnId) (m : Message)
  | answerHello (c : ConnId) (headBlockNum : Nat)
  | disconnect (c : ConnId)
  | disconnectForcibly (c : ConnId)
  | connectionClosed (c : ConnId)
  | terminate (c : ConnId)
  | delete (c : ConnId)
  | fetchSyncItems (order : List ConnId)
  | startSynchronizing (c : ConnId) (unswitchable : Bool)
  | progress (c : ConnId) (p : Progress)
  | backlog (received new : List ItemHash) (suspend : Bool)

namespace Node

/-- `on_message` -/
def onMessage (c : ConnId) (n : Node) : Message → Node
  | .hello h => n.onHelloMessage c h
  | .connectionAccepted => n.onConnectionAcceptedMessage c
  | .connectionRejected reason => n.onConnectionRejectedMessage c reason
  | .addressRequest => n
  | .address unswitchable => n.onAddressMessage c unswitchable
  | .fetchBlockchainItemIds r unswitchable => n.onFetchBlockchainItemIdsMessage c r unswitchable
  | .block blockId messageHash unswitchable =>
    n.processBlockMessage c blockId messageHash unswitchable
  | .itemNotAvailable item => n.onItemNotAvailableMessage c item
  | .closingConnection => n.onClosingConnectionMessage c

/-- The read loop of a connection hands on a message when the one before is done with. -/
def Reads (n : Node) (c : ConnId) : Prop :=
  (n.peers c).readLoop = .reading ∧ (n.peers c).greeting = none

instance (n : Node) (c : ConnId) : Decidable (n.Reads c) := inferInstanceAs (Decidable (_ ∧ _))

/-- The connection is on a list from which tasks take the ones to close. -/
def Listed (n : Node) (c : ConnId) : Prop :=
  c ∈ n.handshakingConnections ∨ c ∈ n.activeConnections ∨ c ∈ n.closingConnections

instance (n : Node) (c : ConnId) : Decidable (n.Listed c) :=
  inferInstanceAs (Decidable (_ ∨ _ ∨ _))

def setProgress (c : ConnId) (q : Progress) (n : Node) : Node :=
  n.modifyPeer c fun p =>
    { p with
      idsOfItemsToGet := q.idsOfItemsToGet
      numberOfUnfetchedItemIds := q.numberOfUnfetchedItemIds
      peerNeedsSyncItemsFromUs := q.peerNeedsSyncItemsFromUs
      weNeedSyncItemsFromPeer := q.weNeedSyncItemsFromPeer
      itemIdsRequestedFromPeer := q.itemIdsRequestedFromPeer
      itemsRequestedFromPeer := q.itemsRequestedFromPeer
      inhibitFetchingSyncBlocks := q.inhibitFetchingSyncBlocks }

/-- A step; one that cannot be taken changes nothing. -/
def step (n : Node) : Act → Node
  | .openConnection direction => n.openConnection direction
  | .establish c sharedSecret =>
    if c ∈ n.handshakingConnections ∧ (n.peers c).readLoop = .waiting then
      n.establish c sharedSecret else n
  | .dropNewPeer c sharedSecret =>
    if c ∈ n.handshakingConnections ∧ (n.peers c).readLoop = .waiting then
      n.dropNewPeer c sharedSecret else n
  | .message c m => if n.Reads c then n.onMessage c m else n
  | .answerHello c headBlockNum =>
    if (n.peers c).readLoop = .reading then n.answerHello c headBlockNum else n
  | .disconnect c => if c < n.nextConn then n.disconnectFromPeer c else n
  | .disconnectForcibly c =>
    if c < n.nextConn ∧ n.Listed c then n.movePeerToTerminatingList c else n
  | .connectionClosed c => if (n.peers c).readLoop = .reading then n.onConnectionClosed c else n
  | .terminate c => if c ∈ n.terminatingConnections then n.terminatePeer c else n
  | .delete c => if c ∈ n.peersToDelete then n.deletePeer c else n
  | .fetchSyncItems order =>
    if order.Nodup ∧ order.toFinset = n.activeConnections then n.fetchSyncItems order else n
  | .startSynchronizing c unswitchable =>
    if c < n.nextConn then n.startSynchronizingWithPeer c unswitchable else n
  | .progress c q => if c < n.nextConn then n.setProgress c q else n
  | .backlog received new suspend =>
    { n with
      receivedSyncItems := received, newReceivedSyncItems := new
      suspendFetchingSyncBlocks := suspend }

end Node

end VizCore.Network
