import VizCore.Lib.Runs
import VizCore.Network.Node
import VizCore.Chain.Store

/-!
# The way of a block to the delegate

A block message has the block and an id beside it.  The node hands the block to its delegate
unless the id is among those of the blocks that it accepted last.

A handler waits for the delegate in the middle, so that a call and its end are two steps.  What
peers offer and what is asked of them is changed by other handlers in any way (`offers`).

* `accepted_known`: in every run in which no block is accepted under the id of another one, the
  ids are those of blocks that were accepted, and a genuine message is skipped only after its
  block;
* `wrongId_skips`: without this condition a genuine block is skipped.
-/

namespace VizCore.Network

open VizCore.Lib VizCore.Protocol VizCore.Chain

/-- `block_message`, as it comes from a peer. -/
structure BlockMessage where
  block : SignedBlock
  blockId : BlockId

/-- `GRAPHENE_NET_DEFAULT_MAX_CONNECTIONS`, the capacity of `_most_recent_blocks_accepted`. -/
def maxAccepted : Nat := 200

/-- `MAXIMUM_NUMBER_OF_BLOCKS_TO_HANDLE_AT_ONE_TIME` -/
def maxCalls : Nat := 200

/-- `MAXIMUM_NUMBER_OF_BLOCKS_TO_PREFETCH` -/
def maxPrefetch : Nat := 10 * maxCalls

/-- What a peer offers, and what it has been asked for. -/
structure Offers where
  itemsRequestedFromPeer : List ItemHash := []
  syncItemsRequestedFromPeer : List BlockId := []
  idsOfItemsToGet : List BlockId := []
  idsOfItemsBeingProcessed : List BlockId := []

/-- The node, with the blocks that its delegate has accepted or produced, and the heads that it
was told to synchronise from. -/
structure Intake where
  activeConnections : List ConnId := []
  peers : ConnId → Offers := fun _ => {}
  mostRecentBlocksAccepted : List BlockId := []
  receivedSyncItems : List BlockMessage := []
  newReceivedSyncItems : List BlockMessage := []
  suspendFetchingSyncBlocks : Bool := false
  /-- The calls of `process_block_during_normal_operation` that wait for the delegate. -/
  normalCalls : List (ConnId × BlockMessage) := []
  /-- `_handle_message_calls_in_progress` -/
  syncCalls : List BlockMessage := []
  delegate : List SignedBlock := []
  heads : List BlockId := []

/-- How `handle_block` ends. -/
inductive Outcome
  | accepted
  | unlinkable
  | rejected
  deriving DecidableEq

namespace Intake

variable (env : Env) (messageHash : BlockMessage → ItemHash)

def setOffers (c : ConnId) (o : Offers) (s : Intake) : Intake :=
  { s with peers := Function.update s.peers c o }

/-- `push_back` on the circular buffer. -/
def pushAccepted (id : BlockId) (s : Intake) : Intake :=
  let ids := s.mostRecentBlocksAccepted
  { s with
    mostRecentBlocksAccepted := (if ids.length < maxAccepted then ids else ids.drop 1) ++ [id] }

def disconnectFromPeer (c : ConnId) (s : Intake) : Intake :=
  { s with activeConnections := s.activeConnections.filter (· ≠ c) }

/-- `broadcast` of a block message -/
def broadcast (id : BlockId) (s : Intake) : Intake := s.pushAccepted id

/-! ## Normal operation -/

/-- `process_block_during_normal_operation` up to the delegate. -/
def processBlockDuringNormalOperation (c : ConnId) (m : BlockMessage) (s : Intake) : Intake :=
  if m.blockId ∈ s.mostRecentBlocksAccepted then s.broadcast m.blockId
  else { s with normalCalls := s.normalCalls ++ [(c, m)] }

/-- The rest of it. -/
def endNormalCall (i : Nat) (outcome : Outcome) (s : Intake) : Intake :=
  match s.normalCalls[i]? with
  | none => s
  | some (c, m) =>
    let s := { s with normalCalls := s.normalCalls.eraseIdx i }
    match outcome with
    | .accepted =>
      let s := { s with delegate := m.block :: s.delegate }
      (s.pushAccepted m.blockId).broadcast m.blockId
    | .unlinkable => s
    | .rejected =>
      let s := s.disconnectFromPeer c
      { s with
        activeConnections := s.activeConnections.filter fun d =>
          (s.peers d).idsOfItemsToGet.head? ≠ some m.blockId }

/-! ## Synchronisation -/

/-- `process_block_during_sync` -/
def processBlockDuringSync (m : BlockMessage) (s : Intake) : Intake :=
  { s with newReceivedSyncItems := m :: s.newReceivedSyncItems }

/-- The block is next on the list of a peer. -/
def isNext (s : Intake) (m : BlockMessage) : Bool :=
  s.activeConnections.any fun c => (s.peers c).idsOfItemsToGet.head? = some m.blockId

/-- The id goes from the list of blocks to get to the list of blocks being processed. -/
def startProcessing (id : BlockId) (s : Intake) : Intake :=
  { s with
    peers := fun c =>
      let p := s.peers c
      if c ∈ s.activeConnections ∧ p.idsOfItemsToGet.head? = some id then
        { p with
          idsOfItemsToGet := p.idsOfItemsToGet.tail
          idsOfItemsBeingProcessed := p.idsOfItemsBeingProcessed.insert id }
      else p }

/-- The blocks that have come in are put in front of the others. -/
def collectReceived (s : Intake) : Intake :=
  { s with
    receivedSyncItems := s.newReceivedSyncItems.reverse ++ s.receivedSyncItems
    newReceivedSyncItems := [] }

/-- The block that the next turn looks at. -/
def nextReceived (s : Intake) : Option BlockMessage :=
  s.collectReceived.receivedSyncItems.find? s.isNext

/-- One turn of `process_backlog_of_sync_blocks`, and whether it started to process a block. -/
def backlogTurn (s : Intake) : Intake × Bool :=
  let s := s.collectReceived
  match s.receivedSyncItems.find? s.isNext with
  | none => (s, false)
  | some m =>
    let received := s.receivedSyncItems.eraseP s.isNext
    let s := s.startProcessing m.blockId
    if m.blockId ∈ s.mostRecentBlocksAccepted then (s, false)
    else ({ s with receivedSyncItems := received, syncCalls := s.syncCalls ++ [m] }, true)

/-- The loop; every turn but the last one takes a block off the received ones. -/
def backlogLoop : Nat → Intake → Intake
  | 0, s => s
  | fuel + 1, s =>
    let (s, started) := s.backlogTurn
    if maxCalls ≤ s.syncCalls.length then
      { s with
        suspendFetchingSyncBlocks :=
          s.suspendFetchingSyncBlocks || decide (maxPrefetch ≤ s.receivedSyncItems.length) }
    else if started then backlogLoop fuel s
    else s

/-- `process_backlog_of_sync_blocks` -/
def processBacklogOfSyncBlocks (s : Intake) : Intake :=
  if maxCalls ≤ s.syncCalls.length then s
  else
    backlogLoop (s.newReceivedSyncItems.length + s.receivedSyncItems.length + 1)
      { s with suspendFetchingSyncBlocks := false }

/-- `send_sync_block_to_node_delegate` after the delegate. -/
def endSyncCall (i : Nat) (outcome : Outcome) (s : Intake) : Intake :=
  match s.syncCalls[i]? with
  | none => s
  | some m =>
    let s := { s with syncCalls := s.syncCalls.eraseIdx i }
    match outcome with
    | .accepted =>
      let s := { s with delegate := m.block :: s.delegate }.pushAccepted m.blockId
      { s with
        peers := fun c =>
          let p := s.peers c
          if c ∈ s.activeConnections then
            { p with idsOfItemsBeingProcessed := p.idsOfItemsBeingProcessed.erase m.blockId }
          else p }
    | .unlinkable | .rejected =>
      { s with
        activeConnections := s.activeConnections.filter fun c =>
          m.blockId ∉ (s.peers c).idsOfItemsBeingProcessed }

/-! ## Steps -/

/-- `process_block_message` -/
def processBlockMessage (c : ConnId) (m : BlockMessage) (s : Intake) : Intake :=
  let p := s.peers c
  if messageHash m ∈ p.itemsRequestedFromPeer then
    let s := s.setOffers c
      { p with itemsRequestedFromPeer := p.itemsRequestedFromPeer.erase (messageHash m) }
    s.processBlockDuringNormalOperation c m
  else if m.blockId ∈ p.syncItemsRequestedFromPeer then
    let s := s.setOffers c
      { p with syncItemsRequestedFromPeer := p.syncItemsRequestedFromPeer.erase m.blockId }
    s.processBlockDuringSync m
  else s.disconnectFromPeer c

/-- The client produced a block: `broadcast(block_message(block))`. -/
def broadcastBlock (b : SignedBlock) (s : Intake) : Intake :=
  { s with delegate := b :: s.delegate }.broadcast (Db.blockId env b)

/-- `sync_from` -/
def syncFrom (head : BlockId) (s : Intake) : Intake :=
  { s with mostRecentBlocksAccepted := [], heads := head :: s.heads }.pushAccepted head

inductive Act
  | offers (c : ConnId) (o : Offers)
  | connections (l : List ConnId)
  | blockMessage (c : ConnId) (m : BlockMessage)
  | endNormalCall (i : Nat) (outcome : Outcome)
  | processBacklog
  | endSyncCall (i : Nat) (outcome : Outcome)
  | broadcastBlock (b : SignedBlock)
  | syncFrom (head : BlockId)

def step (s : Intake) : Act → Intake
  | .offers c o => s.setOffers c o
  | .connections l => { s with activeConnections := l }
  | .blockMessage c m => s.processBlockMessage messageHash c m
  | .endNormalCall i outcome => s.endNormalCall i outcome
  | .processBacklog => s.processBacklogOfSyncBlocks
  | .endSyncCall i outcome => s.endSyncCall i outcome
  | .broadcastBlock b => s.broadcastBlock env b
  | .syncFrom head => s.syncFrom head

/-! ## What the ids stand for -/

/-- The id of a block that was accepted or produced, or of a head. -/
def Known (s : Intake) (id : BlockId) : Prop :=
  (∃ b ∈ s.delegate, Db.blockId env b = id) ∨ id ∈ s.heads

/-- All ids that count as accepted are known. -/
def Sound (s : Intake) : Prop := ∀ id ∈ s.mostRecentBlocksAccepted, s.Known env id

/-- No block is accepted under the id of another one. -/
def Genuine (s : Intake) : Act → Prop
  | .endNormalCall i .accepted =>
    ∀ c m, s.normalCalls[i]? = some (c, m) → m.blockId = Db.blockId env m.block
  | .endSyncCall i .accepted =>
    ∀ m, s.syncCalls[i]? = some m → m.blockId = Db.blockId env m.block
  | _ => True

variable {env messageHash} {s s' : Intake} {id : BlockId}

/-- What a step adds to the ids is known after it. -/
theorem Sound.of_step (h : s.Sound env) (hdelegate : s.delegate ⊆ s'.delegate)
    (hheads : s.heads ⊆ s'.heads)
    (hids : ∀ id ∈ s'.mostRecentBlocksAccepted, id ∈ s.mostRecentBlocksAccepted ∨ s'.Known env id) :
    s'.Sound env := by
  intro id hid
  rcases hids id hid with hold | hnew
  · rcases h id hold with ⟨b, hb, heq⟩ | hhead
    · exact .inl ⟨b, hdelegate hb, heq⟩
    · exact .inr (hheads hhead)
  · exact hnew

theorem Sound.of_same (h : s.Sound env) (hdelegate : s'.delegate = s.delegate)
    (hheads : s'.heads = s.heads)
    (hids : s'.mostRecentBlocksAccepted = s.mostRecentBlocksAccepted) : s'.Sound env := by
  intro id hid
  rw [hids] at hid
  unfold Known
  rw [hdelegate, hheads]
  exact h id hid

theorem mem_pushAccepted {x : BlockId} (h : x ∈ (s.pushAccepted id).mostRecentBlocksAccepted) :
    x ∈ s.mostRecentBlocksAccepted ∨ x = id := by
  rcases List.mem_append.1 h with hold | hnew
  · split at hold
    · exact .inl hold
    · exact .inl (List.mem_of_mem_drop hold)
  · exact .inr (List.mem_singleton.1 hnew)

theorem Sound.pushAccepted (h : s.Sound env) (hid : s.Known env id) :
    (s.pushAccepted id).Sound env := by
  refine h.of_step (List.Subset.refl _) (List.Subset.refl _) ?_
  intro x hx
  rcases mem_pushAccepted hx with hold | rfl
  · exact .inl hold
  · exact .inr hid

theorem Sound.accept (h : s.Sound env) (b : SignedBlock) :
    ({ s with delegate := b :: s.delegate } : Intake).Sound env :=
  h.of_step (List.subset_cons_self b _) (List.Subset.refl _) fun _ hid => .inl hid

/-! ## The steps -/

theorem Sound.processBlockDuringNormalOperation (h : s.Sound env) (c : ConnId) (m : BlockMessage) :
    (s.processBlockDuringNormalOperation c m).Sound env := by
  unfold Intake.processBlockDuringNormalOperation
  split
  · rename_i hmem
    exact h.pushAccepted (h _ hmem)
  · exact h.of_same rfl rfl rfl

theorem Sound.processBlockMessage (h : s.Sound env) (c : ConnId) (m : BlockMessage) :
    (s.processBlockMessage messageHash c m).Sound env := by
  unfold Intake.processBlockMessage
  dsimp only
  split
  · apply Sound.processBlockDuringNormalOperation
    exact h.of_same rfl rfl rfl
  · split
    · exact h.of_same rfl rfl rfl
    · exact h.of_same rfl rfl rfl

theorem Sound.endNormalCall (h : s.Sound env) {i : Nat} {outcome : Outcome}
    (hgenuine : s.Genuine env (.endNormalCall i outcome)) :
    (s.endNormalCall i outcome).Sound env := by
  unfold Intake.endNormalCall
  split
  · exact h
  · rename_i c m hcall
    cases outcome with
    | accepted =>
      have hid := hgenuine c m hcall
      have hknown : ({ s with
          normalCalls := s.normalCalls.eraseIdx i
          delegate := m.block :: s.delegate } : Intake).Known env m.blockId :=
        .inl ⟨m.block, List.mem_cons_self, hid.symm⟩
      have hcalls : ({ s with normalCalls := s.normalCalls.eraseIdx i } : Intake).Sound env :=
        h.of_same rfl rfl rfl
      exact ((hcalls.accept m.block).pushAccepted hknown).pushAccepted hknown
    | unlinkable => exact h.of_same rfl rfl rfl
    | rejected => exact h.of_same rfl rfl rfl

theorem Sound.endSyncCall (h : s.Sound env) {i : Nat} {outcome : Outcome}
    (hgenuine : s.Genuine env (.endSyncCall i outcome)) : (s.endSyncCall i outcome).Sound env := by
  unfold Intake.endSyncCall
  split
  · exact h
  · rename_i m hcall
    cases outcome with
    | accepted =>
      have hid := hgenuine m hcall
      have hknown : ({ s with
          syncCalls := s.syncCalls.eraseIdx i
          delegate := m.block :: s.delegate } : Intake).Known env m.blockId :=
        .inl ⟨m.block, List.mem_cons_self, hid.symm⟩
      have hcalls : ({ s with syncCalls := s.syncCalls.eraseIdx i } : Intake).Sound env :=
        h.of_same rfl rfl rfl
      exact ((hcalls.accept m.block).pushAccepted hknown).of_same rfl rfl rfl
    | unlinkable => exact h.of_same rfl rfl rfl
    | rejected => exact h.of_same rfl rfl rfl

theorem Sound.backlogTurn (h : s.Sound env) : s.backlogTurn.1.Sound env := by
  unfold Intake.backlogTurn
  dsimp only
  split
  · exact h.of_same rfl rfl rfl
  · split
    · exact h.of_same rfl rfl rfl
    · exact h.of_same rfl rfl rfl

theorem Sound.backlogLoop (fuel : Nat) (h : s.Sound env) : (s.backlogLoop fuel).Sound env := by
  induction fuel generalizing s with
  | zero => exact h
  | succ fuel ih =>
    have hturn := h.backlogTurn
    unfold Intake.backlogLoop
    dsimp only
    split
    · exact hturn.of_same rfl rfl rfl
    · split
      · exact ih hturn
      · exact hturn

theorem Sound.step (h : s.Sound env) {act : Act} (hgenuine : s.Genuine env act) :
    (s.step env messageHash act).Sound env := by
  cases act with
  | offers c o => exact h.of_same rfl rfl rfl
  | connections l => exact h.of_same rfl rfl rfl
  | blockMessage c m => exact h.processBlockMessage c m
  | endNormalCall i outcome => exact h.endNormalCall hgenuine
  | processBacklog =>
    show (s.processBacklogOfSyncBlocks).Sound env
    unfold processBacklogOfSyncBlocks
    split
    · exact h
    · exact Sound.backlogLoop _ (h.of_same rfl rfl rfl)
  | endSyncCall i outcome => exact h.endSyncCall hgenuine
  | broadcastBlock b =>
    exact (h.accept b).pushAccepted (.inl ⟨b, List.mem_cons_self, rfl⟩)
  | syncFrom head =>
    have hcleared : ({ s with
        mostRecentBlocksAccepted := [], heads := head :: s.heads } : Intake).Sound env := by
      intro id hid
      cases hid
    exact hcleared.pushAccepted (.inr List.mem_cons_self)

/-- The message reaches the delegate, unless its id counts as accepted. -/
theorem processBlockMessage_calls {c : ConnId} {m : BlockMessage}
    (hrequested : messageHash m ∈ (s.peers c).itemsRequestedFromPeer)
    (hnew : m.blockId ∉ s.mostRecentBlocksAccepted) :
    (c, m) ∈ (s.processBlockMessage messageHash c m).normalCalls := by
  unfold Intake.processBlockMessage
  dsimp only
  rw [if_pos hrequested]
  unfold Intake.processBlockDuringNormalOperation
  split
  · rename_i hmem
    exact absurd hmem hnew
  · exact List.mem_append_right _ (List.mem_singleton_self _)

theorem backlogTurn_calls {m : BlockMessage} (hnext : s.nextReceived = some m)
    (hnew : m.blockId ∉ s.mostRecentBlocksAccepted) : m ∈ s.backlogTurn.1.syncCalls := by
  unfold nextReceived at hnext
  unfold Intake.backlogTurn
  dsimp only
  split
  · rename_i hnone
    cases hnext.symm.trans hnone
  · rename_i m' hsome
    obtain rfl := Option.some.inj (hnext.symm.trans hsome)
    split
    · rename_i hmem
      exact absurd hmem hnew
    · exact List.mem_append_right _ (List.mem_singleton_self _)

/-- **Accepted blocks.**  In every run in which no block is accepted under the id of another one,
the ids that count as accepted are known, and a genuine message that is due is handed to the
delegate unless its id is known. -/
theorem accepted_known {acts : List Act}
    (h : Guarded (Intake.step env messageHash) (Genuine env) {} acts) :
    (run (Intake.step env messageHash) {} acts).Sound env ∧
      ∀ m : BlockMessage, m.blockId = Db.blockId env m.block →
        (∀ c, messageHash m ∈
            ((run (Intake.step env messageHash) {} acts).peers c).itemsRequestedFromPeer →
          (c, m) ∈ ((run (Intake.step env messageHash) {} acts).processBlockMessage
            messageHash c m).normalCalls ∨
          (run (Intake.step env messageHash) {} acts).Known env (Db.blockId env m.block)) ∧
        ((run (Intake.step env messageHash) {} acts).nextReceived = some m →
          m ∈ (run (Intake.step env messageHash) {} acts).backlogTurn.1.syncCalls ∨
          (run (Intake.step env messageHash) {} acts).Known env (Db.blockId env m.block)) := by
  have hsound : (run (Intake.step env messageHash) {} acts).Sound env :=
    run_invariant (I := Sound env) (fun _ hid => nomatch hid) (fun _ _ hs hg => hs.step hg) h
  refine ⟨hsound, ?_⟩
  intro m hid
  constructor
  · intro c hrequested
    by_cases hmem : m.blockId ∈ (run (Intake.step env messageHash) {} acts).mostRecentBlocksAccepted
    · exact .inr (hid ▸ hsound _ hmem)
    · exact .inl (processBlockMessage_calls hrequested hmem)
  · intro hnext
    by_cases hmem : m.blockId ∈ (run (Intake.step env messageHash) {} acts).mostRecentBlocksAccepted
    · exact .inr (hid ▸ hsound _ hmem)
    · exact .inl (backlogTurn_calls hnext hmem)

/-! ## A wrong id -/

def firstBlock : SignedBlock := smallBlock []

def secondBlock : SignedBlock := { smallBlock [] with timestamp := 36 }

/-- The messages of a peer that sends the first block under an id, and of one that sends the
second block. -/
def twoMessages (id : BlockId) : List Act :=
  [.offers 0 { itemsRequestedFromPeer := [33] }, .blockMessage 0 ⟨firstBlock, id⟩,
    .endNormalCall 0 .accepted, .offers 1 { itemsRequestedFromPeer := [36] }]

theorem accepted_known_genuine :
    (1, ⟨secondBlock, ⟨11, 36⟩⟩) ∈ ((run (Intake.step smallEnv fun m => m.block.timestamp) {}
      (twoMessages ⟨11, 33⟩)).processBlockMessage (fun m => m.block.timestamp) 1
        ⟨secondBlock, ⟨11, 36⟩⟩).normalCalls := by
  have hguarded : Guarded (Intake.step smallEnv fun m => m.block.timestamp) (Genuine smallEnv) {}
      (twoMessages ⟨11, 33⟩) := by
    refine ⟨trivial, trivial, ?_, trivial, trivial⟩
    intro c m hcall
    cases hcall
    rfl
  obtain ⟨-, hdue⟩ := accepted_known hguarded
  rcases (hdue ⟨secondBlock, ⟨11, 36⟩⟩ rfl).1 1 (by decide) with hcall | hknown
  · exact hcall
  · rcases hknown with ⟨b, hb, heq⟩ | hhead
    · have hfirst := List.mem_singleton.1 hb
      rw [hfirst] at heq
      exact absurd heq (by decide)
    · cases hhead

/-- The first block is accepted under the id of the second, which is then skipped. -/
theorem wrongId_skips :
    let s := run (Intake.step smallEnv fun m => m.block.timestamp) {} (twoMessages ⟨11, 36⟩)
    Db.blockId smallEnv secondBlock = ⟨11, 36⟩ ∧ ⟨11, 36⟩ ∈ s.mostRecentBlocksAccepted ∧
      ¬ s.Known smallEnv ⟨11, 36⟩ ∧
      (s.processBlockMessage (fun m => m.block.timestamp) 1
        ⟨secondBlock, ⟨11, 36⟩⟩).normalCalls = [] := by
  intro s
  have hdelegate : s.delegate = [firstBlock] := rfl
  have hheads : s.heads = [] := rfl
  refine ⟨rfl, by decide, ?_, ?_⟩
  · rintro (⟨b, hb, heq⟩ | hhead)
    · rw [hdelegate, List.mem_singleton] at hb
      rw [hb] at heq
      exact absurd heq (by decide)
    · rw [hheads] at hhead
      cases hhead
  · have hnone : (s.processBlockMessage (fun m => m.block.timestamp) 1
        ⟨secondBlock, ⟨11, 36⟩⟩).normalCalls.length = 0 := by decide
    exact List.length_eq_zero_iff.1 hnone

end Intake

end VizCore.Network
