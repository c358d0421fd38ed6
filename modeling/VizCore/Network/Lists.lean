import VizCore.Network.Frames

/-!
# The list of an active connection

`_handshaking_connections`, `_active_connections`, `_closing_connections` and
`_terminating_connections` are sets of their own.  Every function that puts a connection on one of
them takes it off the others, and only a connection that is shaking hands becomes active.

* `run_activeApart`: in every run a connection that is active is on no other list.
-/

namespace VizCore.Network

open VizCore.Lib

namespace Node

/-- The connection is on none of the other three lists. -/
def OnlyActive (n : Node) (c : ConnId) : Prop :=
  c ∉ n.handshakingConnections ∧ c ∉ n.closingConnections ∧ c ∉ n.terminatingConnections

def ActiveApart (n : Node) : Prop := ∀ c ∈ n.activeConnections, n.OnlyActive c

/-- What a step may do to the lists: a connection that is active afterwards is on no other list,
or the step has put it on none. -/
structure Relists (n n' : Node) : Prop where
  next : n'.nextConn = n.nextConn
  handshaking : n'.handshakingConnections ⊆ n.handshakingConnections
  active : ∀ c ∈ n'.activeConnections, c ∈ n.activeConnections ∨ c ∈ n.handshakingConnections
  apart : ∀ c ∈ n'.activeConnections, n'.OnlyActive c ∨
    (c ∈ n.activeConnections ∧ (c ∈ n'.closingConnections → c ∈ n.closingConnections) ∧
      (c ∈ n'.terminatingConnections → c ∈ n.terminatingConnections))

variable {c : ConnId} {n n' n'' : Node}

namespace Relists

theorem of_same (hnext : n'.nextConn = n.nextConn)
    (hhandshaking : n'.handshakingConnections = n.handshakingConnections)
    (hactive : n'.activeConnections = n.activeConnections)
    (hclosing : n'.closingConnections = n.closingConnections)
    (hterminating : n'.terminatingConnections ⊆ n.terminatingConnections) : Relists n n' where
  next := hnext
  handshaking := by rw [hhandshaking]
  active c hc := .inl (hactive ▸ hc)
  apart c hc := .inr ⟨hactive ▸ hc, fun h => hclosing ▸ h, fun h => hterminating h⟩

theorem refl (n : Node) : Relists n n := of_same rfl rfl rfl rfl (Finset.Subset.refl _)

theorem trans (h : Relists n n') (h' : Relists n' n'') : Relists n n'' where
  next := h'.next.trans h.next
  handshaking := h'.handshaking.trans h.handshaking
  active c hc := by
    rcases h'.active c hc with hactive | hhandshaking
    · exact h.active c hactive
    · exact .inr (h.handshaking hhandshaking)
  apart c hc := by
    rcases h'.apart c hc with honly | ⟨hactive, hclosing, hterminating⟩
    · exact .inl honly
    · rcases h.apart c hactive with honly | ⟨hold, hclosing', hterminating'⟩
      · refine .inl ⟨fun hin => honly.1 (h'.handshaking hin), ?_, ?_⟩
        · exact fun hin => honly.2.1 (hclosing hin)
        · exact fun hin => honly.2.2 (hterminating hin)
      · exact .inr ⟨hold, fun hin => hclosing' (hclosing hin),
          fun hin => hterminating' (hterminating hin)⟩

end Relists

variable (c n)

theorem modifyPeer_relists (f : Peer → Peer) : Relists n (n.modifyPeer c f) :=
  .of_same rfl rfl rfl rfl (Finset.Subset.refl _)

theorem unlist_relists : Relists n (n.unlist c) where
  next := rfl
  handshaking := Finset.erase_subset _ _
  active _ hd := .inl (Finset.mem_of_mem_erase hd)
  apart _ hd := .inr ⟨Finset.mem_of_mem_erase hd, Finset.mem_of_mem_erase,
    Finset.mem_of_mem_erase⟩

theorem movePeerToClosingList_relists : Relists n (n.movePeerToClosingList c) where
  next := rfl
  handshaking := Finset.erase_subset _ _
  active _ hd := .inl (Finset.mem_of_mem_erase hd)
  apart d hd := by
    obtain ⟨hne, hactive⟩ := Finset.mem_erase.mp hd
    refine .inr ⟨hactive, ?_, Finset.mem_of_mem_erase⟩
    intro hclosing
    exact (Finset.mem_insert.mp hclosing).resolve_left hne

theorem movePeerToTerminatingList_relists : Relists n (n.movePeerToTerminatingList c) where
  next := rfl
  handshaking := Finset.erase_subset _ _
  active _ hd := .inl (Finset.mem_of_mem_erase hd)
  apart d hd := by
    obtain ⟨hne, hactive⟩ := Finset.mem_erase.mp hd
    refine .inr ⟨hactive, Finset.mem_of_mem_erase, ?_⟩
    intro hterminating
    exact (Finset.mem_insert.mp hterminating).resolve_left hne

theorem movePeerToActiveList_relists (hc : c ∈ n.handshakingConnections) :
    Relists n (n.movePeerToActiveList c) where
  next := rfl
  handshaking := Finset.erase_subset _ _
  active d hd := by
    rcases Finset.mem_insert.mp hd with rfl | hactive
    · exact .inr hc
    · exact .inl hactive
  apart d hd := by
    rcases Finset.mem_insert.mp hd with rfl | hactive
    · exact .inl ⟨Finset.notMem_erase _ _, Finset.notMem_erase _ _, Finset.notMem_erase _ _⟩
    · exact .inr ⟨hactive, Finset.mem_of_mem_erase, Finset.mem_of_mem_erase⟩

theorem disconnectFromPeer_relists : Relists n (n.disconnectFromPeer c) :=
  (movePeerToClosingList_relists c n).trans (modifyPeer_relists c _ _)

theorem fetchNextBatchOfItemIdsFromPeer_relists (unswitchable : Bool) :
    Relists n (n.fetchNextBatchOfItemIdsFromPeer c unswitchable) := by
  unfold fetchNextBatchOfItemIdsFromPeer
  split
  · exact disconnectFromPeer_relists c n
  · exact modifyPeer_relists c n _

theorem startSynchronizingWithPeer_relists (unswitchable : Bool) :
    Relists n (n.startSynchronizingWithPeer c unswitchable) :=
  (modifyPeer_relists c n _).trans (fetchNextBatchOfItemIdsFromPeer_relists c _ unswitchable)

theorem newPeerActive_relists (hc : c ∈ n.handshakingConnections) (unswitchable : Bool) :
    Relists n ((n.movePeerToActiveList c).newPeerJustAdded c unswitchable) :=
  (movePeerToActiveList_relists c n hc).trans (startSynchronizingWithPeer_relists c _ unswitchable)

/-! ## The messages -/

theorem onHelloMessage_relists (h : Hello) : Relists n (n.onHelloMessage c h) := by
  unfold onHelloMessage
  split
  · exact .refl n
  · exact modifyPeer_relists c n _

theorem answerHello_relists (headBlockNum : Nat) : Relists n (n.answerHello c headBlockNum) := by
  have hreject : ∀ m : Node, Relists m (m.answer c .connectionRejected) :=
    fun m => modifyPeer_relists c m _
  unfold answerHello
  cases (n.peers c).greeting with
  | none => exact .refl n
  | some hello =>
    have hclear := modifyPeer_relists c n fun p => { p with greeting := none }
    dsimp only
    generalize n.modifyPeer c (fun p => { p with greeting := none }) = m at hclear ⊢
    apply hclear.trans
    split
    · split
      · exact (hreject m).trans (disconnectFromPeer_relists c _)
      · split
        · exact (hreject m).trans (disconnectFromPeer_relists c _)
        · split
          · exact (hreject m).trans (disconnectFromPeer_relists c _)
          · split
            · exact hreject m
            · split
              · exact hreject m
              · split
                · exact hreject m
                · exact modifyPeer_relists c m _
    · exact disconnectFromPeer_relists c m

theorem onConnectionRejectedMessage_relists (reason : RejectionReason) :
    Relists n (n.onConnectionRejectedMessage c reason) := by
  unfold onConnectionRejectedMessage
  split
  · refine Relists.trans ?_ (modifyPeer_relists c _ _)
    split
    · exact movePeerToClosingList_relists c n
    · exact .refl n
  · exact .refl n

theorem onAddressMessage_relists (unswitchable : Bool) :
    Relists n (n.onAddressMessage c unswitchable) := by
  unfold onAddressMessage
  split
  · rename_i hlisted
    split
    · exact disconnectFromPeer_relists c n
    · split
      · exact disconnectFromPeer_relists c n
      · exact newPeerActive_relists c n hlisted unswitchable
  · exact .refl n

theorem noteIdsRequest_relists (r : IdsRequest) (unswitchable : Bool) :
    Relists n (n.noteIdsRequest c r unswitchable) := by
  have hnote := modifyPeer_relists c n fun p =>
    { p with peerNeedsSyncItemsFromUs := !decide r.InSync }
  unfold noteIdsRequest
  dsimp only
  split
  · exact hnote.trans (startSynchronizingWithPeer_relists c _ unswitchable)
  · exact hnote

theorem onFetchBlockchainItemIdsMessage_relists (r : IdsRequest) (unswitchable : Bool) :
    Relists n (n.onFetchBlockchainItemIdsMessage c r unswitchable) := by
  have hnote := noteIdsRequest_relists c n r unswitchable
  unfold onFetchBlockchainItemIdsMessage
  dsimp only
  generalize n.noteIdsRequest c r unswitchable = m at hnote ⊢
  apply hnote.trans
  split
  · exact disconnectFromPeer_relists c m
  · split
    · rename_i hactivates
      exact newPeerActive_relists c m hactivates.2 unswitchable
    · exact .refl m

theorem receiveSyncItem_relists (blockId : ItemHash) : Relists n (n.receiveSyncItem c blockId) :=
  .of_same rfl rfl rfl rfl (Finset.Subset.refl _)

theorem processBlockMessage_relists (blockId messageHash : ItemHash) (unswitchable : Bool) :
    Relists n (n.processBlockMessage c blockId messageHash unswitchable) := by
  unfold processBlockMessage
  dsimp only
  split
  · exact modifyPeer_relists c n _
  · split
    · split
      · exact (receiveSyncItem_relists c n blockId).trans
          (fetchNextBatchOfItemIdsFromPeer_relists c _ unswitchable)
      · exact receiveSyncItem_relists c n blockId
    · exact disconnectFromPeer_relists c n

theorem onItemNotAvailableMessage_relists (item : ItemId) :
    Relists n (n.onItemNotAvailableMessage c item) := by
  have htake : Relists n (n.takeSyncItem c item.itemHash) := modifyPeer_relists c n _
  unfold onItemNotAvailableMessage
  dsimp only
  split
  · exact modifyPeer_relists c n _
  · split
    · split
      · exact htake.trans (modifyPeer_relists c _ _)
      · exact htake.trans (disconnectFromPeer_relists c _)
    · exact .refl n

theorem onMessage_relists (m : Message) : Relists n (n.onMessage c m) := by
  cases m with
  | hello h => exact onHelloMessage_relists c n h
  | connectionAccepted =>
    exact modifyPeer_relists c n fun p => { p with ourState := .connectionAccepted }
  | connectionRejected reason => exact onConnectionRejectedMessage_relists c n reason
  | addressRequest => exact .refl n
  | address unswitchable => exact onAddressMessage_relists c n unswitchable
  | fetchBlockchainItemIds r unswitchable =>
    exact onFetchBlockchainItemIdsMessage_relists c n r unswitchable
  | block blockId messageHash unswitchable =>
    exact processBlockMessage_relists c n blockId messageHash unswitchable
  | itemNotAvailable item => exact onItemNotAvailableMessage_relists c n item
  | closingConnection =>
    exact modifyPeer_relists c n fun p => { p with theyHaveRequestedClose := true }

theorem requestAll_relists (requests : List (ConnId × List ItemHash)) :
    Relists n (requests.foldl requestSyncItemsFromPeer n) := by
  induction requests generalizing n with
  | nil => exact .refl n
  | cons request requests ih =>
    have hfirst : Relists n (n.requestSyncItemsFromPeer request) :=
      .of_same rfl rfl rfl rfl (Finset.Subset.refl _)
    exact hfirst.trans (ih _)

theorem fetchSyncItems_relists (order : List ConnId) : Relists n (n.fetchSyncItems order) := by
  unfold fetchSyncItems
  split
  · exact .refl n
  · exact requestAll_relists n _

theorem dropNewPeer_relists (sharedSecret : Option Nat) :
    Relists n (n.dropNewPeer c sharedSecret) := by
  have hleave : ∀ m : Node, Relists m ((m.unlist c).schedulePeerForDeletion c) :=
    fun m => { unlist_relists c m with }
  cases sharedSecret with
  | none => exact hleave n
  | some secret =>
    have hestablish : Relists n (n.establish c secret) := modifyPeer_relists c n _
    exact hestablish.trans (hleave _)

theorem terminatePeer_relists : Relists n (n.terminatePeer c) :=
  .of_same rfl rfl rfl rfl (Finset.erase_subset _ _)

/-! ## Runs -/

/-- Every step but the opening of a connection. -/
theorem step_relists {a : Act} (h : ∀ direction, a ≠ .openConnection direction) :
    Relists n (n.step a) := by
  cases a with
  | openConnection direction => exact absurd rfl (h direction)
  | establish c secret =>
    simp only [step]
    split
    · exact modifyPeer_relists c n _
    · exact .refl n
  | dropNewPeer c secret =>
    simp only [step]
    split
    · exact dropNewPeer_relists c n secret
    · exact .refl n
  | message c m =>
    simp only [step]
    split
    · exact onMessage_relists c n m
    · exact .refl n
  | answerHello c headBlockNum =>
    simp only [step]
    split
    · exact answerHello_relists c n headBlockNum
    · exact .refl n
  | disconnect c =>
    simp only [step]
    split
    · exact disconnectFromPeer_relists c n
    · exact .refl n
  | disconnectForcibly c =>
    simp only [step]
    split
    · exact movePeerToTerminatingList_relists c n
    · exact .refl n
  | connectionClosed c =>
    simp only [step]
    split
    · exact { unlist_relists c n with }
    · exact .refl n
  | terminate c =>
    simp only [step]
    split
    · exact terminatePeer_relists c n
    · exact .refl n
  | delete c =>
    simp only [step]
    split
    · exact .of_same rfl rfl rfl rfl (Finset.Subset.refl _)
    · exact .refl n
  | fetchSyncItems order =>
    simp only [step]
    split
    · exact fetchSyncItems_relists n order
    · exact .refl n
  | startSynchronizing c unswitchable =>
    simp only [step]
    split
    · exact startSynchronizingWithPeer_relists c n unswitchable
    · exact .refl n
  | progress c q =>
    simp only [step]
    split
    · exact modifyPeer_relists c n _
    · exact .refl n
  | backlog received new suspend => exact .of_same rfl rfl rfl rfl (Finset.Subset.refl _)

/-- What every step keeps: the objects of listed connections have been made. -/
structure Apart (n : Node) : Prop where
  apart : n.ActiveApart
  activeKnown : ∀ c ∈ n.activeConnections, c < n.nextConn
  handshakingKnown : ∀ c ∈ n.handshakingConnections, c < n.nextConn

variable {n}

theorem Apart.relists (h : Apart n) (hstep : Relists n n') : Apart n' where
  apart c hc := by
    rcases hstep.apart c hc with honly | ⟨hactive, hclosing, hterminating⟩
    · exact honly
    · obtain ⟨hfree, hopen, halive⟩ := h.apart c hactive
      exact ⟨fun hin => hfree (hstep.handshaking hin), fun hin => hopen (hclosing hin),
        fun hin => halive (hterminating hin)⟩
  activeKnown c hc := by
    rw [hstep.next]
    rcases hstep.active c hc with hactive | hhandshaking
    · exact h.activeKnown c hactive
    · exact h.handshakingKnown c hhandshaking
  handshakingKnown c hc := by
    rw [hstep.next]
    exact h.handshakingKnown c (hstep.handshaking hc)

/-- The number of a new connection is not in use. -/
theorem Apart.openConnection (h : Apart n) (direction : Direction) :
    Apart (n.openConnection direction) where
  apart c hc := by
    obtain ⟨hfree, hopen, halive⟩ := h.apart c hc
    refine ⟨?_, hopen, halive⟩
    intro hin
    rcases Finset.mem_insert.mp hin with rfl | hold
    · exact Nat.lt_irrefl _ (h.activeKnown _ hc)
    · exact hfree hold
  activeKnown c hc := Nat.lt_succ_of_lt (h.activeKnown c hc)
  handshakingKnown c hc := by
    rcases Finset.mem_insert.mp hc with rfl | hold
    · exact Nat.lt_succ_self _
    · exact Nat.lt_succ_of_lt (h.handshakingKnown c hold)

theorem Apart.step (h : Apart n) (a : Act) : Apart (n.step a) := by
  by_cases hopen : ∃ direction, a = .openConnection direction
  · obtain ⟨direction, rfl⟩ := hopen
    exact h.openConnection direction
  · rw [not_exists] at hopen
    exact h.relists (step_relists n hopen)

theorem run_apart (h : Apart n) (acts : List Act) : Apart (run Node.step n acts) := by
  induction acts generalizing n with
  | nil => exact h
  | cons a acts ih => exact ih (h.step a)

/-- **One list.**  A connection that is active is on no other list. -/
theorem run_activeApart (hactive : n.activeConnections = ∅)
    (hhandshaking : n.handshakingConnections = ∅) (acts : List Act) : (run Node.step n acts).ActiveApart := by
  have hstart : Apart n := by
    constructor
    · intro c hc
      rw [hactive] at hc
      cases hc
    · intro c hc
      rw [hactive] at hc
      cases hc
    · intro c hc
      rw [hhandshaking] at hc
      cases hc
  exact (run_apart hstart acts).apart

end Node

end VizCore.Network
