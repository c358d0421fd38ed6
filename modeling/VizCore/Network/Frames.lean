import VizCore.Network.Node

/-!
# What the steps of a node leave alone

`Frame φ n n'` says that a step changes nothing that `φ` sees of a peer and makes no connection
active.  `Peer.core` is what the handshake and the requests are about; the steps that touch
none of it have a `Frame` lemma here.
-/

namespace VizCore.Network

open VizCore.Lib

/-- The fields that the handshake is about. -/
structure Papers where
  readLoop : ReadLoop
  direction : Direction
  theirState : ConnectionState
  sharedSecret : Nat
  chainId : Option ChainId
  greeting : Option (Hello × Bool)

def Peer.papers (p : Peer) : Papers where
  readLoop := p.readLoop
  direction := p.direction
  theirState := p.theirState
  sharedSecret := p.sharedSecret
  chainId := p.chainId
  greeting := p.greeting

/-- The fields that the requests of blocks are about. -/
structure Debts where
  readLoop : ReadLoop
  syncItems : Finset ItemHash

def Peer.debts (p : Peer) : Debts where
  readLoop := p.readLoop
  syncItems := p.syncItemsRequestedFromPeer

def Peer.core (p : Peer) : Papers × Debts := (p.papers, p.debts)

/-- Nothing changes that `φ` sees of a peer, and no connection joins a list of live ones. -/
structure Frame {β : Type} (φ : Peer → β) (n n' : Node) : Prop where
  recover : n'.recover = n.recover
  chainId : n'.chainId = n.chainId
  nextConn : n'.nextConn = n.nextConn
  peers : ∀ c, φ (n'.peers c) = φ (n.peers c)
  active : n'.activeConnections ⊆ n.activeConnections
  handshaking : n'.handshakingConnections ⊆ n.handshakingConnections

namespace Frame

variable {β γ : Type} {φ : Peer → β} {n n' n'' : Node}

theorem refl (φ : Peer → β) (n : Node) : Frame φ n n where
  recover := rfl
  chainId := rfl
  nextConn := rfl
  peers _ := rfl
  active := Finset.Subset.refl _
  handshaking := Finset.Subset.refl _

theorem trans (h : Frame φ n n') (h' : Frame φ n' n'') : Frame φ n n'' where
  recover := h'.recover.trans h.recover
  chainId := h'.chainId.trans h.chainId
  nextConn := h'.nextConn.trans h.nextConn
  peers c := (h'.peers c).trans (h.peers c)
  active := h'.active.trans h.active
  handshaking := h'.handshaking.trans h.handshaking

theorem image (h : Frame φ n n') (ψ : β → γ) : Frame (fun p => ψ (φ p)) n n' :=
  { h with peers := fun c => congrArg ψ (h.peers c) }

end Frame

/-- A frame that leaves the requests alone as well, and brings no connection nearer to its
end. -/
structure Calm {β : Type} (φ : Peer → β) (n n' : Node) : Prop extends Frame φ n n' where
  requests : n'.activeSyncRequests = n.activeSyncRequests
  terminating : n'.terminatingConnections ⊆ n.terminatingConnections
  toDelete : n'.peersToDelete ⊆ n.peersToDelete

namespace Calm

variable {β γ : Type} {φ : Peer → β} {n n' n'' : Node}

theorem refl (φ : Peer → β) (n : Node) : Calm φ n n :=
  { Frame.refl φ n with
    requests := rfl
    terminating := Finset.Subset.refl _
    toDelete := Finset.Subset.refl _ }

theorem trans (h : Calm φ n n') (h' : Calm φ n' n'') : Calm φ n n'' :=
  { h.toFrame.trans h'.toFrame with
    requests := h'.requests.trans h.requests
    terminating := h'.terminating.trans h.terminating
    toDelete := h'.toDelete.trans h.toDelete }

theorem papers (h : Calm Peer.core n n') : Frame Peer.papers n n' := h.toFrame.image Prod.fst

theorem debts (h : Calm Peer.core n n') : Calm Peer.debts n n' :=
  { h.toFrame.image Prod.snd with
    requests := h.requests
    terminating := h.terminating
    toDelete := h.toDelete }

end Calm

namespace Node

variable {β : Type} {φ : Peer → β} (c : ConnId) (n : Node)

@[simp] theorem modifyPeer_same (f : Peer → Peer) :
    (n.modifyPeer c f).peers c = f (n.peers c) := Function.update_self ..

theorem modifyPeer_other {d : ConnId} (f : Peer → Peer) (h : d ≠ c) :
    (n.modifyPeer c f).peers d = n.peers d := Function.update_of_ne h ..

theorem modifyPeer_modifyPeer (f g : Peer → Peer) :
    (n.modifyPeer c f).modifyPeer c g = n.modifyPeer c fun p => g (f p) := by
  unfold modifyPeer
  simp only [Function.update_self, Function.update_idem]

theorem modifyPeer_calm {f : Peer → Peer} (hf : φ (f (n.peers c)) = φ (n.peers c)) :
    Calm φ n (n.modifyPeer c f) where
  recover := rfl
  chainId := rfl
  nextConn := rfl
  peers d := by
    by_cases hd : d = c
    · subst hd
      rw [modifyPeer_same, hf]
    · rw [modifyPeer_other c n f hd]
  active := Finset.Subset.refl _
  handshaking := Finset.Subset.refl _
  requests := rfl
  terminating := Finset.Subset.refl _
  toDelete := Finset.Subset.refl _

theorem unlist_calm (φ : Peer → β) : Calm φ n (n.unlist c) where
  recover := rfl
  chainId := rfl
  nextConn := rfl
  peers _ := rfl
  active := Finset.erase_subset _ _
  handshaking := Finset.erase_subset _ _
  requests := rfl
  terminating := Finset.erase_subset _ _
  toDelete := Finset.Subset.refl _

theorem movePeerToClosingList_calm (φ : Peer → β) : Calm φ n (n.movePeerToClosingList c) :=
  { unlist_calm c n φ with }

theorem movePeerToTerminatingList_frame (φ : Peer → β) :
    Frame φ n (n.movePeerToTerminatingList c) :=
  { (unlist_calm c n φ).toFrame with }

theorem disconnectFromPeer_calm : Calm Peer.core n (n.disconnectFromPeer c) := by
  apply (movePeerToClosingList_calm c n _).trans
  apply modifyPeer_calm
  split
  · rfl
  · rfl

theorem fetchNextBatchOfItemIdsFromPeer_calm (unswitchable : Bool) :
    Calm Peer.core n (n.fetchNextBatchOfItemIdsFromPeer c unswitchable) := by
  unfold fetchNextBatchOfItemIdsFromPeer
  split
  · exact disconnectFromPeer_calm c n
  · exact modifyPeer_calm c n rfl

theorem startSynchronizingWithPeer_calm (unswitchable : Bool) :
    Calm Peer.core n (n.startSynchronizingWithPeer c unswitchable) := by
  refine Calm.trans ?_ (fetchNextBatchOfItemIdsFromPeer_calm c _ unswitchable)
  exact modifyPeer_calm c n rfl

theorem onConnectionAcceptedMessage_calm :
    Calm Peer.core n (n.onConnectionAcceptedMessage c) := modifyPeer_calm c n rfl

theorem onConnectionRejectedMessage_calm (reason : RejectionReason) :
    Calm Peer.core n (n.onConnectionRejectedMessage c reason) := by
  unfold onConnectionRejectedMessage
  split
  · refine Calm.trans ?_ (modifyPeer_calm c _ rfl)
    split
    · exact movePeerToClosingList_calm c n _
    · exact Calm.refl _ n
  · exact Calm.refl _ n

theorem onClosingConnectionMessage_calm :
    Calm Peer.core n (n.onClosingConnectionMessage c) := modifyPeer_calm c n rfl

theorem setProgress_calm (q : Progress) : Calm Peer.core n (n.setProgress c q) :=
  modifyPeer_calm c n rfl

/-! ## The two messages that make a connection active -/

/-- The address message is what the connection still lacked. -/
def AddressActivates : Prop :=
  c ∈ n.handshakingConnections ∧ (n.peers c).ourState ≠ .connectionRejected ∧
    (n.peers c).theirState ≠ .connectionRejected

instance : Decidable (n.AddressActivates c) := inferInstanceAs (Decidable (_ ∧ _ ∧ _))

theorem onAddressMessage_cases (unswitchable : Bool) :
    (¬ n.AddressActivates c ∧ Calm Peer.core n (n.onAddressMessage c unswitchable)) ∨
    (n.AddressActivates c ∧
      Calm Peer.core (n.movePeerToActiveList c) (n.onAddressMessage c unswitchable)) := by
  unfold onAddressMessage AddressActivates
  split
  · rename_i hlisted
    split
    · rename_i hours
      exact .inl ⟨fun h => h.2.1 hours, disconnectFromPeer_calm c n⟩
    · rename_i hours
      split
      · rename_i htheirs
        exact .inl ⟨fun h => h.2.2 htheirs, disconnectFromPeer_calm c n⟩
      · rename_i htheirs
        exact .inr ⟨⟨hlisted, hours, htheirs⟩, startSynchronizingWithPeer_calm c _ _⟩
  · rename_i hlisted
    exact .inl ⟨fun h => hlisted h.1, Calm.refl _ n⟩

/-- The request for ids completes the handshake. -/
def RequestActivates (r : IdsRequest) : Prop :=
  ¬ n.Inhibited c r ∧ (n.peers c).direction = .inbound ∧ c ∈ n.handshakingConnections

instance (r : IdsRequest) : Decidable (n.RequestActivates c r) :=
  inferInstanceAs (Decidable (_ ∧ _ ∧ _))

theorem noteIdsRequest_calm (r : IdsRequest) (unswitchable : Bool) :
    Calm Peer.core n (n.noteIdsRequest c r unswitchable) := by
  have hnote : Calm Peer.core n (n.modifyPeer c fun p =>
      { p with peerNeedsSyncItemsFromUs := !decide r.InSync }) := modifyPeer_calm c n rfl
  unfold noteIdsRequest
  simp only
  split
  · exact hnote.trans (startSynchronizingWithPeer_calm c _ unswitchable)
  · exact hnote

theorem onFetchBlockchainItemIdsMessage_cases (r : IdsRequest) (unswitchable : Bool) :
    Calm Peer.core n (n.onFetchBlockchainItemIdsMessage c r unswitchable) ∨
    (n.RequestActivates c r ∧ ∃ m, Calm Peer.core n m ∧ c ∈ m.handshakingConnections ∧
      Calm Peer.core (m.movePeerToActiveList c)
        (n.onFetchBlockchainItemIdsMessage c r unswitchable)) := by
  have hframe := noteIdsRequest_calm c n r unswitchable
  unfold onFetchBlockchainItemIdsMessage
  simp only
  generalize n.noteIdsRequest c r unswitchable = m at hframe
  split
  · exact .inl (hframe.trans (disconnectFromPeer_calm c m))
  · rename_i hinhibited
    split
    · rename_i hactivates
      have hdirection := congrArg (fun v => v.1.direction) (hframe.toFrame.peers c)
      refine .inr ⟨⟨hinhibited, ?_, hframe.handshaking hactivates.2⟩, m, hframe,
        hactivates.2, startSynchronizingWithPeer_calm c _ _⟩
      exact hdirection.symm.trans hactivates.1
    · exact .inl hframe

/-! ## The requests and the handshake leave each other alone -/

theorem requestSyncItemsFromPeer_frame (request : ConnId × List ItemHash) :
    Frame Peer.papers n (n.requestSyncItemsFromPeer request) := by
  have hmodify : Frame Peer.papers n (n.modifyPeer request.1 fun p =>
      { p with
        syncItemsRequestedFromPeer := p.syncItemsRequestedFromPeer ∪ request.2.toFinset }) :=
    (modifyPeer_calm request.1 n rfl).toFrame
  exact { hmodify with }

theorem requestAll_frame (requests : List (ConnId × List ItemHash)) :
    Frame Peer.papers n (requests.foldl requestSyncItemsFromPeer n) := by
  induction requests generalizing n with
  | nil => exact Frame.refl _ n
  | cons request requests ih => exact (requestSyncItemsFromPeer_frame n request).trans (ih _)

theorem fetchSyncItems_frame (order : List ConnId) :
    Frame Peer.papers n (n.fetchSyncItems order) := by
  unfold fetchSyncItems
  split
  · exact Frame.refl _ n
  · exact requestAll_frame n _

theorem takeSyncItem_frame (item : ItemHash) : Frame Peer.papers n (n.takeSyncItem c item) :=
  (modifyPeer_calm c n rfl).toFrame

theorem receiveSyncItem_frame (blockId : ItemHash) :
    Frame Peer.papers n (n.receiveSyncItem c blockId) :=
  { takeSyncItem_frame c n blockId with }

theorem processBlockMessage_frame (blockId messageHash : ItemHash) (unswitchable : Bool) :
    Frame Peer.papers n (n.processBlockMessage c blockId messageHash unswitchable) := by
  unfold processBlockMessage
  simp only
  split
  · exact (modifyPeer_calm c n rfl).toFrame
  · split
    · have hreceived := receiveSyncItem_frame c n blockId
      split
      · exact hreceived.trans (fetchNextBatchOfItemIdsFromPeer_calm c _ _).papers
      · exact hreceived
    · exact (disconnectFromPeer_calm c n).papers

theorem onItemNotAvailableMessage_frame (item : ItemId) :
    Frame Peer.papers n (n.onItemNotAvailableMessage c item) := by
  unfold onItemNotAvailableMessage
  simp only
  split
  · exact (modifyPeer_calm c n rfl).toFrame
  · split
    · have htaken := takeSyncItem_frame c n item.itemHash
      split
      · exact htaken.trans ((modifyPeer_calm c _ rfl).toFrame)
      · exact htaken.trans (disconnectFromPeer_calm c _).papers
    · exact Frame.refl _ n

/-- The answer to a hello changes what is known of the peer, and may disconnect it. -/
theorem answer_calm (state : ConnectionState) : Calm Peer.debts n (n.answer c state) :=
  modifyPeer_calm c n rfl

theorem onHelloMessage_calm (h : Hello) : Calm Peer.debts n (n.onHelloMessage c h) := by
  unfold onHelloMessage
  split
  · exact Calm.refl _ n
  · exact modifyPeer_calm c n rfl

theorem answerHello_calm (headBlockNum : Nat) :
    Calm Peer.debts n (n.answerHello c headBlockNum) := by
  unfold answerHello
  split
  · exact Calm.refl _ n
  · rename_i h alreadyConnected _
    have hclear : Calm Peer.debts n (n.modifyPeer c fun p => { p with greeting := none }) :=
      modifyPeer_calm c n rfl
    have hreject := hclear.trans (answer_calm c _ .connectionRejected)
    have hdrop := hreject.trans (disconnectFromPeer_calm c _).debts
    simp only
    split
    · split
      · exact hdrop
      · split
        · exact hdrop
        · split
          · exact hdrop
          · split
            · exact hreject
            · split
              · exact hreject
              · split
                · exact hreject
                · exact hclear.trans (answer_calm c _ .connectionAccepted)
    · exact hclear.trans (disconnectFromPeer_calm c _).debts

end Node

end VizCore.Network
