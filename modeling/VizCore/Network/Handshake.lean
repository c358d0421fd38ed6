import VizCore.Network.Frames

/-!
# Which connections become active

* `active_greeted`: where no connection completes its handshake without an accepted hello,
  every active connection has sent a hello that passed the checks, and was answered with
  `connection_accepted`;
* `strangers_active`: an address message alone makes a connection active, and so does a request
  for ids of a peer that was rejected.
-/

namespace VizCore.Network

open VizCore.Lib

/-- A node that has no connections yet. -/
structure Node.Fresh (n : Node) : Prop where
  nextConn : n.nextConn = 0
  peers : ∀ c, n.peers c = {}
  handshaking : n.handshakingConnections = ∅
  active : n.activeConnections = ∅
  closing : n.closingConnections = ∅
  terminating : n.terminatingConnections = ∅
  toDelete : n.peersToDelete = ∅
  requests : n.activeSyncRequests = ∅

/-- In the run `on_hello_message` took a hello of the connection: it is signed, names the same
chain, and its node was not connected. -/
def Greeted (start : Node) (acts : List Act) (c : ConnId) : Prop :=
  ∃ pre h post, acts = pre ++ .message c (.hello h) :: post ∧
    (run Node.step start pre).Reads c ∧
    (run Node.step start pre).Signed ((run Node.step start pre).peers c) h ∧
    h.chainId = some start.chainId ∧
    ¬ (run Node.step start pre).isAlreadyConnectedToId h.knownId

/-- The steps that complete no handshake but those of accepted peers. -/
def Polite (n : Node) : Act → Prop
  | .message c (.address _) => n.Reads c → n.AddressActivates c →
    (n.peers c).theirState = .connectionAccepted
  | .message c (.fetchBlockchainItemIds r _) => n.Reads c → n.RequestActivates c r →
    (n.peers c).theirState = .connectionAccepted
  | _ => True

/-! ## What is known of a connection -/

/-- The hello that waits for its answer was taken in the run. -/
def Asked (start : Node) (acts : List Act) (c : ConnId) (h : Hello) (already : Bool)
    (sharedSecret : Nat) : Prop :=
  ∃ pre post, acts = pre ++ .message c (.hello h) :: post ∧
    (run Node.step start pre).Reads c ∧
    ((run Node.step start pre).peers c).sharedSecret = sharedSecret ∧
    already = decide ((run Node.step start pre).isAlreadyConnectedToId h.knownId)

variable {start n n' : Node} {acts : List Act} {c d : ConnId} {a : Act}

theorem Greeted.snoc (h : Greeted start acts c) (a : Act) : Greeted start (acts ++ [a]) c := by
  obtain ⟨pre, hello, post, rfl, hmet⟩ := h
  refine ⟨pre, hello, post ++ [a], ?_, hmet⟩
  rw [List.append_assoc]
  rfl

theorem Asked.snoc {h : Hello} {already : Bool} {secret : Nat}
    (hasked : Asked start acts c h already secret) (a : Act) :
    Asked start (acts ++ [a]) c h already secret := by
  obtain ⟨pre, post, rfl, hmet⟩ := hasked
  refine ⟨pre, post ++ [a], ?_, hmet⟩
  rw [List.append_assoc]
  rfl

/-- What the papers of a connection tell about the run. -/
structure Papers.Sound (start : Node) (acts : List Act) (c : ConnId) (v : Papers) : Prop where
  waiting : v.readLoop = .waiting →
    v.theirState = .disconnected ∧ v.chainId = none ∧ v.greeting = none
  unanswered : v.theirState = .justConnected → v.chainId = v.greeting.bind (·.1.chainId)
  asked : ∀ h already, v.greeting = some (h, already) →
    Asked start acts c h already v.sharedSecret
  accepted : v.theirState = .connectionAccepted → Greeted start acts c

theorem Papers.Sound.snoc {v : Papers} (h : v.Sound start acts c) (a : Act) :
    v.Sound start (acts ++ [a]) c where
  waiting := h.waiting
  unanswered := h.unanswered
  asked hello already heq := (h.asked hello already heq).snoc a
  accepted heq := (h.accepted heq).snoc a

/-- What holds of the node after a run: its papers are sound, and only accepted peers are
active. -/
structure Acquainted (start : Node) (acts : List Act) (n : Node) : Prop where
  recover : n.recover = start.recover
  chainId : n.chainId = start.chainId
  activeKnown : ∀ c ∈ n.activeConnections, c < n.nextConn
  handshakingKnown : ∀ c ∈ n.handshakingConnections, c < n.nextConn
  papers : ∀ c, (n.peers c).papers.Sound start acts c
  active : ∀ c ∈ n.activeConnections, (n.peers c).theirState = .connectionAccepted

theorem Acquainted.snoc (h : Acquainted start acts n) (a : Act) :
    Acquainted start (acts ++ [a]) n :=
  { h with papers := fun c => (h.papers c).snoc a }

theorem Acquainted.frame (h : Acquainted start acts n) (hframe : Frame Peer.papers n n') :
    Acquainted start acts n' where
  recover := hframe.recover.trans h.recover
  chainId := hframe.chainId.trans h.chainId
  activeKnown c hc := by
    rw [hframe.nextConn]
    exact h.activeKnown c (hframe.active hc)
  handshakingKnown c hc := by
    rw [hframe.nextConn]
    exact h.handshakingKnown c (hframe.handshaking hc)
  papers c := by
    rw [hframe.peers c]
    exact h.papers c
  active c hc := by
    have hstate := congrArg Papers.theirState (hframe.peers c)
    exact hstate.trans (h.active c (hframe.active hc))

/-- A step that changes the papers of one connection. -/
theorem Acquainted.modify (h : Acquainted start acts n) (f : Peer → Peer)
    (hsound : (f (n.peers c)).papers.Sound start acts c)
    (hactive : c ∈ n.activeConnections → (f (n.peers c)).theirState = .connectionAccepted) :
    Acquainted start acts (n.modifyPeer c f) where
  recover := h.recover
  chainId := h.chainId
  activeKnown := h.activeKnown
  handshakingKnown := h.handshakingKnown
  papers d := by
    by_cases hd : d = c
    · subst hd
      rw [Node.modifyPeer_same]
      exact hsound
    · rw [Node.modifyPeer_other c n f hd]
      exact h.papers d
  active d hd := by
    by_cases heq : d = c
    · subst heq
      rw [Node.modifyPeer_same]
      exact hactive hd
    · rw [Node.modifyPeer_other c n f heq]
      exact h.active d hd

/-- A connection in another state than `connection_accepted` is not active. -/
theorem Acquainted.not_active (h : Acquainted start acts n) {state : ConnectionState}
    (hstate : (n.peers c).theirState = state) (hne : state ≠ .connectionAccepted) :
    c ∉ n.activeConnections := by
  intro hc
  exact hne (hstate.symm.trans (h.active c hc))

/-! ## The steps -/

theorem Acquainted.activate (h : Acquainted start acts n) (hc : c ∈ n.handshakingConnections)
    (haccepted : (n.peers c).theirState = .connectionAccepted) :
    Acquainted start acts (n.movePeerToActiveList c) where
  recover := h.recover
  chainId := h.chainId
  activeKnown d hd := by
    rcases Finset.mem_insert.1 hd with rfl | hd
    · exact h.handshakingKnown d hc
    · exact h.activeKnown d hd
  handshakingKnown d hd := h.handshakingKnown d (Finset.mem_of_mem_erase hd)
  papers := h.papers
  active d hd := by
    rcases Finset.mem_insert.1 hd with rfl | hd
    · exact haccepted
    · exact h.active d hd

theorem Acquainted.openConnection (h : Acquainted start acts n) (direction : Direction) :
    Acquainted start acts (n.openConnection direction) where
  recover := h.recover
  chainId := h.chainId
  activeKnown c hc := Nat.lt_succ_of_lt (h.activeKnown c hc)
  handshakingKnown c hc := by
    rcases Finset.mem_insert.1 hc with rfl | hc
    · exact Nat.lt_succ_self _
    · exact Nat.lt_succ_of_lt (h.handshakingKnown c hc)
  papers c := by
    by_cases hc : c = n.nextConn
    · subst hc
      show ((Function.update n.peers n.nextConn _) n.nextConn).papers.Sound _ _ _
      rw [Function.update_self]
      constructor
      · intro _
        exact ⟨rfl, rfl, rfl⟩
      · intro hstate
        cases hstate
      · intro hello already heq
        cases heq
      · intro hstate
        cases hstate
    · show ((Function.update n.peers n.nextConn _) c).papers.Sound _ _ _
      rw [Function.update_of_ne hc]
      exact h.papers c
  active c hc := by
    have hne : c ≠ n.nextConn := Nat.ne_of_lt (h.activeKnown c hc)
    show ((Function.update n.peers n.nextConn _) c).theirState = _
    rw [Function.update_of_ne hne]
    exact h.active c hc

theorem Acquainted.establish (h : Acquainted start acts n)
    (hwaiting : (n.peers c).readLoop = .waiting) (secret : Nat) :
    Acquainted start acts (n.establish c secret) := by
  obtain ⟨hstate, hchain, hgreeting⟩ := (h.papers c).waiting hwaiting
  apply h.modify
  · constructor
    · intro hloop
      cases hloop
    · intro _
      show (n.peers c).chainId = (n.peers c).greeting.bind _
      have hchain' : (n.peers c).chainId = none := hchain
      have hgreeting' : (n.peers c).greeting = none := hgreeting
      rw [hchain', hgreeting']
      rfl
    · intro hello already heq
      have hsome : (n.peers c).greeting = some (hello, already) := heq
      have hnone : (n.peers c).greeting = none := hgreeting
      rw [hnone] at hsome
      cases hsome
    · intro hstate'
      cases hstate'
  · intro hc
    exact absurd hc (h.not_active hstate (by decide))

/-- The read loop ends. -/
theorem Acquainted.endReadLoop (h : Acquainted start acts n) (c : ConnId) :
    Acquainted start acts (n.modifyPeer c fun p => { p with readLoop := .over }) := by
  apply h.modify
  · constructor
    · intro hloop
      cases hloop
    · exact (h.papers c).unanswered
    · exact (h.papers c).asked
    · exact (h.papers c).accepted
  · exact h.active c

theorem Acquainted.onHelloMessage (h : Acquainted start acts n) (hrun : n = run Node.step start acts)
    (hreads : n.Reads c) (hello : Hello) :
    Acquainted start (acts ++ [.message c (.hello hello)]) (n.onHelloMessage c hello) := by
  unfold Node.onHelloMessage
  split
  · exact h.snoc _
  · apply (h.snoc (.message c (.hello hello))).modify
    · have hpapers := (h.papers c).snoc (.message c (.hello hello))
      constructor
      · intro hloop
        have hwaiting : (n.peers c).readLoop = .waiting := hloop
        rw [hreads.1] at hwaiting
        cases hwaiting
      · intro hstate
        have hchain : (n.peers c).chainId = (n.peers c).greeting.bind (·.1.chainId) :=
          (h.papers c).unanswered hstate
        show hello.chainId.or (n.peers c).chainId = hello.chainId
        rw [hchain, hreads.2]
        exact Option.or_none
      · intro hello' already heq
        cases heq
        refine ⟨acts, [], rfl, ?_, ?_, ?_⟩
        · rw [← hrun]
          exact hreads
        · rw [← hrun]
          rfl
        · rw [← hrun]
      · exact hpapers.accepted
    · exact h.active c

/-- A hello that is accepted has passed the checks. -/
theorem Asked.greeted {hello : Hello} (hasked : Asked start acts c hello false secret)
    (hrecover : ∀ pre, (run Node.step start pre).recover = start.recover)
    (hsigned : start.recover hello.signedSharedSecret secret = some hello.nodePublicKey)
    (hchain : hello.chainId = some start.chainId) : Greeted start acts c := by
  obtain ⟨pre, post, rfl, hreads, hsecret, halready⟩ := hasked
  refine ⟨pre, hello, post, rfl, hreads, ?_, hchain, ?_⟩
  · unfold Node.Signed
    rw [hsecret, hrecover pre]
    exact hsigned
  · exact of_decide_eq_false halready.symm

/-- A peer whose hello waits for the answer is told it. -/
theorem Acquainted.answer (h : Acquainted start acts n) {state : ConnectionState}
    (hloop : (n.peers c).readLoop = .reading) (hinactive : c ∉ n.activeConnections)
    (hstate : state = .connectionRejected ∨
      state = .connectionAccepted ∧ Greeted start acts c) :
    Acquainted start acts ((n.modifyPeer c fun p => { p with greeting := none }).answer c state) := by
  rw [Node.answer, Node.modifyPeer_modifyPeer]
  apply h.modify
  · constructor
    · intro hwaiting
      have hwaiting' : (n.peers c).readLoop = .waiting := hwaiting
      rw [hloop] at hwaiting'
      cases hwaiting'
    · intro hjust
      have hjust' : state = .justConnected := hjust
      rcases hstate with rfl | ⟨rfl, -⟩
      · cases hjust'
      · cases hjust'
    · intro hello already heq
      cases heq
    · intro haccepted
      have haccepted' : state = .connectionAccepted := haccepted
      rcases hstate with rfl | ⟨-, hgreeted⟩
      · cases haccepted'
      · exact hgreeted
  · intro hc
    exact absurd hc hinactive

/-- An unexpected hello is forgotten. -/
theorem Acquainted.clearGreeting (h : Acquainted start acts n)
    (hstate : (n.peers c).theirState ≠ .justConnected) :
    Acquainted start acts (n.modifyPeer c fun p => { p with greeting := none }) := by
  apply h.modify
  · constructor
    · intro hwaiting
      obtain ⟨hdisconnected, hchain, -⟩ := (h.papers c).waiting hwaiting
      exact ⟨hdisconnected, hchain, rfl⟩
    · intro hjust
      exact absurd hjust hstate
    · intro hello already heq
      cases heq
    · exact (h.papers c).accepted
  · exact h.active c

theorem Acquainted.disconnect (h : Acquainted start acts n) (c : ConnId) :
    Acquainted start acts (n.disconnectFromPeer c) :=
  h.frame (Node.disconnectFromPeer_calm c n).papers

theorem Acquainted.answerHello (h : Acquainted start acts n)
    (hrecover : ∀ pre, (run Node.step start pre).recover = start.recover)
    (hloop : (n.peers c).readLoop = .reading) (headBlockNum : Nat) :
    Acquainted start acts (n.answerHello c headBlockNum) := by
  unfold Node.answerHello
  split
  · exact h
  · rename_i hello already hgreeting
    simp only [Node.modifyPeer_same]
    split
    · rename_i hjust
      have hinactive : c ∉ n.activeConnections := h.not_active hjust (by decide)
      have hreject := h.answer hloop hinactive (.inl rfl)
      have hdrop := hreject.disconnect c
      split
      · exact hdrop
      · rename_i hsigned
        split
        · exact hdrop
        · split
          · exact hdrop
          · rename_i hchain
            split
            · exact hreject
            · rename_i halready
              split
              · exact hreject
              · split
                · exact hreject
                · refine h.answer hloop hinactive (.inr ⟨rfl, ?_⟩)
                  have hfalse : already = false := Bool.not_eq_true _ ▸ halready
                  rw [hfalse] at hgreeting
                  have hasked := (h.papers c).asked hello false hgreeting
                  refine hasked.greeted hrecover ?_ ?_
                  · rw [← h.recover]
                    exact not_not.1 hsigned
                  · have hpapers : (n.peers c).chainId =
                      (n.peers c).greeting.bind (·.1.chainId) := (h.papers c).unanswered hjust
                    have hnamed : (n.peers c).chainId = some n.chainId := not_not.1 hchain
                    rw [← h.chainId, ← hnamed, hpapers, hgreeting]
                    rfl
    · rename_i hjust
      exact (h.clearGreeting hjust).disconnect c

theorem step_recover (n : Node) (a : Act) : (n.step a).recover = n.recover := by
  cases a with
  | openConnection direction => rfl
  | establish c secret =>
    simp only [Node.step]
    split
    · rfl
    · rfl
  | dropNewPeer c secret =>
    simp only [Node.step]
    split
    · cases secret with
      | none => rfl
      | some secret => rfl
    · rfl
  | message c m =>
    simp only [Node.step]
    split
    · cases m with
      | hello h => exact (Node.onHelloMessage_calm c n h).recover
      | connectionAccepted => rfl
      | connectionRejected reason => exact (Node.onConnectionRejectedMessage_calm c n _).recover
      | addressRequest => rfl
      | address unswitchable =>
        rcases Node.onAddressMessage_cases c n unswitchable with ⟨-, h⟩ | ⟨-, h⟩
        · exact h.recover
        · exact h.recover
      | fetchBlockchainItemIds r unswitchable =>
        rcases Node.onFetchBlockchainItemIdsMessage_cases c n r unswitchable with
          h | ⟨-, m, hm, -, h⟩
        · exact h.recover
        · exact h.recover.trans hm.recover
      | block blockId messageHash unswitchable =>
        exact (Node.processBlockMessage_frame c n _ _ _).recover
      | itemNotAvailable item => exact (Node.onItemNotAvailableMessage_frame c n item).recover
      | closingConnection => rfl
    · rfl
  | answerHello c headBlockNum =>
    simp only [Node.step]
    split
    · exact (Node.answerHello_calm c n headBlockNum).recover
    · rfl
  | disconnect c =>
    simp only [Node.step]
    split
    · exact (Node.disconnectFromPeer_calm c n).recover
    · rfl
  | disconnectForcibly c =>
    simp only [Node.step]
    split
    · rfl
    · rfl
  | connectionClosed c =>
    simp only [Node.step]
    split
    · rfl
    · rfl
  | terminate c =>
    simp only [Node.step]
    split
    · rfl
    · rfl
  | delete c =>
    simp only [Node.step]
    split
    · rfl
    · rfl
  | fetchSyncItems order =>
    simp only [Node.step]
    split
    · exact (Node.fetchSyncItems_frame n order).recover
    · rfl
  | startSynchronizing c unswitchable =>
    simp only [Node.step]
    split
    · exact (Node.startSynchronizingWithPeer_calm c n unswitchable).recover
    · rfl
  | progress c q =>
    simp only [Node.step]
    split
    · rfl
    · rfl
  | backlog received new suspend => rfl

theorem run_recover (start : Node) (acts : List Act) :
    (run Node.step start acts).recover = start.recover := by
  induction acts generalizing start with
  | nil => rfl
  | cons a acts ih => exact (ih (start.step a)).trans (step_recover start a)

/-- The connection leaves the lists. -/
theorem Acquainted.unlist (h : Acquainted start acts n) (c : ConnId) :
    Acquainted start acts (n.unlist c) :=
  h.frame (Node.unlist_calm c n _).toFrame

/-- Every message keeps what is known. -/
theorem Acquainted.message (h : Acquainted start acts n) (hrun : n = run Node.step start acts)
    (hreads : n.Reads c) (m : Message) (hpolite : Polite n (.message c m)) :
    Acquainted start (acts ++ [.message c m]) (n.onMessage c m) := by
  have hnext := h.snoc (.message c m)
  cases m with
  | hello hello => exact h.onHelloMessage hrun hreads hello
  | connectionAccepted =>
    exact hnext.frame (Node.onConnectionAcceptedMessage_calm c n).papers
  | connectionRejected reason =>
    exact hnext.frame (Node.onConnectionRejectedMessage_calm c n reason).papers
  | addressRequest => exact hnext
  | address unswitchable =>
    rcases Node.onAddressMessage_cases c n unswitchable with ⟨-, hframe⟩ | ⟨hactivates, hframe⟩
    · exact hnext.frame hframe.papers
    · exact (hnext.activate hactivates.1 (hpolite hreads hactivates)).frame hframe.papers
  | fetchBlockchainItemIds r unswitchable =>
    rcases Node.onFetchBlockchainItemIdsMessage_cases c n r unswitchable with
      hframe | ⟨hactivates, m, hm, hlisted, hframe⟩
    · exact hnext.frame hframe.papers
    · have haccepted := hpolite hreads hactivates
      have hstate := congrArg Papers.theirState (hm.papers.peers c)
      exact ((hnext.frame hm.papers).activate hlisted (hstate.trans haccepted)).frame
        hframe.papers
  | block blockId messageHash unswitchable =>
    exact hnext.frame (Node.processBlockMessage_frame c n _ _ _)
  | itemNotAvailable item => exact hnext.frame (Node.onItemNotAvailableMessage_frame c n item)
  | closingConnection => exact hnext.frame (Node.onClosingConnectionMessage_calm c n).papers

/-- Every polite step keeps what is known. -/
theorem Acquainted.step (h : Acquainted start acts n) (hrun : n = run Node.step start acts)
    (hpolite : Polite n a) : Acquainted start (acts ++ [a]) (n.step a) := by
  have hnext := h.snoc a
  cases a with
  | openConnection direction => exact hnext.openConnection direction
  | establish c secret =>
    simp only [Node.step]
    split
    · rename_i hnew
      exact hnext.establish hnew.2 secret
    · exact hnext
  | dropNewPeer c secret =>
    simp only [Node.step]
    split
    · rename_i hnew
      cases secret with
      | none => exact { hnext.unlist c with }
      | some secret => exact { (hnext.establish hnew.2 secret).unlist c with }
    · exact hnext
  | message c m =>
    simp only [Node.step]
    split
    · rename_i hreads
      exact h.message hrun hreads m hpolite
    · exact hnext
  | answerHello c headBlockNum =>
    simp only [Node.step]
    split
    · rename_i hloop
      exact hnext.answerHello (run_recover start) hloop headBlockNum
    · exact hnext
  | disconnect c =>
    simp only [Node.step]
    split
    · exact hnext.disconnect c
    · exact hnext
  | disconnectForcibly c =>
    simp only [Node.step]
    split
    · exact hnext.frame (Node.movePeerToTerminatingList_frame c n _)
    · exact hnext
  | connectionClosed c =>
    simp only [Node.step]
    split
    · exact { (hnext.unlist c).endReadLoop c with }
    · exact hnext
  | terminate c =>
    simp only [Node.step]
    split
    · exact { hnext with }
    · exact hnext
  | delete c =>
    simp only [Node.step]
    split
    · exact { hnext.endReadLoop c with }
    · exact hnext
  | fetchSyncItems order =>
    simp only [Node.step]
    split
    · exact hnext.frame (Node.fetchSyncItems_frame n order)
    · exact hnext
  | startSynchronizing c unswitchable =>
    simp only [Node.step]
    split
    · exact hnext.frame (Node.startSynchronizingWithPeer_calm c n unswitchable).papers
    · exact hnext
  | progress c q =>
    simp only [Node.step]
    split
    · exact hnext.frame (Node.setProgress_calm c n q).papers
    · exact hnext
  | backlog received new suspend => exact { hnext with }

theorem Node.Fresh.acquainted (h : start.Fresh) : Acquainted start [] start where
  recover := rfl
  chainId := rfl
  activeKnown c hc := by
    rw [h.active] at hc
    exact absurd hc (Finset.notMem_empty c)
  handshakingKnown c hc := by
    rw [h.handshaking] at hc
    exact absurd hc (Finset.notMem_empty c)
  papers c := by
    rw [h.peers c]
    constructor
    · intro _
      exact ⟨rfl, rfl, rfl⟩
    · intro hstate
      cases hstate
    · intro hello already heq
      cases heq
    · intro hstate
      cases hstate
  active c hc := by
    rw [h.active] at hc
    exact absurd hc (Finset.notMem_empty c)

/-- **Active connections**: in every run of a fresh node in which no handshake is completed but
those of accepted peers, an active connection has sent a hello that passed the checks, and was
answered with `connection_accepted`. -/
theorem active_greeted (hfresh : start.Fresh) (hpolite : Guarded Node.step Polite start acts) :
    ∀ c ∈ (run Node.step start acts).activeConnections,
      ((run Node.step start acts).peers c).theirState = .connectionAccepted ∧
        Greeted start acts c := by
  have hknown : Acquainted start acts (run Node.step start acts) := by
    refine run_history (P := fun acts => Acquainted start acts (run Node.step start acts))
      hfresh.acquainted ?_ hpolite
    intro acts a hacts hok
    rw [run_snoc]
    exact hacts.step rfl hok
  intro c hc
  have haccepted := hknown.active c hc
  exact ⟨haccepted, (hknown.papers c).accepted haccepted⟩

/-- A node for which a signature is the sum of the key and the shared secret. -/
def plainNode : Node where
  recover signature secret := some (signature - secret)
  nodeId := 1
  chainId := 9
  maximumNumberOfConnections := 10

theorem plainNode_fresh : plainNode.Fresh := ⟨rfl, fun _ => rfl, rfl, rfl, rfl, rfl, rfl, rfl⟩

/-- A hello of the node with key 7 over the shared secret 5. -/
def plainHello : Hello where
  nodePublicKey := 7
  signedSharedSecret := 12
  nodeId := some 8
  chainId := some 9
  lastKnownForkBlockNumber := none

/-- A peer asks for ids after it has been accepted. -/
def acceptedRun : List Act :=
  [.openConnection .inbound, .establish 0 5, .message 0 (.hello plainHello), .answerHello 0 100,
    .message 0 (.fetchBlockchainItemIds ⟨[], [], true⟩ false)]

theorem active_greeted_plain : 0 ∈ (run Node.step plainNode acceptedRun).activeConnections ∧
    Greeted plainNode acceptedRun 0 := by
  have hactive : 0 ∈ (run Node.step plainNode acceptedRun).activeConnections := by
    decide +kernel
  refine ⟨hactive, (active_greeted plainNode_fresh ?_ 0 hactive).2⟩
  refine ⟨trivial, trivial, trivial, trivial, fun _ _ => ?_, trivial⟩
  decide +kernel

/-- The hello of a node whose id is connected already. -/
def ownHello : Hello := { plainHello with nodeId := some 1 }

/-- A connection becomes active without any hello when it sends an address message, and after
a rejected hello when it asks for ids. -/
theorem strangers_active :
    (∃ acts, 0 ∈ (run Node.step plainNode acts).activeConnections ∧
      ((run Node.step plainNode acts).peers 0).theirState = .justConnected ∧
      ¬ Greeted plainNode acts 0) ∧
    ∃ acts, 0 ∈ (run Node.step plainNode acts).activeConnections ∧
      ((run Node.step plainNode acts).peers 0).theirState = .connectionRejected := by
  constructor
  · refine ⟨[.openConnection .inbound, .establish 0 5, .message 0 (.address false)],
      by decide +kernel, by decide +kernel, ?_⟩
    rintro ⟨pre, hello, post, heq, -⟩
    have hmem : Act.message 0 (.hello hello) ∈ pre ++ .message 0 (.hello hello) :: post :=
      List.mem_append_right _ List.mem_cons_self
    rw [← heq] at hmem
    rcases List.mem_cons.1 hmem with h | hmem
    · cases h
    · rcases List.mem_cons.1 hmem with h | hmem
      · cases h
      · cases List.mem_singleton.1 hmem
  · exact ⟨[.openConnection .inbound, .establish 0 5, .message 0 (.hello ownHello),
      .answerHello 0 100, .message 0 (.fetchBlockchainItemIds ⟨[], [], true⟩ false)],
      by decide +kernel, by decide +kernel⟩

end VizCore.Network
