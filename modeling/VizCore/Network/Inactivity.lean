import VizCore.Network.Lists

/-!
# Connections that have gone quiet

One run of `terminate_inactive_connections_loop`.  It sorts the connections into lists and then
works through the lists; the walk over the active ones ends at the first that makes no progress
with the blocks it was asked for.

* `unresponsive_dropped_iff`: silent and unresponsive peers are dropped exactly when every active
  connection without such progress has gone silent altogether;
* `sortActive_stops`: otherwise the walk does not look at the connections that come later.

The sets are visited in any order, and the clock is read once for each threshold.  That an active
connection is on no other list holds in every run (`run_activeApart`).
-/

namespace VizCore.Network

open VizCore.Lib

/-- `fc::time_point`, in microseconds. -/
abbrev TimePoint := Int

def seconds (n : Nat) : Int := 1000000 * n

/-- `GRAPHENE_NET_PEER_DISCONNECT_TIMEOUT` -/
def peerDisconnectTimeout : Nat := 20

/-- `failed_terminate_timeout_seconds` -/
def failedTerminateTimeout : Nat := 120

/-- The times that a connection keeps, and those of the requests that wait for its answer. -/
structure Timers where
  connectionInitiationTime : TimePoint := 0
  connectionClosedTime : TimePoint := 0
  connectionTerminatedTime : TimePoint := 0
  lastMessageReceivedTime : TimePoint := 0
  lastMessageSentTime : TimePoint := 0
  lastSyncItemReceivedTime : TimePoint := 0
  itemIdsRequestedTime : TimePoint := 0
  itemsRequestedTime : ItemId → TimePoint := fun _ => 0

/-- What the clock says when a threshold is computed, and while connections are closed. -/
structure Readings where
  handshakingDisconnect : TimePoint
  activeDisconnect : TimePoint
  activeSendKeepalive : TimePoint
  activeIgnoredRequest : TimePoint
  closingDisconnect : TimePoint
  failedTerminate : TimePoint
  close : TimePoint

/-- The node with its timers, the connections that it has closed and the messages that it has
sent to them. -/
structure TimedNode extends Node where
  timers : ConnId → Timers := fun _ => {}
  recentBlockIntervalInSeconds : Nat := 3
  peerInactivityTimeout : Nat := 5
  closed : List ConnId := []
  closingMessages : List ConnId := []
  currentTimeRequests : List ConnId := []

/-- The orders in which the sets of connections are visited. -/
structure Visits (n : Node) where
  handshaking : List ConnId
  active : List ConnId
  closing : List ConnId
  terminating : List ConnId
  mem_handshaking : ∀ c, c ∈ handshaking ↔ c ∈ n.handshakingConnections
  mem_active : ∀ c, c ∈ active ↔ c ∈ n.activeConnections
  mem_closing : ∀ c, c ∈ closing ↔ c ∈ n.closingConnections
  mem_terminating : ∀ c, c ∈ terminating ↔ c ∈ n.terminatingConnections

/-- The lists of the sorting step. -/
structure SortedPeers where
  disconnectGently : List ConnId := []
  disconnectForcibly : List ConnId := []
  sendKeepAlive : List ConnId := []

namespace TimedNode

/-! ## Thresholds -/

def HandshakeOverdue (s : TimedNode) (now : Readings) (c : ConnId) : Prop :=
  let threshold := now.handshakingDisconnect - seconds s.peerInactivityTimeout
  (s.timers c).connectionInitiationTime < threshold ∧
    (s.timers c).lastMessageReceivedTime < threshold ∧
    (s.timers c).lastMessageSentTime < threshold

instance (s : TimedNode) (now : Readings) (c : ConnId) : Decidable (s.HandshakeOverdue now c) :=
  inferInstanceAs (Decidable (_ ∧ _ ∧ _))

def activeDisconnectTimeout (s : TimedNode) : Nat := 10 * s.recentBlockIntervalInSeconds

def activeSendKeepaliveTimeout (s : TimedNode) : Nat := s.activeDisconnectTimeout / 2

/-- Nothing has come from the connection since the threshold. -/
def QuietSince (s : TimedNode) (threshold : TimePoint) (c : ConnId) : Prop :=
  (s.timers c).connectionInitiationTime < threshold ∧
    (s.timers c).lastMessageReceivedTime < threshold

instance (s : TimedNode) (threshold : TimePoint) (c : ConnId) :
    Decidable (s.QuietSince threshold c) :=
  inferInstanceAs (Decidable (_ ∧ _))

def Inactive (s : TimedNode) (now : Readings) (c : ConnId) : Prop :=
  s.QuietSince (now.activeDisconnect - seconds s.activeDisconnectTimeout) c

instance (s : TimedNode) (now : Readings) (c : ConnId) : Decidable (s.Inactive now c) :=
  inferInstanceAs (Decidable (s.QuietSince _ c))

/-- `active_ignored_request_threshold`: a second ago. -/
def ignoredRequestThreshold (now : Readings) : TimePoint :=
  now.activeIgnoredRequest - seconds 1

/-- Blocks are wanted from the peer, and none has come for a second. -/
def NoSyncProgress (s : TimedNode) (now : Readings) (c : ConnId) : Prop :=
  (s.peers c).syncItemsRequestedFromPeer ≠ ∅ ∧
    (s.timers c).lastSyncItemReceivedTime < ignoredRequestThreshold now

instance (s : TimedNode) (now : Readings) (c : ConnId) : Decidable (s.NoSyncProgress now c) :=
  inferInstanceAs (Decidable (_ ∧ _))

def IdsOverdue (s : TimedNode) (now : Readings) (c : ConnId) : Prop :=
  (s.peers c).itemIdsRequestedFromPeer = true ∧
    (s.timers c).itemIdsRequestedTime < ignoredRequestThreshold now

instance (s : TimedNode) (now : Readings) (c : ConnId) : Decidable (s.IdsOverdue now c) :=
  inferInstanceAs (Decidable (_ ∧ _))

def ItemOverdue (s : TimedNode) (now : Readings) (c : ConnId) : Prop :=
  ∃ item ∈ (s.peers c).itemsRequestedFromPeer,
    (s.timers c).itemsRequestedTime item < ignoredRequestThreshold now

instance (s : TimedNode) (now : Readings) (c : ConnId) : Decidable (s.ItemOverdue now c) :=
  inferInstanceAs (Decidable (∃ item ∈ _, _))

def ClosingOverdue (s : TimedNode) (now : Readings) (c : ConnId) : Prop :=
  (s.timers c).connectionClosedTime < now.closingDisconnect - seconds peerDisconnectTimeout

instance (s : TimedNode) (now : Readings) (c : ConnId) : Decidable (s.ClosingOverdue now c) :=
  inferInstanceAs (Decidable (_ < _))

/-- `fc::time_point::min()` is 0. -/
def TerminationFailed (s : TimedNode) (now : Readings) (c : ConnId) : Prop :=
  (s.timers c).connectionTerminatedTime ≠ 0 ∧
    (s.timers c).connectionTerminatedTime < now.failedTerminate - seconds failedTerminateTimeout

instance (s : TimedNode) (now : Readings) (c : ConnId) : Decidable (s.TerminationFailed now c) :=
  inferInstanceAs (Decidable (_ ∧ _))

/-! ## The sorting step -/

/-- The walk over the active connections.  The branch for a peer without progress leaves the
walk, not only the connection. -/
def sortActive (s : TimedNode) (now : Readings) : List ConnId → SortedPeers → SortedPeers
  | [], sorted => sorted
  | c :: order, sorted =>
    if s.Inactive now c then
      s.sortActive now order { sorted with disconnectGently := sorted.disconnectGently ++ [c] }
    else if s.NoSyncProgress now c then sorted
    else if s.IdsOverdue now c ∨ s.ItemOverdue now c then
      s.sortActive now order { sorted with disconnectForcibly := sorted.disconnectForcibly ++ [c] }
    else if s.QuietSince
        (now.activeSendKeepalive - seconds s.activeSendKeepaliveTimeout) c then
      s.sortActive now order { sorted with sendKeepAlive := sorted.sendKeepAlive ++ [c] }
    else s.sortActive now order sorted

def sortPeers (s : TimedNode) (now : Readings) (visits : Visits s.toNode) : SortedPeers :=
  let overdue := visits.handshaking.filter fun c => s.HandshakeOverdue now c
  let sorted := s.sortActive now visits.active { disconnectForcibly := overdue }
  let closing := visits.closing.filter fun c => s.ClosingOverdue now c
  { sorted with disconnectForcibly := sorted.disconnectForcibly ++ closing }

/-! ## Working through the lists -/

def terminate (s : TimedNode) (c : ConnId) : TimedNode :=
  { s with toNode := s.toNode.terminatePeer c }

/-- `peer_connection::close_connection` -/
def closeConnection (now : Readings) (s : TimedNode) (c : ConnId) : TimedNode :=
  let t := s.timers c
  let time := if t.connectionTerminatedTime ≠ 0 then now.close else t.connectionTerminatedTime
  { s with
    timers := Function.update s.timers c { t with connectionTerminatedTime := time }
    closed := c :: s.closed }

def disconnectForcibly (now : Readings) (s : TimedNode) (c : ConnId) : TimedNode :=
  { s with toNode := s.toNode.movePeerToTerminatingList c }.closeConnection now c

/-- `disconnect_from_peer`: a peer that has asked for the end of the connection is not told. -/
def disconnectGently (now : Readings) (s : TimedNode) (c : ConnId) : TimedNode :=
  let s' : TimedNode := { s with toNode := s.toNode.disconnectFromPeer c }
  if (s.peers c).theyHaveRequestedClose then s'.closeConnection now c
  else
    { s' with
      timers := Function.update s.timers c { s.timers c with connectionClosedTime := now.close }
      closingMessages := c :: s.closingMessages }

def sendKeepAlive (s : TimedNode) (c : ConnId) : TimedNode :=
  { s with currentTimeRequests := c :: s.currentTimeRequests }

/-- `terminate_inactive_connections_loop`, once. -/
def terminateInactiveConnectionsLoop (s : TimedNode) (now : Readings) (visits : Visits s.toNode) :
    TimedNode :=
  let sorted := s.sortPeers now visits
  let failed := visits.terminating.filter fun c => s.TerminationFailed now c
  let s := failed.foldl terminate s
  let s := sorted.disconnectForcibly.foldl (disconnectForcibly now) s
  let s := sorted.disconnectGently.foldl (disconnectGently now) s
  sorted.sendKeepAlive.foldl sendKeepAlive s

/-! ## What should happen -/

/-- One of the requests to the peer has waited for longer than a second. -/
def Unresponsive (s : TimedNode) (now : Readings) (c : ConnId) : Prop :=
  s.NoSyncProgress now c ∨ s.IdsOverdue now c ∨ s.ItemOverdue now c

/-- The peer is asked to close the connection, or the connection is closed. -/
def Disconnected (s : TimedNode) (c : ConnId) : Prop :=
  c ∉ s.activeConnections ∧ c ∈ s.closingConnections ∧
    (c ∈ s.closingMessages ∨ c ∈ s.closed)

/-- What one run that leads to `s'` should do with the active connections. -/
def UnresponsiveDropped (s : TimedNode) (now : Readings) (s' : TimedNode) : Prop :=
  (∀ c ∈ s.activeConnections, ¬ s.Inactive now c → s.Unresponsive now c →
      c ∈ s'.terminatingConnections) ∧
    ∀ c ∈ s.activeConnections, s.Inactive now c → s'.Disconnected c

variable {s s' : TimedNode} {now : Readings} {sorted : SortedPeers} {order before after : List ConnId}
variable {c d : ConnId}

/-! ## What the walk sorts -/

/-- The walk ends at a peer without progress: the later ones are not looked at. -/
theorem sortActive_stops (hactive : ¬ s.Inactive now c) (hstuck : s.NoSyncProgress now c) :
    s.sortActive now (before ++ c :: after) sorted = s.sortActive now before sorted := by
  induction before generalizing sorted with
  | nil =>
    show s.sortActive now (c :: after) sorted = sorted
    rw [sortActive, if_neg hactive, if_pos hstuck]
  | cons d before ih =>
    show s.sortActive now (d :: (before ++ c :: after)) sorted = _
    rw [sortActive, sortActive]
    simp only [ih]

theorem mem_disconnectGently
    (h : c ∈ (s.sortActive now order sorted).disconnectGently) :
    c ∈ sorted.disconnectGently ∨ s.Inactive now c := by
  induction order generalizing sorted with
  | nil => exact .inl h
  | cons d order ih =>
    rw [sortActive] at h
    split at h
    · rename_i hinactive
      rcases ih h with hold | hc
      · rcases List.mem_append.mp hold with hold | hnew
        · exact .inl hold
        · rw [List.mem_singleton.mp hnew]
          exact .inr hinactive
      · exact .inr hc
    · split at h
      · exact .inl h
      · split at h
        · have hlater := ih h
          exact hlater
        · split at h
          · have hlater := ih h
            exact hlater
          · exact ih h

/-- Nobody without progress is disconnected. -/
theorem mem_disconnectForcibly
    (h : c ∈ (s.sortActive now order sorted).disconnectForcibly) :
    c ∈ sorted.disconnectForcibly ∨ (¬ s.Inactive now c ∧ ¬ s.NoSyncProgress now c) := by
  induction order generalizing sorted with
  | nil => exact .inl h
  | cons d order ih =>
    rw [sortActive] at h
    split at h
    · have hlater := ih h
      exact hlater
    · rename_i hactive
      split at h
      · exact .inl h
      · rename_i hprogress
        split at h
        · rcases ih h with hold | hc
          · rcases List.mem_append.mp hold with hold | hnew
            · exact .inl hold
            · rw [List.mem_singleton.mp hnew]
              exact .inr ⟨hactive, hprogress⟩
          · exact .inr hc
        · split at h
          · have hlater := ih h
            exact hlater
          · exact ih h

/-- What is on the lists stays there. -/
theorem sortActive_keeps :
    sorted.disconnectGently ⊆ (s.sortActive now order sorted).disconnectGently ∧
      sorted.disconnectForcibly ⊆ (s.sortActive now order sorted).disconnectForcibly := by
  induction order generalizing sorted with
  | nil => exact ⟨List.Subset.refl _, List.Subset.refl _⟩
  | cons d order ih =>
    rw [sortActive]
    split
    · obtain ⟨hgently, hforcibly⟩ := @ih
        { sorted with disconnectGently := sorted.disconnectGently ++ [d] }
      exact ⟨List.Subset.trans (List.subset_append_left _ _) hgently, hforcibly⟩
    · split
      · exact ⟨List.Subset.refl _, List.Subset.refl _⟩
      · split
        · obtain ⟨hgently, hforcibly⟩ := @ih
            { sorted with disconnectForcibly := sorted.disconnectForcibly ++ [d] }
          exact ⟨hgently, List.Subset.trans (List.subset_append_left _ _) hforcibly⟩
        · split
          · exact @ih { sorted with sendKeepAlive := sorted.sendKeepAlive ++ [d] }
          · exact ih

/-- When every connection that it visits makes progress or is inactive, the walk sorts them
all. -/
theorem sortActive_complete (hprogress : ∀ c ∈ order, ¬ s.Inactive now c → ¬ s.NoSyncProgress now c)
    (hc : c ∈ order) :
    (s.Inactive now c → c ∈ (s.sortActive now order sorted).disconnectGently) ∧
      (¬ s.Inactive now c → s.Unresponsive now c →
        c ∈ (s.sortActive now order sorted).disconnectForcibly) := by
  induction order generalizing sorted with
  | nil => cases hc
  | cons d order ih =>
    have hrest : ∀ c ∈ order, ¬ s.Inactive now c → ¬ s.NoSyncProgress now c :=
      fun c hc => hprogress c (List.mem_cons_of_mem d hc)
    rw [sortActive]
    by_cases hinactive : s.Inactive now d
    · rw [if_pos hinactive]
      rcases List.mem_cons.mp hc with rfl | hlater
      · refine ⟨fun _ => ?_, fun hnot => absurd hinactive hnot⟩
        exact sortActive_keeps.1 (List.mem_append_right _ (List.mem_singleton_self c))
      · exact ih hrest hlater
    · have hd := hprogress d List.mem_cons_self hinactive
      rw [if_neg hinactive, if_neg hd]
      by_cases hoverdue : s.IdsOverdue now d ∨ s.ItemOverdue now d
      · rw [if_pos hoverdue]
        rcases List.mem_cons.mp hc with rfl | hlater
        · refine ⟨fun hyes => absurd hyes hinactive, fun _ _ => ?_⟩
          exact sortActive_keeps.2 (List.mem_append_right _ (List.mem_singleton_self c))
        · exact ih hrest hlater
      · rw [if_neg hoverdue]
        rcases List.mem_cons.mp hc with rfl | hlater
        · refine ⟨fun hyes => absurd hyes hinactive, fun _ hunresponsive => ?_⟩
          exact absurd hunresponsive (not_or.mpr ⟨hd, hoverdue⟩)
        · split
          · exact ih hrest hlater
          · exact ih hrest hlater

/-! ## What happens to the lists -/

theorem terminateAll_terminating (cs : List ConnId) :
    (cs.foldl terminate s).terminatingConnections ⊆ s.terminatingConnections := by
  induction cs generalizing s with
  | nil => exact Finset.Subset.refl _
  | cons d cs ih => exact ih.trans (Finset.erase_subset _ _)

theorem disconnectForcibly_terminating :
    (disconnectForcibly now s d).terminatingConnections = insert d s.terminatingConnections := rfl

theorem disconnectAllForcibly_terminating (cs : List ConnId) :
    c ∈ (cs.foldl (disconnectForcibly now) s).terminatingConnections ↔
      c ∈ cs ∨ c ∈ s.terminatingConnections := by
  induction cs generalizing s with
  | nil => simp
  | cons d cs ih =>
    show c ∈ (cs.foldl _ (disconnectForcibly now s d)).terminatingConnections ↔ _
    rw [ih, disconnectForcibly_terminating, Finset.mem_insert, List.mem_cons]
    constructor
    · rintro (hc | hc | hc)
      · exact .inl (.inr hc)
      · exact .inl (.inl hc)
      · exact .inr hc
    · rintro ((hc | hc) | hc)
      · exact .inr (.inl hc)
      · exact .inl hc
      · exact .inr (.inr hc)

theorem disconnectGently_lists :
    (disconnectGently now s d).activeConnections = s.activeConnections.erase d ∧
      (disconnectGently now s d).closingConnections = insert d s.closingConnections ∧
      (disconnectGently now s d).terminatingConnections = s.terminatingConnections.erase d := by
  unfold disconnectGently
  dsimp only
  split
  · exact ⟨rfl, rfl, rfl⟩
  · exact ⟨rfl, rfl, rfl⟩

theorem disconnectGently_told :
    d ∈ (disconnectGently now s d).closingMessages ∨ d ∈ (disconnectGently now s d).closed := by
  unfold disconnectGently
  dsimp only
  split
  · exact .inr List.mem_cons_self
  · exact .inl List.mem_cons_self

theorem disconnectGently_disconnected : (disconnectGently now s d).Disconnected d := by
  obtain ⟨hactive, hclosing, -⟩ := @disconnectGently_lists s now d
  refine ⟨?_, ?_, disconnectGently_told⟩
  · rw [hactive]
    exact Finset.notMem_erase d _
  · rw [hclosing]
    exact Finset.mem_insert_self d _

/-- A connection that is disconnected stays so when others are. -/
theorem disconnected_stays (h : s.Disconnected c) :
    (disconnectGently now s d).Disconnected c := by
  obtain ⟨hactive, hclosing, -⟩ := @disconnectGently_lists s now d
  refine ⟨?_, ?_, ?_⟩
  · rw [hactive]
    exact fun hc => h.1 (Finset.mem_of_mem_erase hc)
  · rw [hclosing]
    exact Finset.mem_insert_of_mem h.2.1
  · unfold disconnectGently
    dsimp only
    split
    · exact h.2.2.imp_right (List.mem_cons_of_mem d)
    · exact h.2.2.imp_left (List.mem_cons_of_mem d)

theorem disconnected_stays_all (h : s.Disconnected c) (cs : List ConnId) :
    (cs.foldl (disconnectGently now) s).Disconnected c := by
  induction cs generalizing s with
  | nil => exact h
  | cons d cs ih => exact ih (disconnected_stays h)

theorem disconnectAllGently_disconnected {cs : List ConnId} (hc : c ∈ cs) :
    (cs.foldl (disconnectGently now) s).Disconnected c := by
  induction cs generalizing s with
  | nil => cases hc
  | cons d cs ih =>
    rcases List.mem_cons.mp hc with rfl | hlater
    · exact disconnected_stays_all disconnectGently_disconnected cs
    · exact ih hlater

theorem disconnectAllGently_terminating (cs : List ConnId) :
    c ∈ (cs.foldl (disconnectGently now) s).terminatingConnections ↔
      c ∉ cs ∧ c ∈ s.terminatingConnections := by
  induction cs generalizing s with
  | nil => simp
  | cons d cs ih =>
    show c ∈ (cs.foldl _ (disconnectGently now s d)).terminatingConnections ↔ _
    rw [ih, disconnectGently_lists.2.2, Finset.mem_erase, List.mem_cons, not_or]
    constructor
    · rintro ⟨hcs, hne, hc⟩
      exact ⟨⟨hne, hcs⟩, hc⟩
    · rintro ⟨⟨hne, hcs⟩, hc⟩
      exact ⟨hcs, hne, hc⟩

theorem sendKeepAlives_node (cs : List ConnId) :
    (cs.foldl sendKeepAlive s).toNode = s.toNode ∧ (cs.foldl sendKeepAlive s).closed = s.closed ∧
      (cs.foldl sendKeepAlive s).closingMessages = s.closingMessages := by
  induction cs generalizing s with
  | nil => exact ⟨rfl, rfl, rfl⟩
  | cons d cs ih => exact ih (s := s.sendKeepAlive d)

/-! ## One run -/

theorem loop_terminating (visits : Visits s.toNode) :
    c ∈ (s.terminateInactiveConnectionsLoop now visits).terminatingConnections ↔
      c ∉ (s.sortPeers now visits).disconnectGently ∧
        (c ∈ (s.sortPeers now visits).disconnectForcibly ∨
          c ∈ ((visits.terminating.filter fun c => s.TerminationFailed now c).foldl
            terminate s).terminatingConnections) := by
  unfold terminateInactiveConnectionsLoop
  dsimp only
  rw [(sendKeepAlives_node _).1, disconnectAllGently_terminating, disconnectAllForcibly_terminating]

theorem loop_disconnected (visits : Visits s.toNode)
    (hc : c ∈ (s.sortPeers now visits).disconnectGently) :
    (s.terminateInactiveConnectionsLoop now visits).Disconnected c := by
  unfold terminateInactiveConnectionsLoop Disconnected
  dsimp only
  obtain ⟨hnode, hclosed, htold⟩ := sendKeepAlives_node
    (s := (s.sortPeers now visits).disconnectGently.foldl (disconnectGently now)
      ((s.sortPeers now visits).disconnectForcibly.foldl (disconnectForcibly now)
        ((visits.terminating.filter fun c => s.TerminationFailed now c).foldl terminate s)))
    (s.sortPeers now visits).sendKeepAlive
  rw [hnode, hclosed, htold]
  exact disconnectAllGently_disconnected hc

theorem mem_sortPeers_gently (visits : Visits s.toNode)
    (hc : c ∈ (s.sortPeers now visits).disconnectGently) : s.Inactive now c := by
  rcases mem_disconnectGently hc with hnone | hinactive
  · cases hnone
  · exact hinactive

/-- An active connection that is disconnected forcibly makes progress. -/
theorem mem_sortPeers_forcibly (hapart : s.ActiveApart) (visits : Visits s.toNode)
    (hactive : c ∈ s.activeConnections)
    (hc : c ∈ (s.sortPeers now visits).disconnectForcibly) : ¬ s.NoSyncProgress now c := by
  obtain ⟨hhandshaking, hclosing, -⟩ := hapart c hactive
  rcases List.mem_append.mp hc with hc | hc
  · rcases mem_disconnectForcibly hc with hc | hc
    · exact absurd ((visits.mem_handshaking c).mp (List.mem_of_mem_filter hc)) hhandshaking
    · exact hc.2
  · exact absurd ((visits.mem_closing c).mp (List.mem_of_mem_filter hc)) hclosing

/-- **Quiet connections.**  One run drops the unresponsive and the silent peers exactly when every
active connection without progress in its blocks is silent altogether. -/
theorem unresponsive_dropped_iff (hapart : s.ActiveApart) (visits : Visits s.toNode) :
    s.UnresponsiveDropped now (s.terminateInactiveConnectionsLoop now visits) ↔
      ∀ c ∈ s.activeConnections, s.NoSyncProgress now c → s.Inactive now c := by
  constructor
  · rintro ⟨hdropped, -⟩
    intro c hactive hstuck
    by_contra hsilent
    have hterminating := hdropped c hactive hsilent (.inl hstuck)
    rw [loop_terminating] at hterminating
    rcases hterminating.2 with hforcibly | hold
    · exact mem_sortPeers_forcibly hapart visits hactive hforcibly hstuck
    · exact (hapart c hactive).2.2 (terminateAll_terminating _ hold)
  · intro hprogress
    have hwalk : ∀ c ∈ visits.active, ¬ s.Inactive now c → ¬ s.NoSyncProgress now c := by
      intro c hc hsilent hstuck
      exact hsilent (hprogress c ((visits.mem_active c).mp hc) hstuck)
    constructor
    · intro c hactive hsilent hunresponsive
      rw [loop_terminating]
      constructor
      · intro hgently
        exact hsilent (mem_sortPeers_gently visits hgently)
      · apply Or.inl
        apply List.mem_append_left
        exact (sortActive_complete hwalk ((visits.mem_active c).mpr hactive)).2 hsilent
          hunresponsive
    · intro c hactive hsilent
      apply loop_disconnected visits
      exact (sortActive_complete hwalk ((visits.mem_active c).mpr hactive)).1 hsilent

/-! ## Some connections -/

def quietTimers : Timers := {}

def freshTimers : Timers := { lastMessageReceivedTime := seconds 100 }

def hundredSeconds : Readings :=
  let t := seconds 100
  ⟨t, t, t, t, t, t, t⟩

/-- The second connection is silent and owes a block, the third owes an item, the fourth ids, and
the first has sent a wanted block lately. -/
def fourConnections : TimedNode where
  recover _ _ := none
  nodeId := 1
  chainId := 1
  maximumNumberOfConnections := 10
  peers
    | 0 => { syncItemsRequestedFromPeer := {4} }
    | 1 => { syncItemsRequestedFromPeer := {5} }
    | 2 => { itemsRequestedFromPeer := {⟨blockMessageType, 6⟩} }
    | 3 => { itemIdsRequestedFromPeer := true }
    | _ => {}
  activeConnections := {0, 1, 2, 3}
  timers
    | 0 => { freshTimers with lastSyncItemReceivedTime := seconds 100 }
    | 1 => quietTimers
    | _ => { freshTimers with itemIdsRequestedTime := seconds 98 }

def secondFirst : Visits fourConnections.toNode where
  handshaking := []
  active := [1, 3, 0, 2]
  closing := []
  terminating := []
  mem_handshaking _ := ⟨fun h => (nomatch h), fun h => absurd h (Finset.notMem_empty _)⟩
  mem_active c := by
    show c ∈ [1, 3, 0, 2] ↔ c ∈ ({0, 1, 2, 3} : Finset ConnId)
    simp only [List.mem_cons, List.not_mem_nil, or_false, Finset.mem_insert, Finset.mem_singleton]
    tauto
  mem_closing _ := ⟨fun h => (nomatch h), fun h => absurd h (Finset.notMem_empty _)⟩
  mem_terminating _ := ⟨fun h => (nomatch h), fun h => absurd h (Finset.notMem_empty _)⟩

theorem unresponsive_dropped_four :
    fourConnections.UnresponsiveDropped hundredSeconds
        (fourConnections.terminateInactiveConnectionsLoop hundredSeconds secondFirst) ∧
      fourConnections.ItemOverdue hundredSeconds 2 ∧ fourConnections.IdsOverdue hundredSeconds 3 ∧
      fourConnections.NoSyncProgress hundredSeconds 1 := by
  have hapart : fourConnections.ActiveApart :=
    fun _ _ => ⟨Finset.notMem_empty _, Finset.notMem_empty _, Finset.notMem_empty _⟩
  have hsilent : ∀ c ∈ fourConnections.activeConnections,
      fourConnections.NoSyncProgress hundredSeconds c → fourConnections.Inactive hundredSeconds c := by
    decide +kernel
  refine ⟨(unresponsive_dropped_iff hapart secondFirst).mpr hsilent, ?_, ?_, ?_⟩
  all_goals decide +kernel

/-- Two active connections, from the second of which nothing has come for 100 seconds. -/
def twoConnections (wanted : Finset ItemHash) : TimedNode where
  recover _ _ := none
  nodeId := 1
  chainId := 1
  maximumNumberOfConnections := 10
  peers c := if c = 0 then { syncItemsRequestedFromPeer := wanted } else {}
  activeConnections := {0, 1}
  timers c := if c = 0 then freshTimers else quietTimers

def firstThenSecond (wanted : Finset ItemHash) : Visits (twoConnections wanted).toNode where
  handshaking := []
  active := [0, 1]
  closing := []
  terminating := []
  mem_handshaking _ := ⟨fun h => (nomatch h), fun h => absurd h (Finset.notMem_empty _)⟩
  mem_active c := by
    show c ∈ [0, 1] ↔ c ∈ ({0, 1} : Finset ConnId)
    simp
  mem_closing _ := ⟨fun h => (nomatch h), fun h => absurd h (Finset.notMem_empty _)⟩
  mem_terminating _ := ⟨fun h => (nomatch h), fun h => absurd h (Finset.notMem_empty _)⟩

/-- A block is wanted from the first connection: neither is closed. -/
theorem stalled_keepsBoth :
    let s' := (twoConnections {5}).terminateInactiveConnectionsLoop hundredSeconds
      (firstThenSecond {5})
    0 ∉ s'.terminatingConnections ∧ 1 ∈ s'.activeConnections ∧
      ¬ (twoConnections {5}).UnresponsiveDropped hundredSeconds s' := by
  have hfirst : 0 ∉ ((twoConnections {5}).terminateInactiveConnectionsLoop hundredSeconds
      (firstThenSecond {5})).terminatingConnections := by decide +kernel
  have hsecond : 1 ∈ ((twoConnections {5}).terminateInactiveConnectionsLoop hundredSeconds
      (firstThenSecond {5})).activeConnections := by decide +kernel
  refine ⟨hfirst, hsecond, ?_⟩
  rintro ⟨-, hsilent⟩
  have hinactive : (twoConnections {5}).Inactive hundredSeconds 1 := by decide +kernel
  exact (hsilent 1 (by decide) hinactive).1 hsecond

end TimedNode

end VizCore.Network
