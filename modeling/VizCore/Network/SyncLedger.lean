import VizCore.Network.Handshake

/-!
# The ledger of sync requests

* `requests_owed`: where no peer reports a sync item as not available and no connection is
  deleted with items outstanding, the items that are being requested are exactly those that the
  connections owe, each is owed by one of them, and an item that nobody owes can be requested;
* `unavailable_item_lost`: an item that a peer reports as not available stays requested.
-/

namespace VizCore.Network

open VizCore.Lib

/-- The connection has not been closed. -/
def Node.Open (n : Node) (c : ConnId) : Prop := (n.peers c).readLoop ≠ .over

/-- The connection owes us the item. -/
def Node.Owes (n : Node) (c : ConnId) (item : ItemHash) : Prop :=
  n.Open c ∧ item ∈ (n.peers c).syncItemsRequestedFromPeer

/-- The steps that forget no request. -/
def Repaid (n : Node) : Act → Prop
  | .message c (.itemNotAvailable item) => n.Reads c →
    item ∈ (n.peers c).itemsRequestedFromPeer ∨
      item.itemHash ∉ (n.peers c).syncItemsRequestedFromPeer
  | .delete c => c ∈ n.peersToDelete → ∀ item, ¬ n.Owes c item
  | _ => True

/-- What a run keeps: the requested items are those that are owed, each by one connection. -/
structure Ledger (n : Node) : Prop where
  owed : ∀ item, item ∈ n.activeSyncRequests ↔ ∃ c, n.Owes c item
  once : ∀ c d item, n.Owes c item → n.Owes d item → c = d
  unborn : ∀ c, n.nextConn ≤ c → (n.peers c).readLoop = .waiting
  unasked : ∀ c, (n.peers c).readLoop = .waiting → (n.peers c).syncItemsRequestedFromPeer = ∅
  known : ∀ c ∈ n.handshakingConnections, c < n.nextConn
  reading : ∀ c ∈ n.activeConnections, (n.peers c).readLoop = .reading
  leaving : ∀ c, c ∈ n.terminatingConnections ∨ c ∈ n.peersToDelete →
    c < n.nextConn ∧ c ∉ n.handshakingConnections ∧ c ∉ n.activeConnections

variable {start n n' : Node} {acts : List Act} {c d : ConnId} {a : Act} {item : ItemHash}

theorem owes_congr (h : (n'.peers c).debts = (n.peers c).debts) :
    n'.Owes c item ↔ n.Owes c item := by
  have hloop : (n'.peers c).readLoop = (n.peers c).readLoop := congrArg Debts.readLoop h
  have hitems : (n'.peers c).syncItemsRequestedFromPeer =
      (n.peers c).syncItemsRequestedFromPeer := congrArg Debts.syncItems h
  unfold Node.Owes Node.Open
  rw [hloop, hitems]

theorem request_same (n : Node) (c : ConnId) (items : List ItemHash) :
    (n.requestSyncItemsFromPeer (c, items)).peers c =
      { n.peers c with
        syncItemsRequestedFromPeer :=
          (n.peers c).syncItemsRequestedFromPeer ∪ items.toFinset } :=
  Function.update_self ..

theorem request_other (n : Node) (items : List ItemHash) (h : d ≠ c) :
    (n.requestSyncItemsFromPeer (c, items)).peers d = n.peers d :=
  Function.update_of_ne h ..

namespace Ledger

theorem born (h : Ledger n) (hloop : (n.peers c).readLoop = .reading) : c < n.nextConn := by
  by_contra hlt
  have hwaiting := h.unborn c (Nat.le_of_not_lt hlt)
  rw [hloop] at hwaiting
  cases hwaiting

theorem not_owed (h : Ledger n) (hitem : item ∉ n.activeSyncRequests) (c : ConnId) :
    ¬ n.Owes c item := by
  intro howes
  exact hitem ((h.owed item).2 ⟨c, howes⟩)

theorem calm (h : Ledger n) (hcalm : Calm Peer.debts n n') : Ledger n' where
  owed item := by
    rw [hcalm.requests, h.owed]
    exact exists_congr fun c => (owes_congr (hcalm.toFrame.peers c)).symm
  once c d item hc hd :=
    h.once c d item ((owes_congr (hcalm.toFrame.peers c)).1 hc)
      ((owes_congr (hcalm.toFrame.peers d)).1 hd)
  unborn c hc := by
    rw [hcalm.nextConn] at hc
    have hloop := congrArg Debts.readLoop (hcalm.toFrame.peers c)
    exact hloop.trans (h.unborn c hc)
  unasked c hc := by
    have hloop := congrArg Debts.readLoop (hcalm.toFrame.peers c)
    have hitems := congrArg Debts.syncItems (hcalm.toFrame.peers c)
    exact hitems.trans (h.unasked c (hloop.symm.trans hc))
  known c hc := by
    rw [hcalm.nextConn]
    exact h.known c (hcalm.handshaking hc)
  reading c hc := by
    have hloop := congrArg Debts.readLoop (hcalm.toFrame.peers c)
    exact hloop.trans (h.reading c (hcalm.active hc))
  leaving c hc := by
    have hbefore := h.leaving c (hc.imp (fun hc => hcalm.terminating hc) fun hc =>
      hcalm.toDelete hc)
    rw [hcalm.nextConn]
    exact ⟨hbefore.1, fun hc => hbefore.2.1 (hcalm.handshaking hc),
      fun hc => hbefore.2.2 (hcalm.active hc)⟩

/-! ## One request and one receipt -/

/-- A live connection is asked for items that nobody owes. -/
theorem request (h : Ledger n) (hc : c ∈ n.activeConnections) {items : List ItemHash}
    (hnew : ∀ item ∈ items, item ∉ n.activeSyncRequests) :
    Ledger (n.requestSyncItemsFromPeer (c, items)) := by
  have hloop := h.reading c hc
  have howes (d : ConnId) (item : ItemHash) :
      (n.requestSyncItemsFromPeer (c, items)).Owes d item ↔
        n.Owes d item ∨ d = c ∧ item ∈ items := by
    unfold Node.Owes Node.Open
    by_cases hd : d = c
    · subst hd
      rw [request_same]
      simp [hloop]
    · rw [request_other n items hd]
      simp [hd]
  constructor
  · intro item
    show item ∈ n.activeSyncRequests ∪ items.toFinset ↔ _
    rw [Finset.mem_union, List.mem_toFinset, h.owed]
    constructor
    · rintro (⟨d, hd⟩ | hitem)
      · exact ⟨d, (howes d item).2 (.inl hd)⟩
      · exact ⟨c, (howes c item).2 (.inr ⟨rfl, hitem⟩)⟩
    · rintro ⟨d, hd⟩
      rcases (howes d item).1 hd with hd | ⟨-, hitem⟩
      · exact .inl ⟨d, hd⟩
      · exact .inr hitem
  · intro d e item hd he
    rcases (howes d item).1 hd with hd | ⟨hd, hitem⟩
    · rcases (howes e item).1 he with he | ⟨-, hitem⟩
      · exact h.once d e item hd he
      · exact absurd hd (h.not_owed (hnew item hitem) d)
    · rcases (howes e item).1 he with he | ⟨he, -⟩
      · exact absurd he (h.not_owed (hnew item hitem) e)
      · rw [hd, he]
  · intro d hd
    by_cases heq : d = c
    · have hwaiting := h.unborn d hd
      rw [heq, hloop] at hwaiting
      cases hwaiting
    · rw [request_other n items heq]
      exact h.unborn d hd
  · intro d hd
    by_cases heq : d = c
    · rw [heq, request_same] at hd
      have hwaiting : (n.peers c).readLoop = .waiting := hd
      rw [hloop] at hwaiting
      cases hwaiting
    · rw [request_other n items heq] at hd ⊢
      exact h.unasked d hd
  · exact h.known
  · intro d hd
    by_cases heq : d = c
    · rw [heq, request_same]
      exact hloop
    · rw [request_other n items heq]
      exact h.reading d hd
  · exact h.leaving

/-- The items that are not owed any more go off the list with what is owed. -/
theorem settle (h : Ledger n) (c : ConnId) (gone : Finset ItemHash) {p : Peer}
    (hpeers : n'.peers = Function.update n.peers c p)
    (hgone : ∀ item ∈ gone, n.Owes c item)
    (howes : ∀ item, p.readLoop ≠ .over ∧ item ∈ p.syncItemsRequestedFromPeer ↔
      n.Owes c item ∧ item ∉ gone)
    (hbegun : p.readLoop ≠ .waiting)
    (hnext : n'.nextConn = n.nextConn) (hborn : c < n.nextConn)
    (hrequests : n'.activeSyncRequests = n.activeSyncRequests \ gone)
    (hknown : ∀ d ∈ n'.handshakingConnections, d < n'.nextConn)
    (hreading : ∀ d ∈ n'.activeConnections, (n'.peers d).readLoop = .reading)
    (hleaving : ∀ d, d ∈ n'.terminatingConnections ∨ d ∈ n'.peersToDelete →
      d < n'.nextConn ∧ d ∉ n'.handshakingConnections ∧ d ∉ n'.activeConnections) :
    Ledger n' := by
  have hother {d : ConnId} (hd : d ≠ c) : (n'.peers d).debts = (n.peers d).debts := by
    rw [hpeers, Function.update_of_ne hd]
  have hsame (item : ItemHash) : n'.Owes c item ↔ n.Owes c item ∧ item ∉ gone := by
    rw [← howes item]
    unfold Node.Owes Node.Open
    rw [hpeers, Function.update_self]
  have hall (d : ConnId) (item : ItemHash) : n'.Owes d item → n.Owes d item := by
    intro hd
    by_cases heq : d = c
    · subst heq
      exact ((hsame item).1 hd).1
    · exact (owes_congr (hother heq)).1 hd
  constructor
  · intro item
    rw [hrequests, Finset.mem_sdiff, h.owed]
    constructor
    · rintro ⟨⟨d, hd⟩, hitem⟩
      refine ⟨d, ?_⟩
      by_cases heq : d = c
      · subst heq
        exact (hsame item).2 ⟨hd, hitem⟩
      · exact (owes_congr (hother heq)).2 hd
    · rintro ⟨d, hd⟩
      refine ⟨⟨d, hall d item hd⟩, ?_⟩
      intro hitem
      have heq := h.once c d item (hgone item hitem) (hall d item hd)
      subst heq
      exact ((hsame item).1 hd).2 hitem
  · intro d e item hd he
    exact h.once d e item (hall d item hd) (hall e item he)
  · intro d hd
    rw [hnext] at hd
    have hne : d ≠ c := by
      intro heq
      rw [heq] at hd
      exact absurd hborn (Nat.not_lt_of_le hd)
    exact (congrArg Debts.readLoop (hother hne)).trans (h.unborn d hd)
  · intro d hd
    have hne : d ≠ c := by
      intro heq
      rw [heq, hpeers, Function.update_self] at hd
      exact hbegun hd
    have hloop := congrArg Debts.readLoop (hother hne)
    exact (congrArg Debts.syncItems (hother hne)).trans (h.unasked d (hloop.symm.trans hd))
  · exact hknown
  · exact hreading
  · exact hleaving

end Ledger

/-! ## An iteration of the fetch loop -/

/-- Requests that can be made one after the other: each asks an active connection for items
that nobody owes. -/
def Fits : Node → List (ConnId × List ItemHash) → Prop
  | _, [] => True
  | n, (c, items) :: requests => c ∈ n.activeConnections ∧
    (∀ item ∈ items, item ∉ n.activeSyncRequests) ∧
    Fits (n.requestSyncItemsFromPeer (c, items)) requests

theorem Ledger.requestAll (h : Ledger n) {requests : List (ConnId × List ItemHash)}
    (hfits : Fits n requests) : Ledger (requests.foldl Node.requestSyncItemsFromPeer n) := by
  induction requests generalizing n with
  | nil => exact h
  | cons request requests ih =>
    obtain ⟨hactive, hnew, hrest⟩ := hfits
    exact ih (h.request hactive hnew) hrest

theorem scheduleItems_new {scheduled : Finset ItemHash} {ids items : List ItemHash}
    (h : ∀ item ∈ items, item ∉ scheduled ∧ item ∉ n.activeSyncRequests) :
    ∀ item ∈ n.scheduleItems scheduled ids items,
      item ∉ scheduled ∧ item ∉ n.activeSyncRequests := by
  induction ids generalizing items with
  | nil => exact h
  | cons id ids ih =>
    rw [Node.scheduleItems]
    split
    · rename_i hrequestable
      have hmore : ∀ item ∈ items ++ [id], item ∉ scheduled ∧ item ∉ n.activeSyncRequests := by
        intro item hitem
        rcases List.mem_append.1 hitem with hitem | hitem
        · exact h item hitem
        · rw [List.mem_singleton.1 hitem]
          exact ⟨fun hmem => hrequestable.2.1 (Finset.mem_union_left _ hmem), hrequestable.2.2⟩
      split
      · exact hmore
      · exact ih hmore
    · exact ih h

theorem scheduleRequests_fits {m : Node} {order : List ConnId} {scheduled : Finset ItemHash}
    (hactive : ∀ c ∈ order, c ∈ m.activeConnections)
    (hrequests : m.activeSyncRequests = n.activeSyncRequests ∪ scheduled) :
    Fits m (n.scheduleRequests order scheduled) := by
  induction order generalizing m scheduled with
  | nil => trivial
  | cons c order ih =>
    have hrest : ∀ d ∈ order, d ∈ m.activeConnections := fun d hd =>
      hactive d (List.mem_cons_of_mem _ hd)
    rw [Node.scheduleRequests]
    simp only
    split
    · refine ⟨hactive c List.mem_cons_self, ?_, ih hrest ?_⟩
      · intro item hitem
        have hnone : ∀ item ∈ ([] : List ItemHash),
            item ∉ scheduled ∧ item ∉ n.activeSyncRequests := by
          intro item hmem
          exact absurd hmem List.not_mem_nil
        have hnew := scheduleItems_new hnone item hitem
        rw [hrequests, Finset.mem_union]
        rintro (hmem | hmem)
        · exact hnew.2 hmem
        · exact hnew.1 hmem
      · show m.activeSyncRequests ∪ _ = _
        rw [hrequests, Finset.union_assoc]
    · exact ih hrest hrequests

theorem Ledger.fetchSyncItems (h : Ledger n) {order : List ConnId}
    (horder : order.toFinset = n.activeConnections) : Ledger (n.fetchSyncItems order) := by
  unfold Node.fetchSyncItems
  split
  · exact h
  · apply h.requestAll
    apply scheduleRequests_fits
    · intro c hc
      rw [← horder]
      exact List.mem_toFinset.2 hc
    · exact (Finset.union_empty _).symm

/-! ## Asking for an item that nobody owes -/

theorem subset_scheduleItems {scheduled : Finset ItemHash} {ids items : List ItemHash} :
    ∀ item ∈ items, item ∈ n.scheduleItems scheduled ids items := by
  induction ids generalizing items with
  | nil =>
    intro item hitem
    exact hitem
  | cons id ids ih =>
    intro item hitem
    rw [Node.scheduleItems]
    split
    · split
      · exact List.mem_append_left _ hitem
      · exact ih item (List.mem_append_left _ hitem)
    · exact ih item hitem

/-- The first item of a list that can be requested is scheduled. -/
theorem scheduleItems_first {before after : List ItemHash}
    (hbefore : ∀ id ∈ before, ¬ n.Requestable ∅ id) (hitem : n.Requestable ∅ item) :
    item ∈ n.scheduleItems ∅ (before ++ item :: after) [] := by
  have hnone : (∅ ∪ ([] : List ItemHash).toFinset : Finset ItemHash) = ∅ := rfl
  induction before with
  | nil =>
    rw [List.nil_append, Node.scheduleItems, hnone, if_pos hitem]
    split
    · exact List.mem_append_right _ (List.mem_singleton.2 rfl)
    · exact subset_scheduleItems item (List.mem_append_right _ (List.mem_singleton.2 rfl))
  | cons id before ih =>
    rw [List.cons_append, Node.scheduleItems, hnone, if_neg (hbefore id List.mem_cons_self)]
    exact ih fun id hid => hbefore id (List.mem_cons_of_mem _ hid)

theorem requested_stays {requests : List (ConnId × List ItemHash)}
    (h : item ∈ (n.peers c).syncItemsRequestedFromPeer) :
    item ∈ ((requests.foldl Node.requestSyncItemsFromPeer n).peers c).syncItemsRequestedFromPeer := by
  induction requests generalizing n with
  | nil => exact h
  | cons request requests ih =>
    apply ih
    obtain ⟨d, items⟩ := request
    by_cases hd : c = d
    · subst hd
      rw [request_same]
      exact Finset.mem_union_left _ h
    · rw [request_other n items hd]
      exact h

/-- A peer that is ready to be asked. -/
structure Node.Ready (n : Node) (c : ConnId) : Prop where
  wanted : (n.peers c).weNeedSyncItemsFromPeer = true
  idle : (n.peers c).idle
  free : (n.peers c).inhibitFetchingSyncBlocks = false

/-- The iteration that visits a ready peer first asks it for the first item of its list that
can be requested. -/
theorem fetchSyncItems_asks {order : List ConnId} {before after : List ItemHash}
    (hready : n.Ready c) (hrunning : n.suspendFetchingSyncBlocks = false)
    (hids : (n.peers c).idsOfItemsToGet = before ++ item :: after)
    (hbefore : ∀ id ∈ before, ¬ n.Requestable ∅ id) (hitem : n.Requestable ∅ item) :
    item ∈ ((n.fetchSyncItems (c :: order)).peers c).syncItemsRequestedFromPeer := by
  have hsuspended : ¬ n.suspendFetchingSyncBlocks = true := by
    rw [hrunning]
    exact Bool.false_ne_true
  rw [Node.fetchSyncItems, if_neg hsuspended, Node.scheduleRequests]
  simp only
  rw [if_pos ⟨hready.wanted, hready.idle, hready.free⟩, List.foldl_cons]
  apply requested_stays
  rw [request_same, hids]
  exact Finset.mem_union_right _ (List.mem_toFinset.2 (scheduleItems_first hbefore hitem))

/-! ## The steps -/

namespace Ledger

theorem activate (h : Ledger n) (hc : c ∈ n.handshakingConnections)
    (hloop : (n.peers c).readLoop = .reading) : Ledger (n.movePeerToActiveList c) where
  owed := h.owed
  once := h.once
  unborn := h.unborn
  unasked := h.unasked
  known d hd := h.known d (Finset.mem_of_mem_erase hd)
  reading d hd := by
    rcases Finset.mem_insert.1 hd with rfl | hd
    · exact hloop
    · exact h.reading d hd
  leaving d hd := by
    have hbefore := h.leaving d (hd.imp Finset.mem_of_mem_erase id)
    refine ⟨hbefore.1, fun hmem => hbefore.2.1 (Finset.mem_of_mem_erase hmem), fun hmem => ?_⟩
    rcases Finset.mem_insert.1 hmem with rfl | hmem
    · exact hbefore.2.1 hc
    · exact hbefore.2.2 hmem

theorem openConnection (h : Ledger n) (direction : Direction) :
    Ledger (n.openConnection direction) := by
  have hwaiting := h.unborn n.nextConn (Nat.le_refl _)
  have hdebts (c : ConnId) :
      ((n.openConnection direction).peers c).debts = (n.peers c).debts := by
    show (Function.update n.peers n.nextConn _ c).debts = _
    by_cases hc : c = n.nextConn
    · subst hc
      rw [Function.update_self, Peer.debts, Peer.debts, hwaiting, h.unasked _ hwaiting]
    · rw [Function.update_of_ne hc]
  constructor
  · intro item
    exact (h.owed item).trans (exists_congr fun c => (owes_congr (hdebts c)).symm)
  · intro c d item hc hd
    exact h.once c d item ((owes_congr (hdebts c)).1 hc) ((owes_congr (hdebts d)).1 hd)
  · intro c hc
    exact (congrArg Debts.readLoop (hdebts c)).trans (h.unborn c (Nat.le_of_succ_le hc))
  · intro c hc
    have hloop := (congrArg Debts.readLoop (hdebts c)).symm.trans hc
    exact (congrArg Debts.syncItems (hdebts c)).trans (h.unasked c hloop)
  · intro c hc
    rcases Finset.mem_insert.1 hc with rfl | hc
    · exact Nat.lt_succ_self _
    · exact Nat.lt_succ_of_lt (h.known c hc)
  · intro c hc
    exact (congrArg Debts.readLoop (hdebts c)).trans (h.reading c hc)
  · intro c hc
    have hbefore := h.leaving c hc
    refine ⟨Nat.lt_succ_of_lt hbefore.1, fun hmem => ?_, hbefore.2.2⟩
    rcases Finset.mem_insert.1 hmem with rfl | hmem
    · exact Nat.lt_irrefl _ hbefore.1
    · exact hbefore.2.1 hmem

/-- The connection is off all lists but, perhaps, those of the ones that end. -/
theorem leave (h : Ledger n) (hborn : c < n.nextConn) (hpeers : n'.peers = n.peers)
    (hnext : n'.nextConn = n.nextConn) (hrequests : n'.activeSyncRequests = n.activeSyncRequests)
    (hhandshaking : n'.handshakingConnections ⊆ n.handshakingConnections.erase c)
    (hactive : n'.activeConnections ⊆ n.activeConnections.erase c)
    (hleaving : ∀ d, d ∈ n'.terminatingConnections ∨ d ∈ n'.peersToDelete →
      d = c ∨ d ∈ n.terminatingConnections ∨ d ∈ n.peersToDelete) : Ledger n' := by
  have howes (d : ConnId) (item : ItemHash) : n'.Owes d item ↔ n.Owes d item :=
    owes_congr (by rw [hpeers])
  constructor
  · intro item
    rw [hrequests, h.owed]
    exact exists_congr fun d => (howes d item).symm
  · intro d e item hd he
    exact h.once d e item ((howes d item).1 hd) ((howes e item).1 he)
  · rw [hpeers, hnext]
    exact h.unborn
  · rw [hpeers]
    exact h.unasked
  · intro d hd
    rw [hnext]
    exact h.known d (Finset.mem_of_mem_erase (hhandshaking hd))
  · intro d hd
    rw [hpeers]
    exact h.reading d (Finset.mem_of_mem_erase (hactive hd))
  · intro d hd
    rw [hnext]
    rcases hleaving d hd with rfl | hbefore
    · exact ⟨hborn, fun hmem => Finset.notMem_erase d _ (hhandshaking hmem),
        fun hmem => Finset.notMem_erase d _ (hactive hmem)⟩
    · have hleft := h.leaving d hbefore
      exact ⟨hleft.1, fun hmem => hleft.2.1 (Finset.mem_of_mem_erase (hhandshaking hmem)),
        fun hmem => hleft.2.2 (Finset.mem_of_mem_erase (hactive hmem))⟩

/-- The read loop of a connection that owes nothing and is not active starts or ends. -/
theorem turn (h : Ledger n) {loop : ReadLoop} {f : Peer → Peer}
    (hf : (f (n.peers c)).debts = ⟨loop, (n.peers c).syncItemsRequestedFromPeer⟩)
    (hbegun : loop ≠ .waiting) (hborn : c < n.nextConn) (hnone : ∀ item, ¬ n.Owes c item)
    (hstill : loop ≠ .over → (n.peers c).readLoop ≠ .over)
    (hinactive : c ∉ n.activeConnections) : Ledger (n.modifyPeer c f) := by
  have hitems : (f (n.peers c)).syncItemsRequestedFromPeer =
      (n.peers c).syncItemsRequestedFromPeer := congrArg Debts.syncItems hf
  have hloop : (f (n.peers c)).readLoop = loop := congrArg Debts.readLoop hf
  refine h.settle c ∅ rfl (fun item hitem => absurd hitem (Finset.notMem_empty item)) ?_
    (hloop ▸ hbegun) rfl hborn (Finset.sdiff_empty).symm h.known ?_ h.leaving
  · intro item
    rw [hloop, hitems]
    constructor
    · rintro ⟨hopen, hitem⟩
      exact absurd ⟨hstill hopen, hitem⟩ (hnone item)
    · rintro ⟨howes, -⟩
      exact absurd howes (hnone item)
  · intro d hd
    have hne : d ≠ c := by
      intro heq
      rw [heq] at hd
      exact hinactive hd
    rw [Node.modifyPeer_other c n f hne]
    exact h.reading d hd

theorem establish (h : Ledger n) (hlisted : c ∈ n.handshakingConnections)
    (hwaiting : (n.peers c).readLoop = .waiting) (secret : Nat) :
    Ledger (n.establish c secret) := by
  have hreading : ReadLoop.reading ≠ .waiting := by decide
  refine h.turn rfl hreading (h.known c hlisted) ?_ ?_ ?_
  · rintro item ⟨-, hitem⟩
    rw [h.unasked c hwaiting] at hitem
    exact Finset.notMem_empty item hitem
  · intro _
    rw [hwaiting]
    decide
  · intro hactive
    have hloop := h.reading c hactive
    rw [hwaiting] at hloop
    cases hloop

theorem dropNewPeer (h : Ledger n) (hlisted : c ∈ n.handshakingConnections)
    (hwaiting : (n.peers c).readLoop = .waiting) (secret : Option Nat) :
    Ledger (n.dropNewPeer c secret) := by
  have hborn := h.known c hlisted
  cases secret with
  | none =>
    refine h.leave hborn rfl rfl rfl (Finset.Subset.refl _) (Finset.Subset.refl _) ?_
    rintro d (hd | hd)
    · exact .inr (.inl (Finset.mem_of_mem_erase hd))
    · exact (Finset.mem_insert.1 hd).imp id .inr
  | some secret =>
    refine (h.establish hlisted hwaiting secret).leave hborn rfl rfl rfl (Finset.Subset.refl _)
      (Finset.Subset.refl _) ?_
    rintro d (hd | hd)
    · exact .inr (.inl (Finset.mem_of_mem_erase hd))
    · exact (Finset.mem_insert.1 hd).imp id .inr

theorem disconnectForcibly (h : Ledger n) (hborn : c < n.nextConn) :
    Ledger (n.movePeerToTerminatingList c) := by
  refine h.leave hborn rfl rfl rfl (Finset.Subset.refl _) (Finset.Subset.refl _) ?_
  rintro d (hd | hd)
  · exact (Finset.mem_insert.1 hd).imp id .inl
  · exact .inr (.inr hd)

theorem terminate (h : Ledger n) (hlisted : c ∈ n.terminatingConnections) :
    Ledger (n.terminatePeer c) := by
  have hleft := h.leaving c (.inl hlisted)
  refine h.leave hleft.1 rfl rfl rfl ?_ ?_ ?_
  · rw [Finset.erase_eq_of_notMem hleft.2.1]
    exact Finset.Subset.refl _
  · rw [Finset.erase_eq_of_notMem hleft.2.2]
    exact Finset.Subset.refl _
  · rintro d (hd | hd)
    · exact .inr (.inl (Finset.mem_of_mem_erase hd))
    · exact (Finset.mem_insert.1 hd).imp id .inr

theorem delete (h : Ledger n) (hlisted : c ∈ n.peersToDelete)
    (hnone : ∀ item, ¬ n.Owes c item) : Ledger (n.deletePeer c) := by
  have hleft := h.leaving c (.inr hlisted)
  have hbegun : ReadLoop.over ≠ .waiting := by decide
  have hover : Ledger (n.modifyPeer c fun p => { p with readLoop := .over }) :=
    h.turn rfl hbegun hleft.1 hnone (fun hne => absurd rfl hne) hleft.2.2
  refine hover.leave hleft.1 rfl rfl rfl ?_ ?_ ?_
  · show n.handshakingConnections ⊆ n.handshakingConnections.erase c
    rw [Finset.erase_eq_of_notMem hleft.2.1]
  · show n.activeConnections ⊆ n.activeConnections.erase c
    rw [Finset.erase_eq_of_notMem hleft.2.2]
  · rintro d (hd | hd)
    · exact .inr (.inl hd)
    · exact .inr (.inr (Finset.mem_of_mem_erase hd))

/-- The items of a closed connection are not requested any more. -/
theorem close (h : Ledger n) (hloop : (n.peers c).readLoop = .reading) :
    Ledger (n.onConnectionClosed c) := by
  have hopen : n.Open c := by
    unfold Node.Open
    rw [hloop]
    decide
  have hleaving : ∀ d, d ∈ n.terminatingConnections.erase c ∨ d ∈ insert c n.peersToDelete →
      d < n.nextConn ∧ d ∉ n.handshakingConnections.erase c ∧
        d ∉ n.activeConnections.erase c := by
    intro d hd
    by_cases heq : d = c
    · subst heq
      exact ⟨h.born hloop, Finset.notMem_erase d _, Finset.notMem_erase d _⟩
    · have hbefore := h.leaving d (hd.imp Finset.mem_of_mem_erase
        fun hmem => Finset.mem_of_mem_insert_of_ne hmem heq)
      exact ⟨hbefore.1, fun hmem => hbefore.2.1 (Finset.mem_of_mem_erase hmem),
        fun hmem => hbefore.2.2 (Finset.mem_of_mem_erase hmem)⟩
  have hpeers : (n.onConnectionClosed c).peers =
      Function.update n.peers c { n.peers c with readLoop := .over } := rfl
  have hbegun : ReadLoop.over ≠ .waiting := by decide
  refine h.settle c (n.peers c).syncItemsRequestedFromPeer hpeers
    (fun item hitem => ⟨hopen, hitem⟩) ?_ hbegun rfl (h.born hloop) rfl
    (fun d hd => h.known d (Finset.mem_of_mem_erase hd)) ?_ hleaving
  · intro item
    constructor
    · rintro ⟨hne, -⟩
      exact absurd rfl hne
    · rintro ⟨howes, hitem⟩
      exact absurd howes.2 hitem
  · intro d hd
    have hne : d ≠ c := Finset.ne_of_mem_erase hd
    show ((Function.update n.peers c _) d).readLoop = _
    rw [Function.update_of_ne hne]
    exact h.reading d (Finset.mem_of_mem_erase hd)

/-- A block that arrives is neither owed nor requested any more. -/
theorem receive (h : Ledger n) (hloop : (n.peers c).readLoop = .reading)
    (howed : item ∈ (n.peers c).syncItemsRequestedFromPeer) :
    Ledger (n.receiveSyncItem c item) := by
  have hopen : n.Open c := by
    unfold Node.Open
    rw [hloop]
    decide
  have hpeers : (n.receiveSyncItem c item).peers = Function.update n.peers c
      { n.peers c with
        syncItemsRequestedFromPeer := (n.peers c).syncItemsRequestedFromPeer.erase item } := rfl
  refine h.settle c {item} hpeers ?_ ?_ ?_ rfl (h.born hloop) (Finset.erase_eq _ _) h.known ?_
    h.leaving
  · intro other hother
    rw [Finset.mem_singleton.1 hother]
    exact ⟨hopen, howed⟩
  · intro other
    show (n.peers c).readLoop ≠ .over ∧
      other ∈ (n.peers c).syncItemsRequestedFromPeer.erase item ↔ _
    rw [Finset.mem_erase, Finset.mem_singleton]
    constructor
    · rintro ⟨hne, hother, hmem⟩
      exact ⟨⟨hne, hmem⟩, hother⟩
    · rintro ⟨⟨hne, hmem⟩, hother⟩
      exact ⟨hne, hother, hmem⟩
  · show (n.peers c).readLoop ≠ .waiting
    rw [hloop]
    decide
  · intro d hd
    by_cases heq : d = c
    · subst heq
      show ((Function.update n.peers d _) d).readLoop = _
      rw [Function.update_self]
      exact hloop
    · show ((Function.update n.peers c _) d).readLoop = _
      rw [Function.update_of_ne heq]
      exact h.reading d hd

/-- Every message but a report of a missing sync item keeps the ledger. -/
theorem message (h : Ledger n) (hreads : n.Reads c) (m : Message)
    (hrepaid : Repaid n (.message c m)) : Ledger (n.onMessage c m) := by
  cases m with
  | hello hello => exact h.calm (Node.onHelloMessage_calm c n hello)
  | connectionAccepted => exact h.calm (Node.onConnectionAcceptedMessage_calm c n).debts
  | connectionRejected reason =>
    exact h.calm (Node.onConnectionRejectedMessage_calm c n reason).debts
  | addressRequest => exact h
  | address unswitchable =>
    rcases Node.onAddressMessage_cases c n unswitchable with ⟨-, hcalm⟩ | ⟨hactivates, hcalm⟩
    · exact h.calm hcalm.debts
    · exact (h.activate hactivates.1 hreads.1).calm hcalm.debts
  | fetchBlockchainItemIds r unswitchable =>
    rcases Node.onFetchBlockchainItemIdsMessage_cases c n r unswitchable with
      hcalm | ⟨-, m, hm, hlisted, hcalm⟩
    · exact h.calm hcalm.debts
    · have hloop := congrArg Papers.readLoop (hm.papers.peers c)
      exact ((h.calm hm.debts).activate hlisted (hloop.trans hreads.1)).calm hcalm.debts
  | block blockId messageHash unswitchable =>
    show Ledger (n.processBlockMessage c blockId messageHash unswitchable)
    unfold Node.processBlockMessage
    simp only
    split
    · exact h.calm (Node.modifyPeer_calm c n rfl)
    · split
      · rename_i howed
        have hreceived := h.receive hreads.1 howed
        split
        · exact hreceived.calm (Node.fetchNextBatchOfItemIdsFromPeer_calm c _ _).debts
        · exact hreceived
      · exact h.calm (Node.disconnectFromPeer_calm c n).debts
  | itemNotAvailable item =>
    show Ledger (n.onItemNotAvailableMessage c item)
    unfold Node.onItemNotAvailableMessage
    simp only
    split
    · exact h.calm (Node.modifyPeer_calm c n rfl)
    · rename_i hregular
      rw [if_neg ((hrepaid hreads).resolve_left hregular)]
      exact h
  | closingConnection => exact h.calm (Node.onClosingConnectionMessage_calm c n).debts

/-- Every step that forgets no request keeps the ledger. -/
theorem step (h : Ledger n) (hrepaid : Repaid n a) : Ledger (n.step a) := by
  cases a with
  | openConnection direction => exact h.openConnection direction
  | establish c secret =>
    simp only [Node.step]
    split
    · rename_i hnew
      exact h.establish hnew.1 hnew.2 secret
    · exact h
  | dropNewPeer c secret =>
    simp only [Node.step]
    split
    · rename_i hnew
      exact h.dropNewPeer hnew.1 hnew.2 secret
    · exact h
  | message c m =>
    simp only [Node.step]
    split
    · rename_i hreads
      exact h.message hreads m hrepaid
    · exact h
  | answerHello c headBlockNum =>
    simp only [Node.step]
    split
    · exact h.calm (Node.answerHello_calm c n headBlockNum)
    · exact h
  | disconnect c =>
    simp only [Node.step]
    split
    · exact h.calm (Node.disconnectFromPeer_calm c n).debts
    · exact h
  | disconnectForcibly c =>
    simp only [Node.step]
    split
    · rename_i hlisted
      exact h.disconnectForcibly hlisted.1
    · exact h
  | connectionClosed c =>
    simp only [Node.step]
    split
    · rename_i hloop
      exact h.close hloop
    · exact h
  | terminate c =>
    simp only [Node.step]
    split
    · rename_i hlisted
      exact h.terminate hlisted
    · exact h
  | delete c =>
    simp only [Node.step]
    split
    · rename_i hlisted
      exact h.delete hlisted (hrepaid hlisted)
    · exact h
  | fetchSyncItems order =>
    simp only [Node.step]
    split
    · rename_i horder
      exact h.fetchSyncItems horder.2
    · exact h
  | startSynchronizing c unswitchable =>
    simp only [Node.step]
    split
    · exact h.calm (Node.startSynchronizingWithPeer_calm c n unswitchable).debts
    · exact h
  | progress c q =>
    simp only [Node.step]
    split
    · exact h.calm (Node.setProgress_calm c n q).debts
    · exact h
  | backlog received new suspend => exact { h with }

end Ledger

theorem Node.Fresh.ledger (h : start.Fresh) : Ledger start := by
  have hwaiting (c : ConnId) : (start.peers c).readLoop = .waiting := by
    rw [h.peers c]
  have hnone (c : ConnId) : (start.peers c).syncItemsRequestedFromPeer = ∅ := by
    rw [h.peers c]
  have hnot (c : ConnId) (item : ItemHash) : ¬ start.Owes c item := by
    rintro ⟨-, hitem⟩
    rw [hnone c] at hitem
    exact Finset.notMem_empty item hitem
  constructor
  · intro item
    rw [h.requests]
    constructor
    · intro hitem
      exact absurd hitem (Finset.notMem_empty item)
    · rintro ⟨c, howes⟩
      exact absurd howes (hnot c item)
  · intro c d item hc
    exact absurd hc (hnot c item)
  · intro c _
    exact hwaiting c
  · intro c _
    exact hnone c
  · intro c hc
    rw [h.handshaking] at hc
    exact absurd hc (Finset.notMem_empty c)
  · intro c hc
    rw [h.active] at hc
    exact absurd hc (Finset.notMem_empty c)
  · rintro c (hc | hc)
    · rw [h.terminating] at hc
      exact absurd hc (Finset.notMem_empty c)
    · rw [h.toDelete] at hc
      exact absurd hc (Finset.notMem_empty c)

/-! ## Runs -/

/-- A peer that is ready offers an item, and what comes before it in its list cannot be
requested. -/
def Node.Offers (n : Node) (c : ConnId) (item : ItemHash) : Prop :=
  n.Ready c ∧ ∃ before after, (n.peers c).idsOfItemsToGet = before ++ item :: after ∧
    ∀ id ∈ before, ¬ n.Requestable ∅ id

/-- The loop asks an active peer for what it offers, when nobody owes it. -/
theorem Ledger.asks (h : Ledger n) {order : List ConnId} (hoffers : n.Offers c item)
    (hrunning : n.suspendFetchingSyncBlocks = false)
    (hreceived : ¬ n.haveAlreadyReceivedSyncItem item) (hnobody : ∀ d, ¬ n.Owes d item)
    (horder : (c :: order).Nodup ∧ (c :: order).toFinset = n.activeConnections) :
    (n.step (.fetchSyncItems (c :: order))).Owes c item := by
  obtain ⟨hready, before, after, hids, hbefore⟩ := hoffers
  have hrequested : item ∉ n.activeSyncRequests := by
    intro hmem
    obtain ⟨d, hd⟩ := (h.owed item).1 hmem
    exact hnobody d hd
  have hrequestable : n.Requestable ∅ item := ⟨hreceived, Finset.notMem_empty item, hrequested⟩
  have hactive : c ∈ n.activeConnections := by
    rw [← horder.2]
    exact List.mem_toFinset.2 List.mem_cons_self
  have hloop := congrArg Papers.readLoop ((Node.fetchSyncItems_frame n (c :: order)).peers c)
  rw [Node.step, if_pos horder]
  constructor
  · intro hover
    have hreading := h.reading c hactive
    have hclosed : (n.peers c).readLoop = .over := hloop.symm.trans hover
    rw [hreading] at hclosed
    cases hclosed
  · exact fetchSyncItems_asks hready hrunning hids hbefore hrequestable

theorem run_ledger (hfresh : start.Fresh) (hrepaid : Guarded Node.step Repaid start acts) :
    Ledger (run Node.step start acts) :=
  run_invariant hfresh.ledger (fun _ _ h hok => h.step hok) hrepaid

/-- **The ledger of sync requests**: in every run of a fresh node in which no peer reports one
of the items that it was asked for while synchronising as not available, and no connection is
deleted with items outstanding, the items being requested are those that the connections that
are not closed owe; each is owed by one of them; and one that nobody owes is requested from the
active peer that offers it when the loop comes to it. -/
theorem requests_owed (hfresh : start.Fresh) (hrepaid : Guarded Node.step Repaid start acts) :
    (∀ item, item ∈ (run Node.step start acts).activeSyncRequests ↔
      ∃ c, (run Node.step start acts).Owes c item) ∧
    (∀ c d item, (run Node.step start acts).Owes c item →
      (run Node.step start acts).Owes d item → c = d) ∧
    ∀ c item order, (run Node.step start acts).Offers c item →
      (run Node.step start acts).suspendFetchingSyncBlocks = false →
      ¬ (run Node.step start acts).haveAlreadyReceivedSyncItem item →
      (∀ d, ¬ (run Node.step start acts).Owes d item) →
      (c :: order).Nodup ∧ (c :: order).toFinset = (run Node.step start acts).activeConnections →
      (run Node.step start (acts ++ [.fetchSyncItems (c :: order)])).Owes c item := by
  have hledger := run_ledger hfresh hrepaid
  refine ⟨hledger.owed, hledger.once, ?_⟩
  intro c item order hoffers hrunning hreceived hnobody horder
  rw [run_snoc]
  exact hledger.asks hoffers hrunning hreceived hnobody horder

/-- The ids of a peer that has one block that we lack. -/
def oneBlock : Progress where
  idsOfItemsToGet := [5]
  numberOfUnfetchedItemIds := 0
  peerNeedsSyncItemsFromUs := false
  weNeedSyncItemsFromPeer := true
  itemIdsRequestedFromPeer := false
  itemsRequestedFromPeer := ∅
  inhibitFetchingSyncBlocks := false

/-- An accepted peer is asked for the block that it offers. -/
def askedRun : List Act := acceptedRun ++ [.progress 0 oneBlock, .fetchSyncItems [0]]

theorem requests_owed_asked : 5 ∈ (run Node.step plainNode askedRun).activeSyncRequests ∧
    ∃ c, (run Node.step plainNode askedRun).Owes c 5 := by
  have hrequested : 5 ∈ (run Node.step plainNode askedRun).activeSyncRequests := by
    decide +kernel
  have hrepaid : Guarded Node.step Repaid plainNode askedRun :=
    ⟨trivial, trivial, trivial, trivial, trivial, trivial, trivial, trivial⟩
  exact ⟨hrequested, ((requests_owed plainNode_fresh hrepaid).1 5).1 hrequested⟩

/-- A block that the peer reports as not available stays requested, though nobody owes it: it
cannot be requested any more. -/
theorem unavailable_item_lost :
    ∃ acts, 5 ∈ (run Node.step plainNode acts).activeSyncRequests ∧
      (∀ c, ¬ (run Node.step plainNode acts).Owes c 5) ∧
      ¬ (run Node.step plainNode acts).Requestable ∅ 5 := by
  refine ⟨askedRun ++ [.message 0 (.itemNotAvailable ⟨blockMessageType, 5⟩)], ?_, ?_, ?_⟩
  · decide +kernel
  · rintro c ⟨-, hitem⟩
    cases c with
    | zero =>
      revert hitem
      decide +kernel
    | succ c =>
      have hnone : ((run Node.step plainNode (askedRun ++
          [.message 0 (.itemNotAvailable ⟨blockMessageType, 5⟩)])).peers
            (c + 1)).syncItemsRequestedFromPeer = ∅ := rfl
      rw [hnone] at hitem
      exact Finset.notMem_empty 5 hitem
  · decide +kernel

end VizCore.Network
