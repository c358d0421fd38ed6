import VizCore.Network.Intake

/-!
# Sync blocks on their way to the delegate

The ids that count as being processed for a peer.  The backlog moves an id from the list of every
peer that starts with it, before it looks whether the block is to be handed over.

* `beingProcessed_running`: as long as the backlog meets no block that was accepted lately and no
  block is too old, the ids are those of running calls, and a peer whose last block is accepted
  is asked for more;
* `recentBlock_stays`: the id of a block that was accepted lately stays for ever.
-/

namespace VizCore.Network

open VizCore.Lib VizCore.Protocol VizCore.Chain

/-- How a call of `send_sync_block_to_node_delegate` ends.  `tooOld` is
`block_older_than_undo_history`. -/
inductive SyncVerdict
  | accepted
  | rejected
  | tooOld
  deriving DecidableEq

/-- The node, with the number of ids that a peer has still to list, the peers that get no more
requests for blocks and those that have been asked for more ids. -/
structure Backlog extends Intake where
  numberOfUnfetchedItemIds : ConnId → Nat := fun _ => 0
  inhibitFetchingSyncBlocks : List ConnId := []
  askedForMore : List ConnId := []

namespace Backlog

/-- The block is the last one that the peer has listed. -/
def isLastOf (s : Backlog) (id : BlockId) (c : ConnId) : Bool :=
  let p := s.peers c
  decide (id ∈ p.idsOfItemsBeingProcessed ∧ p.idsOfItemsToGet = [] ∧
    s.numberOfUnfetchedItemIds c = 0 ∧ p.idsOfItemsBeingProcessed.erase id = [])

/-- `send_sync_block_to_node_delegate` after the delegate. -/
def endSyncCall (i : Nat) (verdict : SyncVerdict) (s : Backlog) : Backlog :=
  match s.syncCalls[i]? with
  | none => s
  | some m =>
    match verdict with
    | .accepted =>
      { s with
        toIntake := s.toIntake.endSyncCall i .accepted
        askedForMore := s.activeConnections.filter (s.isLastOf m.blockId) ++ s.askedForMore }
    | .rejected => { s with toIntake := s.toIntake.endSyncCall i .rejected }
    | .tooOld =>
      { s with
        syncCalls := s.syncCalls.eraseIdx i
        inhibitFetchingSyncBlocks := (s.activeConnections.filter fun c =>
          m.blockId ∈ (s.peers c).idsOfItemsBeingProcessed) ++ s.inhibitFetchingSyncBlocks }

/-! ## Steps -/

/-- `offers` is what the other handlers do with the ids that a peer lists, `recent` a block that
is accepted in normal operation or produced. -/
inductive Act
  | connect (c : ConnId)
  | disconnect (c : ConnId)
  | offers (c : ConnId) (idsOfItemsToGet : List BlockId) (unfetched : Nat)
  | syncBlock (m : BlockMessage)
  | recent (id : BlockId)
  | processBacklog
  | endSyncCall (i : Nat) (verdict : SyncVerdict)

/-- A connection that becomes active has a new object. -/
def connect (c : ConnId) (s : Backlog) : Backlog :=
  if c ∈ s.activeConnections then s
  else
    { s with
      toIntake := { s.toIntake.setOffers c {} with
        activeConnections := c :: s.activeConnections } }

def listIds (c : ConnId) (ids : List BlockId) (unfetched : Nat) (s : Backlog) : Backlog :=
  { s with
    toIntake := s.toIntake.setOffers c { s.peers c with idsOfItemsToGet := ids }
    numberOfUnfetchedItemIds := Function.update s.numberOfUnfetchedItemIds c unfetched }

def step (s : Backlog) : Act → Backlog
  | .connect c => s.connect c
  | .disconnect c => { s with toIntake := s.toIntake.disconnectFromPeer c }
  | .offers c ids unfetched => s.listIds c ids unfetched
  | .syncBlock m => { s with toIntake := s.toIntake.processBlockDuringSync m }
  | .recent id => { s with toIntake := s.toIntake.pushAccepted id }
  | .processBacklog => { s with toIntake := s.toIntake.processBacklogOfSyncBlocks }
  | .endSyncCall i verdict => s.endSyncCall i verdict

/-! ## What should hold -/

/-- The ids that count as being processed are those of running calls. -/
def ProcessingRuns (s : Intake) : Prop :=
  ∀ c ∈ s.activeConnections, (s.peers c).idsOfItemsBeingProcessed.Nodup ∧
    ∀ id ∈ (s.peers c).idsOfItemsBeingProcessed, ∃ m ∈ s.syncCalls, m.blockId = id

/-- The turns of the backlog meet no block that was accepted lately. -/
def MeetsNew : Nat → Intake → Prop
  | 0, _ => True
  | fuel + 1, s =>
    (∀ m, s.nextReceived = some m → m.blockId ∉ s.mostRecentBlocksAccepted) ∧
      (s.backlogTurn.1.syncCalls.length < maxCalls → MeetsNew fuel s.backlogTurn.1)

instance MeetsNew.decidable : ∀ fuel s, Decidable (MeetsNew fuel s)
  | 0, _ => isTrue trivial
  | fuel + 1, s =>
    have : Decidable (MeetsNew fuel s.backlogTurn.1) := MeetsNew.decidable fuel _
    inferInstanceAs (Decidable ((∀ m ∈ s.nextReceived, m.blockId ∉ s.mostRecentBlocksAccepted) ∧
      (s.backlogTurn.1.syncCalls.length < maxCalls → MeetsNew fuel s.backlogTurn.1)))

/-- The backlog meets no block that was accepted lately, and no block is too old. -/
def Undisturbed (s : Backlog) : Act → Prop
  | .processBacklog =>
    s.syncCalls.length < maxCalls →
      MeetsNew (s.newReceivedSyncItems.length + s.receivedSyncItems.length + 1)
        { s.toIntake with suspendFetchingSyncBlocks := false }
  | .endSyncCall _ verdict => verdict ≠ .tooOld
  | _ => True

instance Undisturbed.decidable (s : Backlog) : (a : Act) → Decidable (s.Undisturbed a)
  | .processBacklog => inferInstanceAs (Decidable (_ → MeetsNew _ _))
  | .endSyncCall _ verdict => inferInstanceAs (Decidable (verdict ≠ .tooOld))
  | .connect _ | .disconnect _ | .offers _ _ _ | .syncBlock _ | .recent _ => isTrue trivial

variable {s : Backlog} {t t' : Intake} {c : ConnId} {id : BlockId} {m : BlockMessage}

/-! ## One turn -/

theorem ProcessingRuns.of_same (h : ProcessingRuns t)
    (hactive : ∀ c ∈ t'.activeConnections, c ∈ t.activeConnections)
    (hids : ∀ c ∈ t'.activeConnections,
      (t'.peers c).idsOfItemsBeingProcessed = (t.peers c).idsOfItemsBeingProcessed)
    (hcalls : t'.syncCalls = t.syncCalls) : ProcessingRuns t' := by
  intro c hc
  rw [hids c hc, hcalls]
  exact h c (hactive c hc)

/-- What starting to process a block adds to the ids of a peer. -/
theorem mem_startProcessing {id' : BlockId}
    (h : id' ∈ ((t.startProcessing id).peers c).idsOfItemsBeingProcessed) :
    id' = id ∨ id' ∈ (t.peers c).idsOfItemsBeingProcessed := by
  unfold Intake.startProcessing at h
  dsimp only at h
  split at h
  · exact List.mem_insert_iff.mp h
  · exact .inr h

theorem nodup_startProcessing (h : (t.peers c).idsOfItemsBeingProcessed.Nodup) :
    ((t.startProcessing id).peers c).idsOfItemsBeingProcessed.Nodup := by
  unfold Intake.startProcessing
  dsimp only
  split
  · exact h.insert
  · exact h

theorem ProcessingRuns.backlogTurn (h : ProcessingRuns t)
    (hnew : ∀ m, t.nextReceived = some m → m.blockId ∉ t.mostRecentBlocksAccepted) :
    ProcessingRuns t.backlogTurn.1 := by
  unfold Intake.backlogTurn
  dsimp only
  split
  · exact h.of_same (fun _ hc => hc) (fun _ _ => rfl) rfl
  · rename_i m hnext
    split
    · rename_i hrecent
      exact absurd hrecent (hnew m hnext)
    · intro c hc
      obtain ⟨hnodup, hcalls⟩ := h c hc
      refine ⟨nodup_startProcessing hnodup, ?_⟩
      intro id hid
      rcases mem_startProcessing hid with rfl | hold
      · exact ⟨m, List.mem_append_right _ (List.mem_singleton_self m), rfl⟩
      · obtain ⟨m', hm', hid'⟩ := hcalls id hold
        exact ⟨m', List.mem_append_left _ hm', hid'⟩

/-- The loop, by induction on the turns that are left. -/
theorem ProcessingRuns.backlogLoop (fuel : Nat) (h : ProcessingRuns t) (hnew : MeetsNew fuel t) :
    ProcessingRuns (t.backlogLoop fuel) := by
  induction fuel generalizing t with
  | zero => exact h
  | succ fuel ih =>
    obtain ⟨hturn, hrest⟩ := hnew
    have hafter := h.backlogTurn hturn
    unfold Intake.backlogLoop
    dsimp only
    split
    · exact hafter.of_same (fun _ hc => hc) (fun _ _ => rfl) rfl
    · rename_i hroom
      split
      · exact ih hafter (hrest (not_le.mp hroom))
      · exact hafter

/-! ## The end of a call -/

/-- The call of another block goes on. -/
theorem mem_otherCalls {i : Nat} {m' : BlockMessage} (hcall : t.syncCalls[i]? = some m)
    (hm' : m' ∈ t.syncCalls) (hne : m'.blockId ≠ m.blockId) : m' ∈ t.syncCalls.eraseIdx i := by
  obtain ⟨j, hj⟩ := List.getElem?_of_mem hm'
  refine List.mem_eraseIdx_iff_getElem?.mpr ⟨j, ?_, hj⟩
  rintro rfl
  rw [hcall] at hj
  cases hj
  exact hne rfl

theorem endAccepted_ids {i : Nat} (hcall : t.syncCalls[i]? = some m)
    (hc : c ∈ t.activeConnections) :
    ((t.endSyncCall i .accepted).peers c).idsOfItemsBeingProcessed =
      (t.peers c).idsOfItemsBeingProcessed.erase m.blockId := by
  unfold Intake.endSyncCall
  simp only [hcall]
  split
  · rfl
  · rename_i hgone
    exact absurd hc hgone

theorem endAccepted_rest {i : Nat} (hcall : t.syncCalls[i]? = some m) :
    (t.endSyncCall i .accepted).activeConnections = t.activeConnections ∧
      (t.endSyncCall i .accepted).syncCalls = t.syncCalls.eraseIdx i := by
  unfold Intake.endSyncCall
  simp only [hcall]
  exact ⟨rfl, rfl⟩

theorem ProcessingRuns.endAccepted {i : Nat} (h : ProcessingRuns t)
    (hcall : t.syncCalls[i]? = some m) : ProcessingRuns (t.endSyncCall i .accepted) := by
  obtain ⟨hactive, hrest⟩ := endAccepted_rest hcall
  intro c hc
  rw [hactive] at hc
  obtain ⟨hnodup, hcalls⟩ := h c hc
  rw [endAccepted_ids hcall hc, hrest]
  refine ⟨hnodup.erase m.blockId, ?_⟩
  intro id hid
  obtain ⟨hne, hold⟩ := hnodup.mem_erase_iff.mp hid
  obtain ⟨m', hm', hid'⟩ := hcalls id hold
  exact ⟨m', mem_otherCalls hcall hm' (fun heq => hne (hid'.symm.trans heq)), hid'⟩

theorem ProcessingRuns.endRejected {i : Nat} (h : ProcessingRuns t) :
    ProcessingRuns (t.endSyncCall i .rejected) := by
  unfold Intake.endSyncCall
  split
  · exact h
  · rename_i m hcall
    intro c hc
    obtain ⟨hactive, hfree⟩ := List.mem_filter.mp hc
    obtain ⟨hnodup, hcalls⟩ := h c hactive
    refine ⟨hnodup, ?_⟩
    intro id hid
    obtain ⟨m', hm', hid'⟩ := hcalls id hid
    refine ⟨m', mem_otherCalls hcall hm' ?_, hid'⟩
    -- a peer that listed the rejected block is not active any more
    intro heq
    exact of_decide_eq_true hfree (heq ▸ hid' ▸ hid)

/-! ## Runs -/

theorem step_runs {act : Act} (h : ProcessingRuns s.toIntake) (hok : s.Undisturbed act) :
    ProcessingRuns (s.step act).toIntake := by
  cases act with
  | connect c =>
    show ProcessingRuns (s.connect c).toIntake
    unfold connect
    split
    · exact h
    · rename_i hnew
      intro d hd
      by_cases hself : d = c
      · rw [hself]
        show (Function.update s.peers c {} c).idsOfItemsBeingProcessed.Nodup ∧
          ∀ id ∈ (Function.update s.peers c {} c).idsOfItemsBeingProcessed, _
        rw [Function.update_self]
        exact ⟨List.nodup_nil, fun id hid => (nomatch hid)⟩
      · have hold : d ∈ s.activeConnections := (List.mem_cons.mp hd).resolve_left hself
        show (Function.update s.peers c {} d).idsOfItemsBeingProcessed.Nodup ∧
          ∀ id ∈ (Function.update s.peers c {} d).idsOfItemsBeingProcessed, _
        rw [Function.update_of_ne hself]
        exact h d hold
  | disconnect c => exact h.of_same (fun _ hc => List.mem_of_mem_filter hc) (fun _ _ => rfl) rfl
  | offers c ids unfetched =>
    refine h.of_same (fun _ hc => hc) (fun d _ => ?_) rfl
    show (Function.update s.peers c { s.peers c with idsOfItemsToGet := ids } d).idsOfItemsBeingProcessed
      = _
    by_cases hself : d = c
    · rw [hself, Function.update_self]
    · rw [Function.update_of_ne hself]
  | syncBlock m => exact h.of_same (fun _ hc => hc) (fun _ _ => rfl) rfl
  | recent id => exact h.of_same (fun _ hc => hc) (fun _ _ => rfl) rfl
  | processBacklog =>
    show ProcessingRuns s.toIntake.processBacklogOfSyncBlocks
    unfold Intake.processBacklogOfSyncBlocks
    split
    · exact h
    · rename_i hroom
      refine ProcessingRuns.backlogLoop _ ?_ (hok (not_le.mp hroom))
      exact h.of_same (fun _ hc => hc) (fun _ _ => rfl) rfl
  | endSyncCall i verdict =>
    show ProcessingRuns (s.endSyncCall i verdict).toIntake
    unfold endSyncCall
    split
    · exact h
    · rename_i m hcall
      cases verdict with
      | accepted => exact h.endAccepted hcall
      | rejected => exact h.endRejected
      | tooOld => exact absurd rfl hok

/-- The peer has listed no more blocks, and no other block of it is being processed. -/
structure Exhausted (s : Backlog) (i : Nat) (m : BlockMessage) (c : ConnId) : Prop where
  call : s.syncCalls[i]? = some m
  active : c ∈ s.activeConnections
  listed : m.blockId ∈ (s.peers c).idsOfItemsBeingProcessed
  noMore : (s.peers c).idsOfItemsToGet = [] ∧ s.numberOfUnfetchedItemIds c = 0
  alone : ∀ m' ∈ s.syncCalls, m'.blockId ∈ (s.peers c).idsOfItemsBeingProcessed →
    m'.blockId = m.blockId

theorem exhausted_asked {i : Nat} (h : ProcessingRuns s.toIntake) (hlast : s.Exhausted i m c) :
    c ∈ (s.endSyncCall i .accepted).askedForMore := by
  obtain ⟨hnodup, hcalls⟩ := h c hlast.active
  have honly : ∀ id ∈ (s.peers c).idsOfItemsBeingProcessed, id = m.blockId := by
    intro id hid
    obtain ⟨m', hm', rfl⟩ := hcalls id hid
    exact hlast.alone m' hm' hid
  have herase : (s.peers c).idsOfItemsBeingProcessed.erase m.blockId = [] := by
    rw [List.eq_nil_iff_forall_not_mem]
    intro id hid
    obtain ⟨hne, hold⟩ := hnodup.mem_erase_iff.mp hid
    exact hne (honly id hold)
  unfold endSyncCall
  simp only [hlast.call]
  refine List.mem_append_left _ (List.mem_filter.mpr ⟨hlast.active, ?_⟩)
  exact decide_eq_true ⟨hlast.listed, hlast.noMore.1, hlast.noMore.2, herase⟩

/-- **Blocks being processed.**  In every run in which the backlog meets no block that was accepted
lately and no block is too old, the ids that count as being processed are those of running calls,
and a peer whose last block is accepted is asked for more. -/
theorem beingProcessed_running {acts : List Act} (h : Guarded step Undisturbed {} acts) :
    ProcessingRuns (run step {} acts).toIntake ∧
      ∀ i m c, (run step {} acts).Exhausted i m c →
        c ∈ ((run step {} acts).endSyncCall i .accepted).askedForMore := by
  have hstart : ProcessingRuns ({} : Backlog).toIntake := by
    intro c hc
    cases hc
  have hruns : ProcessingRuns (run step {} acts).toIntake :=
    run_invariant (I := fun s => ProcessingRuns s.toIntake) hstart
      (fun _ _ hruns hok => step_runs hruns hok) h
  exact ⟨hruns, fun i m c hlast => exhausted_asked hruns hlast⟩

/-! ## Two runs -/

def syncedBlock : BlockMessage := ⟨smallBlock [], ⟨11, 77⟩⟩

/-- A peer lists the block and sends it. -/
def syncOne : List Act :=
  [.connect 0, .offers 0 [⟨11, 77⟩] 0, .syncBlock syncedBlock]

/-- Two peers list blocks, of which one is accepted, one rejected and the last one about to be
accepted; a block comes in normal operation in between. -/
def syncThree : List Act :=
  [.connect 0, .connect 1, .offers 0 [⟨11, 77⟩, ⟨12, 80⟩] 0, .offers 1 [⟨11, 77⟩, ⟨12, 78⟩] 0,
    .syncBlock ⟨smallBlock [], ⟨12, 78⟩⟩, .syncBlock syncedBlock, .processBacklog,
    .endSyncCall 0 .accepted, .recent ⟨11, 79⟩, .processBacklog, .endSyncCall 0 .rejected,
    .syncBlock ⟨smallBlock [], ⟨12, 80⟩⟩, .processBacklog]

theorem beingProcessed_running_three :
    Guarded step Undisturbed {} syncThree ∧ ProcessingRuns (run step {} syncThree).toIntake ∧
      0 ∈ ((run step {} syncThree).endSyncCall 0 .accepted).askedForMore := by
  have hguarded : Guarded step Undisturbed {} syncThree := by decide +kernel
  have hlast : (run step {} syncThree).Exhausted 0 ⟨smallBlock [], ⟨12, 80⟩⟩ 0 := by
    refine ⟨rfl, ?_, ?_, ?_, ?_⟩
    all_goals decide +kernel
  obtain ⟨hruns, hasked⟩ := beingProcessed_running hguarded
  exact ⟨hguarded, hruns, hasked 0 _ 0 hlast⟩

/-- The block was accepted in normal operation in the meantime: its id stays with the peer, and no
call is running. -/
theorem recentBlock_stays :
    let s := run step {} (syncOne ++ [.recent ⟨11, 77⟩, .processBacklog])
    s.syncCalls.length = 0 ∧ 0 ∈ s.activeConnections ∧
      (s.peers 0).idsOfItemsBeingProcessed = [⟨11, 77⟩] ∧ ¬ ProcessingRuns s.toIntake := by
  have hcalls : (run step {} (syncOne ++ [.recent ⟨11, 77⟩, .processBacklog])).syncCalls.length =
      0 := by decide +kernel
  have hactive : 0 ∈ (run step {} (syncOne ++ [.recent ⟨11, 77⟩,
      .processBacklog])).activeConnections := by decide +kernel
  have hids : ((run step {} (syncOne ++ [.recent ⟨11, 77⟩,
      .processBacklog])).peers 0).idsOfItemsBeingProcessed = [⟨11, 77⟩] := by decide +kernel
  refine ⟨hcalls, hactive, hids, ?_⟩
  intro hruns
  obtain ⟨m, hm, -⟩ := (hruns 0 hactive).2 ⟨11, 77⟩ (hids ▸ List.mem_singleton_self _)
  rw [List.length_eq_zero_iff] at hcalls
  rw [hcalls] at hm
  cases hm

end Backlog

end VizCore.Network
