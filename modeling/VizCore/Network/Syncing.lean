import VizCore.Network.ChainSync
import VizCore.Network.SyncIds

/-!
# The exchange of ids between two nodes

A node asks a peer for ids until it has enough of them, while neither chain changes.

* `first_answer`: the first answer starts no further below the blocks in common than the asker has
  blocks of its own above them;
* `Listing.exchange`: every exchange puts a stretch of the peer's chain on the end of the list;
* `exchanges_end`: they come to an end, with the peer's blocks above the common ones in the list.
-/

namespace VizCore.Network

open VizCore.Lib VizCore.Protocol VizCore.Chain

/-- The default `limit` of `get_block_ids` -/
def getBlockIdsLimit : Nat := 2000

variable (env : Env)

/-- The delegate of a node, as a reply is handled; no other peer has listed ids. -/
def syncAnswers (s : Store) (now : TimePointSec) : SyncAnswers where
  hasItem id := isKnownBlock env s id
  blockTime id := ((s.fetchBlockById env id).map (·.timestamp)).getD 0
  blockchainNow := now
  otherFronts := []

/-- The reply of `on_fetch_blockchain_item_ids_message` -/
def replyTo (s : Store) (synopsis : List BlockId) : SyncResult IdsInventory :=
  match getBlockIds env s synopsis getBlockIdsLimit with
  | .ok (ids, remaining) => .ok ⟨remaining, ids⟩
  | .error .unreachableFork => .ok ⟨0, []⟩
  | .error e => .error e

/-- A question to the chain, as the node hears it. -/
def heard (r : SyncResult (List BlockId)) : Except ChainFailure (List BlockId) :=
  match r with
  | .ok ids => .ok ids
  | .error .olderThanUndoHistory => .error .olderThanUndoHistory
  | .error .unreachableFork => .error .unreachableFork
  | .error (.chain _) => .error .noSuchBlock

/-- A request for ids, the reply, and what the node does with it. -/
def exchange (asker other : Store) (now : TimePointSec) (fuel : Nat) (p : SyncPeer) :
    SyncPeer × FollowUp :=
  let p := p.fetchNextBatchOfItemIds fuel
    (heard (getBlockchainSynopsis env asker p.lastBlockDelegateHasSeen p.idsOfItemsToGet.length))
  match p.itemIdsRequestedFromPeer with
  | none => (p, .nothing)
  | some synopsis =>
    match replyTo env other synopsis with
    | .ok m => p.onBlockchainItemIdsInventoryMessage (syncAnswers env asker now) m
    | .error _ => (p, .nothing)

/-- Exchanges as long as each is followed by the next one, `k` at most. -/
def exchanges (asker other : Store) (now : TimePointSec) (fuel : Nat) :
    Nat → SyncPeer → SyncPeer × FollowUp
  | 0, p => (p, .fetchNextBatch)
  | k + 1, p =>
    let (q, next) := exchange env asker other now fuel p
    if next = .fetchNextBatch then exchanges asker other now fuel k q else (q, next)

/-- Two chains that have the first `shared` blocks in common, and none above. -/
structure Sharing (a bs : List SignedBlock) (shared : Nat) : Prop where
  left : shared ≤ a.length
  right : shared ≤ bs.length
  common : (a.take shared).map (Db.blockId env) = (bs.take shared).map (Db.blockId env)
  apart : ∀ x ∈ a, ∀ y ∈ bs, Db.blockId env x = Db.blockId env y → x.blockNum ≤ shared

/-- The time of the block at the height `num`, or the least time. -/
def timeAt (bs : List SignedBlock) (num : Nat) : TimePointSec :=
  if num = 0 then 0 else (bs[num - 1]?.map (·.timestamp)).getD 0

/-- An asker of the chain `a` can synchronise with a peer of the chain `bs`: it can undo what is not
in common and has nothing of what it lacks, and the peer's chain is not longer than the time
allows. -/
structure Compatible (asker : Store) (now : TimePointSec) (a bs : List SignedBlock)
    (shared : Nat) : Prop where
  sharing : Sharing env a bs shared
  undoable : asker.irreversible ≤ shared
  rooted : a ≠ [] → 0 < shared
  room : a.length + 1 < 2 ^ 32
  unseen : ∀ b ∈ bs, shared < b.blockNum → isKnownBlock env asker (Db.blockId env b) = false
  inTime : ∀ k ≤ shared, timeAt a k + (bs.length - k) * blockInterval ≤
    now + futureSyncBlocksGracePeriodSec
  clock : now + futureSyncBlocksGracePeriodSec < 2 ^ 32

/-- Two stores at the end of such chains. -/
structure Meeting (asker other : Store) (now : TimePointSec) (a bs : List SignedBlock)
    (shared : Nat) : Prop extends Compatible env asker now a bs shared where
  askerEnd : Store.Readable env a asker
  otherEnd : Store.Readable env bs other

/-- The list of the asker: `count` blocks of the peer's chain above the last one in common that was
seen. -/
structure Listing (a bs : List SignedBlock) (shared seen count : Nat) (p : SyncPeer) : Prop where
  ids : p.idsOfItemsToGet = stretch env bs seen count
  fits : seen + count ≤ bs.length
  seen_le : seen ≤ shared
  above : 0 < count → seen = shared
  lastSeen : p.lastBlockDelegateHasSeen = Store.idAt env a seen
  lastTime : p.lastBlockTimeDelegateHasSeen = timeAt a seen
  unfetched : p.numberOfUnfetchedItemIds =
    if seen + count = 0 then 0 else bs.length - (seen + count)
  connected : p.disconnected = false

variable {env} {a bs : List SignedBlock} {base count shared : Nat} {id : BlockId}

/-! ## Stretches -/

theorem stretch_add (base count more : Nat) :
    stretch env bs base (count + more) =
      stretch env bs base count ++ stretch env bs (base + count) more := by
  unfold stretch
  rw [List.take_add, List.map_append, List.drop_drop]

theorem stretch_length (hfits : base + count ≤ bs.length) :
    (stretch env bs base count).length = count := by
  unfold stretch
  rw [List.length_map, List.length_take, List.length_drop]
  omega

/-- A stretch cannot pass the end of the chain. -/
theorem stretch_min (base count : Nat) :
    stretch env bs base count = stretch env bs base (min count (bs.length - base)) := by
  unfold stretch
  rw [List.take_eq_take_min, List.length_drop]

theorem stretch_get {i : Nat} (hi : i < count) (hfits : base + count ≤ bs.length) :
    (stretch env bs base count)[i]? = some (Store.idAt env bs (base + i + 1)) := by
  have hlt : base + i < bs.length := by omega
  unfold stretch Store.idAt
  rw [List.getElem?_map, List.getElem?_take_of_lt hi, List.getElem?_drop, if_neg (Nat.succ_ne_zero _),
    Nat.add_sub_cancel, List.getElem?_eq_getElem hlt]
  rfl

theorem stretch_last (hpos : 0 < count) (hfits : base + count ≤ bs.length) :
    (stretch env bs base count).getLast? = some (Store.idAt env bs (base + count)) := by
  rw [List.getLast?_eq_getElem?, stretch_length hfits, stretch_get (by omega) hfits,
    show base + (count - 1) + 1 = base + count by omega]

theorem stretch_one (hlt : base < bs.length) :
    stretch env bs base 1 = [Store.idAt env bs (base + 1)] := by
  have hlength : (stretch env bs base 1).length = 1 := stretch_length hlt
  obtain ⟨id, hid⟩ := List.length_eq_one_iff.1 hlength
  have hget : (stretch env bs base 1)[0]? = some (Store.idAt env bs (base + 0 + 1)) :=
    stretch_get Nat.one_pos hlt
  rw [hid] at hget ⊢
  rw [Option.some.inj hget]

theorem stretch_cons (env : Env) (hpos : 0 < count) (hfits : base + count ≤ bs.length) :
    stretch env bs base count =
      Store.idAt env bs (base + 1) :: stretch env bs (base + 1) (count - 1) := by
  obtain ⟨more, rfl⟩ : ∃ more, count = 1 + more := ⟨count - 1, by omega⟩
  rw [stretch_add, stretch_one (by omega), Nat.add_sub_cancel_left]
  rfl

theorem stretch_snoc (hfits : base + count < bs.length) :
    stretch env bs base (count + 1) =
      stretch env bs base count ++ [Store.idAt env bs (base + count + 1)] := by
  rw [stretch_add, stretch_one hfits]

/-- The number of an id of a linked chain. -/
theorem num_idAt (env : Env) {num : Nat} (hlinked : (links env).Linked bs) (hle : num ≤ bs.length) :
    (Store.idAt env bs num).num = num := by
  rcases Nat.eq_zero_or_pos num with rfl | hpos
  · rfl
  · obtain ⟨b, -, hid, hnum⟩ := Store.Readable.idAt_of_le env hpos hle hlinked
    rw [hid]
    exact hnum

/-- A block of a linked chain at its height. -/
theorem idAt_blockNum {b : SignedBlock} (hlinked : (links env).Linked bs) (hb : b ∈ bs) :
    Store.idAt env bs b.blockNum = Db.blockId env b := by
  obtain ⟨hpos, -, hget⟩ := ForkDb.get_of_mem hlinked hb
  unfold Store.idAt
  rw [if_neg (Nat.ne_of_gt hpos), hget]
  rfl

namespace Sharing

/-- The heights at which the chains have the same id. -/
theorem idAt_iff (h : Sharing env a bs shared) (ha : (links env).Linked a)
    (hb : (links env).Linked bs) (num : Nat) (hpos : 0 < num) (hle : num ≤ a.length) :
    Store.idAt env bs num = Store.idAt env a num ↔ num ≤ shared := by
  constructor
  · intro hsame
    obtain ⟨x, hx, hid, hnum⟩ := Store.Readable.idAt_of_le env hpos hle ha
    have hne : x.blockNum ≠ 0 := by omega
    rw [hid] at hsame
    unfold Store.idAt at hsame
    rw [if_neg (Nat.ne_of_gt hpos)] at hsame
    cases hy : bs[num - 1]? with
    | none =>
      rw [hy] at hsame
      exact absurd (congrArg BlockId.num hsame).symm hne
    | some y =>
      rw [hy] at hsame
      rw [← hnum]
      exact h.apart x hx y (List.mem_of_getElem? hy) hsame.symm
  · intro hshared
    have hleft := h.left
    have hright := h.right
    have hget : ((a.take shared).map (Db.blockId env))[num - 1]? =
        ((bs.take shared).map (Db.blockId env))[num - 1]? := by
      rw [h.common]
    rw [List.getElem?_map, List.getElem?_map, List.getElem?_take_of_lt (by omega),
      List.getElem?_take_of_lt (by omega)] at hget
    unfold Store.idAt
    rw [if_neg (Nat.ne_of_gt hpos), if_neg (Nat.ne_of_gt hpos), hget]

/-- Chains are told apart by the ids that are found at their heights. -/
theorem of_ids (ha : (links env).Linked a) (hb : (links env).Linked bs) (hleft : shared ≤ a.length)
    (hright : shared ≤ bs.length)
    (hcommon : ∀ k, 0 < k → k ≤ shared → Store.idAt env a k = Store.idAt env bs k)
    (hapart : ∀ k, shared < k → k ≤ a.length → k ≤ bs.length →
      Store.idAt env a k ≠ Store.idAt env bs k) : Sharing env a bs shared := by
  refine ⟨hleft, hright, ?_, ?_⟩
  · refine List.ext_getElem? fun i => ?_
    rw [List.getElem?_map, List.getElem?_map]
    by_cases hi : i < shared
    · rw [List.getElem?_take_of_lt hi, List.getElem?_take_of_lt hi]
      have hsame := hcommon (i + 1) (Nat.succ_pos i) hi
      unfold Store.idAt at hsame
      rw [if_neg (Nat.succ_ne_zero i), Nat.add_sub_cancel,
        List.getElem?_eq_getElem (hi.trans_le hleft),
        List.getElem?_eq_getElem (hi.trans_le hright)] at hsame
      rw [List.getElem?_eq_getElem (hi.trans_le hleft),
        List.getElem?_eq_getElem (hi.trans_le hright)]
      exact congrArg some hsame
    · rw [List.getElem?_take_eq_none (Nat.not_lt.1 hi), List.getElem?_take_eq_none (Nat.not_lt.1 hi)]
  · intro x hx y hy hid
    have hnum : y.blockNum = x.blockNum := congrArg BlockId.num hid.symm
    by_contra hlt
    refine hapart x.blockNum (Nat.not_le.1 hlt) (ForkDb.get_of_mem ha hx).2.1
      (hnum ▸ (ForkDb.get_of_mem hb hy).2.1) ?_
    rw [idAt_blockNum ha hx, hid, ← idAt_blockNum hb hy, hnum]

end Sharing

/-! ## Requests -/

/-- The ids that continue a synopsis come from the list and end with its last one. -/
theorem missingIds_stretch (first trueHigh fuel : Nat) (ids : List BlockId) {low : Nat} (hpos : 0 < low)
    (hfits : trueHigh + 1 < 2 ^ 32) (hlow : low ≤ trueHigh) (hfirst : 0 < first)
    (htrue : trueHigh + 1 = first + ids.length) (hsome : 0 < ids.length)
    (hfuel : trueHigh < low + fuel) :
    ∃ missing, missingIds ids first trueHigh fuel low = .ok missing ∧
      (∀ id ∈ missing, id ∈ ids) ∧ missing.getLast? = ids.getLast? := by
  induction fuel generalizing low with
  | zero => omega
  | succ fuel ih =>
    obtain ⟨hahead, hend, hinside⟩ := nextLow_spec hlow hfits (by omega)
    have hhere : ∃ here, idsAt ids first low = .ok here ∧ (∀ id ∈ here, id ∈ ids) ∧
        (low = trueHigh → here.getLast? = ids.getLast?) := by
      unfold idsAt
      split
      · have hlt : low - first < ids.length := by omega
        rw [List.getElem?_eq_getElem hlt]
        refine ⟨_, rfl, ?_, ?_⟩
        · intro id hid
          rw [List.mem_singleton.1 hid]
          exact List.getElem_mem hlt
        · intro hlast
          rw [List.getLast?_eq_getElem? (l := ids), show ids.length - 1 = low - first by omega,
            List.getElem?_eq_getElem hlt]
          rfl
      · refine ⟨[], rfl, ?_, ?_⟩
        · intro id hid
          exact absurd hid List.not_mem_nil
        · intro hlast
          omega
    obtain ⟨here, hhere, hmem, hlast⟩ := hhere
    rcases Nat.eq_or_lt_of_le hlow with heq | hlt
    · have hover : ¬ nextLow trueHigh low ≤ trueHigh := by omega
      exact ⟨here, missingIds_done hhere hover fuel, hmem, hlast heq⟩
    · obtain ⟨rest, hrest, hrestmem, hrestlast⟩ := ih (by omega) (hinside hlt) (by omega)
      refine ⟨here ++ rest, missingIds_more hhere (hinside hlt) hrest, ?_, ?_⟩
      · intro id hid
        rcases List.mem_append.1 hid with hid | hid
        · exact hmem id hid
        · exact hrestmem id hid
      · have hnone : ids.getLast? ≠ none := by
          intro hnone
          rw [List.getLast?_eq_none_iff.1 hnone] at hsome
          exact absurd hsome (Nat.lt_irrefl 0)
        rw [List.getLast?_append, hrestlast]
        cases hids : ids.getLast? with
        | none => exact absurd hids hnone
        | some id => rfl

/-- A list of ids whose numbers count up from `first`. -/
theorem isSequential_of_nums {first i : Nat} {ids : List BlockId}
    (hnums : ∀ j id, ids[j]? = some id → getBlockNumber id = (first + i + j) % 2 ^ 32) :
    isSequential first i ids = true := by
  induction ids generalizing i with
  | nil => rfl
  | cons id ids ih =>
    have hhead : getBlockNumber id = (first + i) % 2 ^ 32 := hnums 0 id rfl
    have hrest : isSequential first (i + 1) ids = true := by
      refine ih ?_
      intro j id' hid
      rw [hnums (j + 1) id' hid]
      congr 1
      omega
    unfold isSequential
    rw [decide_eq_true hhead, hrest]
    rfl

/-- A stretch of a chain that starts in the synopsis is a valid reply. -/
theorem isValidReply_stretch {synopsis : List BlockId} (hlinked : (links env).Linked bs)
    (hfits : base + count ≤ bs.length)
    (hstart : if synopsis = [] then base = 0 else Store.idAt env bs (base + 1) ∈ synopsis) :
    isValidReply synopsis (stretch env bs base count) = true := by
  rcases Nat.eq_zero_or_pos count with rfl | hpos
  · rfl
  have hnum (num : Nat) (hle : num ≤ bs.length) :
      getBlockNumber (Store.idAt env bs num) = num % 2 ^ 32 := by
    unfold getBlockNumber
    rw [num_idAt env hlinked hle]
  rw [stretch_cons env hpos hfits]
  unfold isValidReply
  rw [Bool.and_eq_true]
  constructor
  · refine isSequential_of_nums ?_
    intro j id hid
    have hlength : (stretch env bs (base + 1) (count - 1)).length = count - 1 :=
      stretch_length (by omega)
    have hj : j < count - 1 := by
      rw [← hlength]
      exact (List.getElem?_eq_some_iff.1 hid).1
    rw [stretch_get hj (by omega)] at hid
    rw [← Option.some.inj hid, hnum _ (by omega), hnum _ (by omega)]
    omega
  · split
    · rename_i hnone
      rw [if_pos hnone] at hstart
      rw [hnum _ (by omega), hstart]
      rfl
    · rename_i hsome
      rw [if_neg hsome] at hstart
      exact decide_eq_true hstart

/-- The first and, where nothing follows, the last id of a synopsis. -/
theorem Summary.head_num {branch : List SignedBlock} {low after : Nat} {ids : List BlockId}
    (h : Summary env branch low after ids) : ∃ id ∈ ids.head?, id.num = low := by
  have hhead := h.ladder.head
  rw [List.head?_map] at hhead
  exact Option.map_eq_some_iff.1 hhead

theorem Summary.last {branch : List SignedBlock} {low : Nat} {ids : List BlockId}
    (hlinked : (links env).Linked branch) (h : Summary env branch low 0 ids)
    (hlow : low ≤ branch.length) : ids.getLast? = some (Store.idAt env branch branch.length) := by
  have hlast := h.ladder.getLast_top hlow
  rw [List.getLast?_map] at hlast
  obtain ⟨id, hid, hnum⟩ := Option.map_eq_some_iff.1 hlast
  obtain ⟨b, hb, rfl⟩ := h.onBranch id (List.mem_of_getLast? hid)
  change b.blockNum = branch.length at hnum
  rw [hid, ← hnum, idAt_blockNum hlinked hb]

variable {asker other : Store} {now : TimePointSec} {seen fuel : Nat} {p : SyncPeer}

/-- What a request asks for: it ends where the list does, or, without a list, is about the whole
chain. -/
structure Asks (env : Env) (asker : Store) (a bs : List SignedBlock) (reached : Nat)
    (synopsis : List BlockId) : Prop where
  further : 0 < reached → synopsis.getLast? = some (Store.idAt env bs reached)
  fresh : reached = 0 → if a = [] then synopsis = []
    else Summary env a (max 1 asker.irreversible) 0 synopsis

theorem Meeting.short (hmeet : Meeting env asker other now a bs shared) :
    bs.length + 1 < 2 ^ 32 := by
  have htime := hmeet.inTime 0 (Nat.zero_le shared)
  have hblocks : (bs.length - 0) * 3 < 2 ^ 32 :=
    Nat.lt_of_le_of_lt ((Nat.le_add_left _ _).trans htime) hmeet.clock
  omega

/-- The blocks in common. -/
theorem Meeting.same (hmeet : Meeting env asker other now a bs shared) {num : Nat}
    (hle : num ≤ shared) : Store.idAt env bs num = Store.idAt env a num := by
  rcases Nat.eq_zero_or_pos num with rfl | hpos
  · rfl
  · exact (hmeet.sharing.idAt_iff hmeet.askerEnd.linked hmeet.otherEnd.linked num hpos
      (hle.trans hmeet.sharing.left)).2 hle

/-- A request is on its way. -/
def SyncPeer.asking (synopsis : List BlockId) (p : SyncPeer) : SyncPeer :=
  { p with itemIdsRequestedFromPeer := some synopsis }

theorem request_eq {synopsis request : List BlockId} {r : SyncResult (List BlockId)}
    (hr : r = .ok synopsis)
    (hrequest : createBlockchainSynopsisForPeer fuel p.idsOfItemsToGet synopsis = .ok request) :
    p.fetchNextBatchOfItemIds fuel (heard r) = p.asking request := by
  rw [hr]
  simp only [SyncPeer.fetchNextBatchOfItemIds, heard, hrequest, SyncPeer.asking]

/-- The ids of the list go on where the synopsis of the delegate ends. -/
theorem continue_synopsis (synopsis : List BlockId) (hlinked : (links env).Linked bs)
    (hfits : seen + count ≤ bs.length) (hshort : bs.length + 1 < 2 ^ 32) (hpos : 0 < count)
    (hlow : 0 < lowBlockNum synopsis) (hbelow : lowBlockNum synopsis ≤ seen + count)
    (hfuel : bs.length ≤ fuel) :
    ∃ request, createBlockchainSynopsisForPeer fuel (stretch env bs seen count) synopsis =
        .ok request ∧ request.getLast? = some (Store.idAt env bs (seen + count)) := by
  have hlength : (stretch env bs seen count).length = count := stretch_length hfits
  have hfirst : getBlockNumber (Store.idAt env bs (seen + 1)) = seen + 1 := by
    unfold getBlockNumber
    rw [num_idAt env hlinked (by omega)]
    exact Nat.mod_eq_of_lt (by omega)
  obtain ⟨missing, hmissing, -, hlast⟩ := missingIds_stretch (seen + 1)
    (seen + count) fuel (stretch env bs seen count) hlow (by omega)
    hbelow (Nat.succ_pos seen) (by omega) (by omega) (by omega)
  refine ⟨synopsis ++ missing, ?_, ?_⟩
  · have hcons := stretch_cons env hpos hfits
    have htrue : (seen + 1 + (stretch env bs seen count).length - 1) % 2 ^ 32 = seen + count := by
      rw [hlength, Nat.mod_eq_of_lt (by omega)]
      omega
    unfold createBlockchainSynopsisForPeer
    split
    · rename_i hnone
      rw [hnone] at hlength
      exact absurd hlength (Nat.ne_of_lt hpos)
    · rename_i front rest hids
      obtain rfl : front = Store.idAt env bs (seen + 1) :=
        (List.cons.inj (hids.symm.trans hcons)).1
      dsimp only
      rw [hfirst, htrue]
      exact (bind_eq_ok _ _ _).2 ⟨missing, hmissing, rfl⟩
  · rw [List.getLast?_append, hlast, stretch_last hpos hfits]
    rfl

/-- **A request** is made. -/
theorem Listing.request (h : Listing env a bs shared seen count p)
    (hmeet : Meeting env asker other now a bs shared) (hfuel : bs.length ≤ fuel) :
    ∃ synopsis, p.fetchNextBatchOfItemIds fuel (heard (getBlockchainSynopsis env asker
        p.lastBlockDelegateHasSeen p.idsOfItemsToGet.length)) = p.asking synopsis ∧
      Asks env asker a bs (seen + count) synopsis := by
  have hshort := hmeet.short
  have hfits := h.fits
  have hleft := hmeet.sharing.left
  have hseen := h.seen_le
  have hlength : p.idsOfItemsToGet.length = count := by
    rw [h.ids]
    exact stretch_length hfits
  have hroom := hmeet.room
  rw [hlength, h.lastSeen]
  have hempty : a = [] → getBlockchainSynopsis env asker ⟨0, 0⟩ count = .ok [] := by
    intro hnone
    have hheight : asker.db.dgp.headBlockNumber = 0 := by
      rw [hmeet.askerEnd.height, hnone]
      rfl
    unfold getBlockchainSynopsis
    dsimp only
    rw [if_pos rfl, if_pos hheight]
  rcases Nat.eq_zero_or_pos seen with rfl | hpos
  · rcases Nat.eq_zero_or_pos count with rfl | hcount
    · -- the first request
      have hids : p.idsOfItemsToGet = [] := List.length_eq_zero_iff.1 hlength
      have hdone : ∀ synopsis, createBlockchainSynopsisForPeer fuel p.idsOfItemsToGet synopsis =
          .ok synopsis := by
        intro synopsis
        rw [hids]
        rfl
      by_cases hnone : a = []
      · refine ⟨[], request_eq (hempty hnone) (hdone []), fun hlt => absurd hlt (Nat.lt_irrefl 0), ?_⟩
        intro _
        rw [if_pos hnone]
      · obtain ⟨ids, hsynopsis, hsummary⟩ :=
          hmeet.askerEnd.getBlockchainSynopsis_whole 0 hnone (by omega)
        refine ⟨ids, request_eq hsynopsis (hdone ids), fun hlt => absurd hlt (Nat.lt_irrefl 0), ?_⟩
        intro _
        rw [if_neg hnone]
        exact hsummary
    · -- nothing is in common, so that the asker has no blocks
      have hnone : a = [] := by
        by_contra hsome
        have hrooted := hmeet.rooted hsome
        have habove := h.above hcount
        omega
      obtain ⟨request, hrequest, hlast⟩ := continue_synopsis []
        hmeet.otherEnd.linked hfits hshort hcount Nat.one_pos (by show 1 ≤ 0 + count; omega) hfuel
      rw [← h.ids] at hrequest
      refine ⟨request, request_eq (hempty hnone) hrequest, fun _ => hlast, ?_⟩
      intro hzero
      omega
  · -- the delegate's synopsis ends with the last block seen
    have htake : (a.take seen).length = seen := by
      rw [List.length_take]
      omega
    obtain ⟨ids, hsynopsis, hsummary⟩ :=
      hmeet.askerEnd.getBlockchainSynopsis_upTo seen count hpos (by omega) (by omega)
    have hlater (synopsis : List BlockId) (hzero : seen + count = 0) : if a = [] then synopsis = []
        else Summary env a (max 1 asker.irreversible) 0 synopsis := by
      omega
    rcases Nat.eq_zero_or_pos count with rfl | hcount
    · have hids : p.idsOfItemsToGet = [] := List.length_eq_zero_iff.1 hlength
      refine ⟨ids, request_eq hsynopsis ?_, ?_, hlater ids⟩
      · rw [hids]
        rfl
      · intro _
        have hlast := Summary.last (hmeet.askerEnd.linked.take seen) hsummary (by omega)
        rw [hlast, htake, Nat.add_zero, hmeet.same hseen]
        have hget : (a.take seen)[seen - 1]? = a[seen - 1]? := List.getElem?_take_of_lt (by omega)
        unfold Store.idAt
        rw [hget]
    · obtain ⟨id, hid, hnum⟩ := hsummary.head_num
      have hlow : lowBlockNum ids = max 1 (min seen asker.irreversible) := by
        unfold lowBlockNum getBlockNumber
        rw [hid]
        show id.num % 2 ^ 32 = _
        rw [hnum]
        exact Nat.mod_eq_of_lt (by omega)
      obtain ⟨request, hrequest, hlast⟩ := continue_synopsis ids
        hmeet.otherEnd.linked hfits hshort hcount (by omega) (by omega) hfuel
      rw [← h.ids] at hrequest
      exact ⟨request, request_eq hsynopsis hrequest, fun _ => hlast, hlater request⟩

/-! ## Replies -/

/-- A reply is a stretch of the chain from the last id of the synopsis that is on it. -/
theorem replyTo_eq (h : Store.Readable env bs other) (hsome : bs ≠ []) {synopsis : List BlockId}
    {last : BlockId} (hlast : (if synopsis = [] ∨ synopsis = [⟨0, 0⟩] then some ⟨0, 0⟩
      else synopsis.reverse.find? fun id => decide (Store.idAt env bs id.num = id)) = some last)
    (hle : last.num ≤ bs.length) :
    ∃ count, 0 < count ∧ max last.num 1 - 1 + count ≤ bs.length ∧
      (count = getBlockIdsLimit ∨ max last.num 1 - 1 + count = bs.length) ∧
      replyTo env other synopsis = .ok ⟨bs.length - (max last.num 1 - 1 + count),
        stretch env bs (max last.num 1 - 1) count⟩ := by
  have hpos := List.length_pos_iff.2 hsome
  generalize hbase : max last.num 1 - 1 = base
  have hbelow : base < bs.length := by omega
  have hlimit : 0 < getBlockIdsLimit := by decide
  refine ⟨min getBlockIdsLimit (bs.length - base), by omega, by omega, by omega, ?_⟩
  have hremaining : remainingItemCount bs.length
      (stretch env bs base (min getBlockIdsLimit (bs.length - base))) =
        bs.length - (base + min getBlockIdsLimit (bs.length - base)) := by
    unfold remainingItemCount
    rw [stretch_last (by omega) (by omega)]
    dsimp only
    rw [num_idAt env h.linked (by omega)]
    split
    · rfl
    · omega
  unfold replyTo
  rw [h.getBlockIds_eq]
  unfold answer
  dsimp only
  rw [if_neg hsome, hlast]
  dsimp only
  rw [hbase, stretch_min base getBlockIdsLimit, hremaining]

/-- From its end, an ascending list is searched for the greatest id. -/
theorem greatest_of_find? {ids : List BlockId} {last : BlockId} {test : BlockId → Bool}
    (hids : (ids.map (·.num)).Pairwise (· < ·)) (hlast : ids.reverse.find? test = some last) :
    last ∈ ids ∧ test last = true ∧ ∀ id ∈ ids, test id = true → id.num ≤ last.num := by
  obtain ⟨htest, before, after, heq, hbefore⟩ := List.find?_eq_some_iff_append.1 hlast
  have hsorted : ids.reverse.Pairwise fun x y => y.num < x.num :=
    List.pairwise_reverse.2 (List.pairwise_map.1 hids)
  have hmem : ∀ id, id ∈ ids ↔ id ∈ before ++ last :: after := by
    intro id
    rw [← heq, List.mem_reverse]
  refine ⟨(hmem last).2 (List.mem_append_right _ List.mem_cons_self), htest, ?_⟩
  intro id hid hpass
  rw [heq] at hsorted
  rcases List.mem_append.1 ((hmem id).1 hid) with hid | hid
  · have hfail := hbefore id hid
    rw [hpass] at hfail
    cases hfail
  · rcases List.mem_cons.1 hid with rfl | hid
    · exact le_rfl
    · exact Nat.le_of_lt ((List.pairwise_cons.1 (List.pairwise_append.1 hsorted).2.1).1 id hid)

/-- **The first answer** starts at a block in common, no further below the last one than the asker
has blocks above it. -/
theorem Summary.found {low : Nat} {synopsis : List BlockId} (ha : (links env).Linked a)
    (hb : (links env).Linked bs) (hsharing : Sharing env a bs shared)
    (h : Summary env a low 0 synopsis) (hpos : 0 < low) (hlow : low ≤ shared) :
    ∃ last ∈ synopsis,
      synopsis.reverse.find? (fun id => decide (Store.idAt env bs id.num = id)) = some last ∧
      Store.idAt env bs last.num = last ∧ low ≤ last.num ∧ last.num ≤ shared ∧
      2 * shared ≤ a.length + last.num := by
  have hleft := hsharing.left
  -- an id of the synopsis is on the other chain when it is not above the common blocks
  have hcommon : ∀ id ∈ synopsis, low ≤ id.num ∧
      (Store.idAt env bs id.num = id ↔ id.num ≤ shared) := by
    intro id hid
    obtain ⟨hge, hle⟩ := h.ladder.bounds (by omega) id.num (List.mem_map_of_mem hid)
    obtain ⟨b, hmem, rfl⟩ := h.onBranch id hid
    have hown : Store.idAt env a (Db.blockId env b).num = Db.blockId env b :=
      idAt_blockNum ha hmem
    have hiff := hsharing.idAt_iff ha hb (Db.blockId env b).num (by omega) hle
    rw [hown] at hiff
    exact ⟨hge, hiff⟩
  obtain ⟨rung, hrung, hbelow, hnear, hmost⟩ := h.ladder.near hlow hleft (Nat.le_add_right _ 0)
  obtain ⟨near, hmem, rfl⟩ := List.mem_map.1 hrung
  have hnearcommon := (hcommon near hmem).2.2 hbelow
  cases hfind : synopsis.reverse.find? (fun id => decide (Store.idAt env bs id.num = id)) with
  | none =>
    exact absurd (decide_eq_true hnearcommon)
      (List.find?_eq_none.1 hfind near (List.mem_reverse.2 hmem))
  | some last =>
    obtain ⟨hlast, htest, hgreatest⟩ := greatest_of_find? h.ladder.ascending hfind
    obtain ⟨hge, hiff⟩ := hcommon last hlast
    have hon := of_decide_eq_true htest
    have hgreater := hgreatest near hmem (decide_eq_true hnearcommon)
    exact ⟨last, hlast, rfl, hon, hge, hiff.1 hon, by omega⟩

/-- The first question of an asker about the whole chain, and the answer: the ids from a block in
common that the question names, no further below the last one in common than the asker's own branch
goes above it. -/
structure Opening (env : Env) (asker other : Store) (a bs : List SignedBlock) (shared first : Nat)
    (synopsis : List BlockId) : Prop where
  question : getBlockchainSynopsis env asker ⟨0, 0⟩ 0 = .ok synopsis
  short : synopsis.length ≤ Nat.log 2 (a.length - max 1 asker.irreversible + 1) + 1
  named : Store.idAt env a first ∈ synopsis
  undoable : max 1 asker.irreversible ≤ first
  common : first ≤ shared
  near : 2 * shared ≤ a.length + first
  answer : ∀ limit, getBlockIds env other synopsis limit =
    .ok (stretch env bs (first - 1) limit,
      remainingItemCount bs.length (stretch env bs (first - 1) limit))

theorem Sharing.opening (h : Sharing env a bs shared) (ha : Store.Readable env a asker)
    (hb : Store.Readable env bs other) (hundoable : asker.irreversible ≤ shared) (hpos : 0 < shared)
    (hroom : a.length + 1 < 2 ^ 32) :
    ∃ first synopsis, Opening env asker other a bs shared first synopsis := by
  have hleft := h.left
  have hright := h.right
  have ha₀ : a ≠ [] := List.length_pos_iff.1 (hpos.trans_le hleft)
  have hb₀ : bs ≠ [] := List.length_pos_iff.1 (hpos.trans_le hright)
  obtain ⟨synopsis, hquestion, hsummary⟩ := ha.getBlockchainSynopsis_whole 0 ha₀ hroom
  obtain ⟨last, hlast, hfind, hon, hlow, hshared, hnear⟩ :=
    hsummary.found ha.linked hb.linked h (by omega) (by omega)
  have hlength := hsummary.ladder.length_le (by omega) (Nat.le_add_right _ 0)
  rw [List.length_map] at hlength
  have hsynopsis : ¬ (synopsis = [] ∨ synopsis = [⟨0, 0⟩]) := by
    rintro (rfl | rfl)
    · exact absurd hlast List.not_mem_nil
    · rw [List.mem_singleton.1 hlast] at hlow
      have hzero : max 1 asker.irreversible ≤ 0 := hlow
      omega
  have hfirst : max last.num 1 = last.num := by omega
  refine ⟨last.num, synopsis, hquestion, hlength, ?_, hlow, hshared, hnear, ?_⟩
  · rw [← (h.idAt_iff ha.linked hb.linked last.num (by omega) (by omega)).2 hshared, hon]
    exact hlast
  · intro limit
    rw [hb.getBlockIds_eq]
    unfold VizCore.Network.answer
    dsimp only
    rw [if_neg hb₀, if_neg hsynopsis, hfind]
    dsimp only
    rw [hfirst]

/-- **A reply** is valid, and starts where the request ends. -/
theorem Asks.reply {reached : Nat} {synopsis : List BlockId}
    (hmeet : Meeting env asker other now a bs shared) (hsome : bs ≠ [])
    (h : Asks env asker a bs reached synopsis) (hreached : reached ≤ bs.length) :
    ∃ base count, 0 < count ∧ base + count ≤ bs.length ∧
      (count = getBlockIdsLimit ∨ base + count = bs.length) ∧
      replyTo env other synopsis =
        .ok ⟨bs.length - (base + count), stretch env bs base count⟩ ∧
      isValidReply synopsis (stretch env bs base count) = true ∧
      (0 < reached → base + 1 = reached) ∧
      (reached = 0 → base + 1 ≤ shared ∨ base = 0 ∧ shared = 0) := by
  have hbs := hmeet.otherEnd.linked
  rcases Nat.eq_zero_or_pos reached with rfl | hpos
  · have hfresh := h.fresh rfl
    split at hfresh
    · rename_i hnone
      have hshared : shared = 0 := by
        have hleft := hmeet.sharing.left
        rw [hnone] at hleft
        exact Nat.le_zero.1 hleft
      obtain ⟨count, hcount, hfits, hend, hreply⟩ :=
        replyTo_eq hmeet.otherEnd hsome (if_pos (.inl hfresh)) (Nat.zero_le _)
      refine ⟨_, count, hcount, hfits, hend, hreply, ?_, fun hlt => absurd hlt (Nat.lt_irrefl 0),
        fun _ => .inr ⟨rfl, hshared⟩⟩
      refine isValidReply_stretch hbs hfits ?_
      rw [if_pos hfresh]
      rfl
    · rename_i hown
      have hrooted := hmeet.rooted hown
      have hundoable := hmeet.undoable
      have hright := hmeet.sharing.right
      obtain ⟨last, hlast, hfind, hon, hlow, hshared, -⟩ :=
        hfresh.found hmeet.askerEnd.linked hbs hmeet.sharing (by omega) (by omega)
      have hsynopsis : ¬ (synopsis = [] ∨ synopsis = [⟨0, 0⟩]) := by
        rintro (rfl | rfl)
        · exact absurd hlast List.not_mem_nil
        · rw [List.mem_singleton.1 hlast] at hlow
          have hzero : max 1 asker.irreversible ≤ 0 := hlow
          omega
      obtain ⟨count, hcount, hfits, hend, hreply⟩ := replyTo_eq hmeet.otherEnd hsome
        ((if_neg hsynopsis).trans hfind) (by omega)
      have hbase : max last.num 1 - 1 + 1 = last.num := by omega
      refine ⟨_, count, hcount, hfits, hend, hreply, ?_, fun hlt => absurd hlt (Nat.lt_irrefl 0),
        fun _ => .inl (by omega)⟩
      refine isValidReply_stretch hbs hfits ?_
      rw [if_neg (fun hnil => hsynopsis (.inl hnil)), hbase, hon]
      exact hlast
  · have hlast := h.further hpos
    have hnum := num_idAt env hbs hreached
    have hsynopsis : ¬ (synopsis = [] ∨ synopsis = [⟨0, 0⟩]) := by
      rintro (rfl | rfl)
      · cases hlast
      · have hzero := congrArg BlockId.num (Option.some.inj hlast)
        rw [hnum] at hzero
        exact absurd hzero (Nat.ne_of_lt hpos)
    have hfind : synopsis.reverse.find? (fun id => decide (Store.idAt env bs id.num = id)) =
        some (Store.idAt env bs reached) := by
      rw [List.getLast?_eq_head?_reverse] at hlast
      cases hreverse : synopsis.reverse with
      | nil =>
        rw [hreverse] at hlast
        cases hlast
      | cons id rest =>
        rw [hreverse] at hlast
        rw [Option.some.inj hlast, List.find?_cons]
        rw [decide_eq_true (by rw [hnum])]
    obtain ⟨count, hcount, hfits, hend, hreply⟩ := replyTo_eq hmeet.otherEnd hsome
      ((if_neg hsynopsis).trans hfind) (by omega)
    have hbase : max (Store.idAt env bs reached).num 1 - 1 + 1 = reached := by omega
    refine ⟨_, count, hcount, hfits, hend, hreply, ?_, fun _ => hbase, by omega⟩
    refine isValidReply_stretch hbs hfits ?_
    rw [if_neg (fun hnil => hsynopsis (.inl hnil)), hbase]
    exact List.mem_of_getLast? hlast

/-! ## What is taken of a reply -/

/-- What the asker knows of the peer's chain: the blocks in common. -/
theorem Meeting.hasItem (hmeet : Meeting env asker other now a bs shared) (num : Nat)
    (hpos : 0 < num) (hle : num ≤ bs.length) :
    (syncAnswers env asker now).hasItem (Store.idAt env bs num) = decide (num ≤ shared) := by
  by_cases hshared : num ≤ shared
  · rw [decide_eq_true hshared, hmeet.same hshared]
    obtain ⟨b, hb, hid, -⟩ := Store.Readable.idAt_of_le env hpos
      (hshared.trans hmeet.sharing.left) hmeet.askerEnd.linked
    rw [hid]
    exact hmeet.askerEnd.isKnownBlock_of_mem hb
  · rw [decide_eq_false hshared]
    obtain ⟨b, hb, hid, hnum⟩ := Store.Readable.idAt_of_le env hpos hle
      hmeet.otherEnd.linked
    rw [hid]
    exact hmeet.unseen b hb (by omega)

theorem Meeting.blockTime (hmeet : Meeting env asker other now a bs shared) {num : Nat}
    (hpos : 0 < num) (hle : num ≤ shared) :
    (syncAnswers env asker now).blockTime (Store.idAt env bs num) = timeAt a num := by
  obtain ⟨b, hb, hid, rfl⟩ := Store.Readable.idAt_of_le env hpos
    (hle.trans hmeet.sharing.left) hmeet.askerEnd.linked
  rw [hmeet.same hle, hid]
  show ((asker.fetchBlockById env (Db.blockId env b)).map (·.timestamp)).getD 0 = _
  unfold timeAt
  rw [hmeet.askerEnd.fetchBlockById_of_mem hb, if_neg (Nat.ne_of_gt hpos),
    (ForkDb.get_of_mem hmeet.askerEnd.linked hb).2.2]

namespace SyncPeer

variable {answers : SyncAnswers} {l l' : List BlockId}

/-- The ids that the delegate has are dropped, and the last of them is noted. -/
theorem flushSeen_known (hknown : ∀ id ∈ l, answers.hasItem id = true) (p : SyncPeer) :
    flushSeen answers (l ++ l') p = flushSeen answers l'
      ((l.getLast?.map fun id => p.noteSeen id (answers.blockTime id)).getD p) := by
  induction l generalizing p with
  | nil => rfl
  | cons id l ih =>
    rw [List.cons_append, flushSeen, if_pos (hknown id List.mem_cons_self),
      ih (fun x hx => hknown x (List.mem_cons_of_mem id hx)), List.getLast?_cons]
    cases l.getLast? with
    | none => rfl
    | some last => rfl

theorem flushSeen_unknown (hunknown : ∀ id ∈ l.head?, answers.hasItem id = false) (p : SyncPeer) :
    flushSeen answers l p = (p, l) := by
  cases l with
  | nil => rfl
  | cons id l =>
    rw [flushSeen, if_neg (by rw [hunknown id rfl]; exact Bool.false_ne_true)]

theorem meet_fresh (hnone : p.idsOfItemsToGet = []) (hfronts : answers.otherFronts = [])
    (l : List BlockId) : p.meet answers l = flushSeen answers l p := by
  cases l with
  | nil => rfl
  | cons id l =>
    unfold meet
    dsimp only
    rw [if_pos hnone, hfronts, if_neg List.not_mem_nil]

/-- A reply that starts with the last id of the list goes on where the list ends. -/
theorem meet_last {first : BlockId} (hlast : p.idsOfItemsToGet = l ++ [first]) (l' : List BlockId) :
    p.meet answers (first :: l') = ({ p with idsOfItemsToGet := l }, first :: l') := by
  have hsome : l ++ [first] ≠ [] := List.append_ne_nil_of_right_ne_nil l (List.cons_ne_nil _ _)
  have hkept : (l ++ [first]).rdropWhile (fun id => decide (id ≠ first)) = l ++ [first] := by
    rw [List.rdropWhile_eq_self_iff]
    intro hne
    rw [List.getLast_append_singleton]
    exact fun hfirst => of_decide_eq_true hfirst rfl
  unfold meet splice
  dsimp only
  rw [hlast, if_neg hsome, hkept, if_neg hsome, List.dropLast_concat]

end SyncPeer

/-- What is left of a stretch when the blocks in common are dropped. -/
theorem Meeting.flushSeen (hmeet : Meeting env asker other now a bs shared)
    (hfits : base + count ≤ bs.length) (hbase : base ≤ shared) (p : SyncPeer) :
    SyncPeer.flushSeen (syncAnswers env asker now) (stretch env bs base count) p =
      (if min shared (base + count) = base then p
        else p.noteSeen (Store.idAt env a (min shared (base + count)))
          (timeAt a (min shared (base + count))),
        stretch env bs (min shared (base + count)) (base + count - min shared (base + count))) := by
  have hright := hmeet.sharing.right
  generalize hreached : min shared (base + count) = reached
  obtain ⟨known, rfl⟩ : ∃ known, reached = base + known := ⟨reached - base, by omega⟩
  have hsplit : stretch env bs base count =
      stretch env bs base known ++ stretch env bs (base + known) (base + count - (base + known)) := by
    rw [← stretch_add]
    congr 1
    omega
  have hknown : ∀ id ∈ stretch env bs base known,
      (syncAnswers env asker now).hasItem id = true := by
    intro id hid
    obtain ⟨i, hi⟩ := List.mem_iff_getElem?.1 hid
    have hlength : (stretch env bs base known).length = known := stretch_length (by omega)
    have hlt : i < known := by
      rw [← hlength]
      exact (List.getElem?_eq_some_iff.1 hi).1
    rw [stretch_get hlt (by omega)] at hi
    rw [← Option.some.inj hi, hmeet.hasItem _ (Nat.succ_pos _) (by omega)]
    exact decide_eq_true (by omega)
  have hunknown : ∀ id ∈ (stretch env bs (base + known) (base + count - (base + known))).head?,
      (syncAnswers env asker now).hasItem id = false := by
    intro id hid
    rcases Nat.eq_zero_or_pos (base + count - (base + known)) with hzero | hpos
    · rw [hzero] at hid
      exact absurd hid (by unfold stretch; simp)
    · rw [stretch_cons env hpos (by omega)] at hid
      rw [← Option.some.inj hid, hmeet.hasItem _ (Nat.succ_pos _) (by omega)]
      exact decide_eq_false (by omega)
  rw [hsplit, SyncPeer.flushSeen_known hknown, SyncPeer.flushSeen_unknown hunknown]
  rcases Nat.eq_zero_or_pos known with rfl | hpos
  · rw [if_pos (Nat.add_zero base)]
    rfl
  · rw [if_neg (by omega), stretch_last hpos (by omega)]
    show (p.noteSeen _ _, _) = _
    rw [hmeet.blockTime (by omega) (by omega), hmeet.same (by omega)]

/-- The request is answered. -/
def SyncPeer.answered (remaining : Nat) (p : SyncPeer) : SyncPeer :=
  { p with itemIdsRequestedFromPeer := none, numberOfUnfetchedItemIds := remaining }

/-- **What is taken**: the list goes on above the blocks in common. -/
theorem Listing.received (h : Listing env a bs shared seen count p)
    (hmeet : Meeting env asker other now a bs shared) {base more : Nat} (hpos : 0 < more)
    (hfits : base + more ≤ bs.length) (hfurther : 0 < seen + count → base + 1 = seen + count)
    (hfresh : seen + count = 0 → base + 1 ≤ shared ∨ base = 0 ∧ shared = 0) :
    Listing env a bs shared (min shared (base + more)) (base + more - min shared (base + more))
      ((p.answered (bs.length - (base + more))).takeIds (syncAnswers env asker now)
        (stretch env bs base more)) := by
  have hcons := stretch_cons env hpos hfits
  have hseen := h.seen_le
  have hwhole := h.fits
  rcases Nat.eq_zero_or_pos count with rfl | hcount
  · have hnone : (p.answered (bs.length - (base + more))).idsOfItemsToGet = [] := h.ids
    have hfronts : (syncAnswers env asker now).otherFronts = [] := rfl
    have hbase : base ≤ shared := by omega
    unfold SyncPeer.takeIds
    rw [SyncPeer.meet_fresh hnone hfronts, hmeet.flushSeen hfits hbase]
    generalize hreached : min shared (base + more) = reached
    have hend : reached + (base + more - reached) = base + more := by omega
    have hrest : base + more - reached > 0 → reached = shared := by omega
    have hfetched : bs.length - (base + more) =
        if reached + (base + more - reached) = 0 then 0
        else bs.length - (reached + (base + more - reached)) := by
      rw [hend, if_neg (by omega)]
    by_cases hsame : reached = base
    · rw [if_pos hsame]
      -- nothing of the reply is in common, so that nothing ever was
      obtain rfl : reached = seen := by omega
      refine ⟨?_, by omega, by omega, hrest, h.lastSeen, h.lastTime, hfetched, h.connected⟩
      show (p.answered (bs.length - (base + more))).idsOfItemsToGet ++ _ = _
      rw [hnone]
      rfl
    · rw [if_neg hsame]
      refine ⟨?_, by omega, by omega, hrest, rfl, rfl, hfetched, h.connected⟩
      show (p.answered (bs.length - (base + more))).idsOfItemsToGet ++ _ = _
      rw [hnone]
      rfl
  · -- the reply starts with the last id of the list
    obtain rfl := h.above hcount
    obtain ⟨before, rfl⟩ : ∃ before, count = before + 1 := ⟨count - 1, by omega⟩
    have hbase : base = seen + before := by omega
    have hids : (p.answered (bs.length - (base + more))).idsOfItemsToGet =
        stretch env bs seen before ++ [Store.idAt env bs (base + 1)] := by
      show p.idsOfItemsToGet = _
      rw [h.ids, stretch_snoc (by omega), hbase]
    have hreached : min seen (base + more) = seen := by omega
    unfold SyncPeer.takeIds
    rw [hcons, SyncPeer.meet_last hids, ← hcons, hreached]
    have hend : seen + (base + more - seen) = base + more := by omega
    refine ⟨?_, by omega, le_rfl, fun _ => rfl, h.lastSeen, h.lastTime, ?_, h.connected⟩
    · show stretch env bs seen before ++ stretch env bs base more = _
      rw [hbase, ← stretch_add]
      congr 1
      omega
    · show bs.length - (base + more) = _
      rw [hend, if_neg (by omega)]

/-! ## Exchanges -/

theorem Listing.inTime (h : Listing env a bs shared seen count p)
    (hmeet : Meeting env asker other now a bs shared) :
    ¬ p.Implausible (syncAnswers env asker now) := by
  have htime := hmeet.inTime seen h.seen_le
  have hrest : p.numberOfUnfetchedItemIds ≤ bs.length - seen := by
    rw [h.unfetched]
    split
    · exact Nat.zero_le _
    · omega
  have hle : p.lastBlockTimeDelegateHasSeen + p.numberOfUnfetchedItemIds * blockInterval ≤
      now + futureSyncBlocksGracePeriodSec := by
    rw [h.lastTime]
    exact (Nat.add_le_add_left (Nat.mul_le_mul_right _ hrest) _).trans htime
  unfold SyncPeer.Implausible
  show ¬ (now + futureSyncBlocksGracePeriodSec) % 2 ^ 32 < _
  rw [Nat.mod_eq_of_lt hmeet.clock, Nat.mod_eq_of_lt (hle.trans_lt hmeet.clock)]
  exact Nat.not_lt_of_le hle

/-- The asker has all blocks of the peer. -/
structure InSync (bs : List SignedBlock) (shared : Nat) (p : SyncPeer) : Prop where
  all : shared = bs.length
  ids : p.idsOfItemsToGet = []
  done : p.weNeedSyncItemsFromPeer = false
  connected : p.disconnected = false

theorem Listing.ids_eq_nil (h : Listing env a bs shared seen count p) :
    p.idsOfItemsToGet = [] ↔ count = 0 := by
  rw [h.ids, ← List.length_eq_zero_iff, stretch_length h.fits]

theorem Listing.followUp (h : Listing env a bs shared seen count p) (m : IdsInventory) :
    p.followUp m =
      if m.totalRemainingItemCount ≠ 0 then
        if minBlockIdsToPrefetch < count then .fetchSyncItems else .fetchNextBatch
      else if count ≠ 0 then .fetchSyncItems else .fetchNextBatch := by
  have hlength : p.idsOfItemsToGet.length = count := by
    rw [h.ids]
    exact stretch_length h.fits
  unfold SyncPeer.followUp
  rw [hlength]
  by_cases hnone : count = 0
  · rw [if_neg (not_not.2 (h.ids_eq_nil.2 hnone)), if_neg (not_not.2 hnone)]
  · rw [if_pos (fun hids => hnone (h.ids_eq_nil.1 hids)), if_pos hnone]

/-- A valid reply. -/
theorem SyncPeer.onReply {synopsis : List BlockId} {m : IdsInventory}
    (hvalid : isValidReply synopsis m.itemHashesAvailable = true) (answers : SyncAnswers)
    (p : SyncPeer) :
    (p.asking synopsis).onBlockchainItemIdsInventoryMessage answers m =
      if p.UpToDate answers m then
        ({ p with itemIdsRequestedFromPeer := none, weNeedSyncItemsFromPeer := false }, .nothing)
      else
        let q := (p.answered m.totalRemainingItemCount).takeIds answers m.itemHashesAvailable
        if q.Implausible answers then ({ q with disconnected := true }, .nothing)
        else (q, q.followUp m) := by
  unfold onBlockchainItemIdsInventoryMessage
  show (if isValidReply synopsis m.itemHashesAvailable = true then _ else _) = _
  rw [if_pos hvalid]
  rfl

/-- **An exchange**: the asker turns out to be in sync, or its list reaches further. -/
theorem Listing.exchange (h : Listing env a bs shared seen count p)
    (hmeet : Meeting env asker other now a bs shared) (hfuel : bs.length ≤ fuel) :
    (InSync bs shared (exchange env asker other now fuel p).1 ∧
      (exchange env asker other now fuel p).2 = .nothing) ∨
    ¬ (count = 0 ∧ seen = bs.length) ∧ ∃ seen' count',
      Listing env a bs shared seen' count' (exchange env asker other now fuel p).1 ∧
      ((exchange env asker other now fuel p).2 = .fetchSyncItems ∧ 0 < count' ∧
          (seen' + count' = bs.length ∨ minBlockIdsToPrefetch < count') ∨
        (exchange env asker other now fuel p).2 = .fetchNextBatch ∧
          (seen + count < seen' + count' ∧ seen' + count' < bs.length ∨
            count' = 0 ∧ seen' = bs.length)) := by
  obtain ⟨synopsis, hrequest, hasks⟩ := h.request hmeet hfuel
  have hexchange : VizCore.Network.exchange env asker other now fuel p =
      match replyTo env other synopsis with
      | .ok m => (p.asking synopsis).onBlockchainItemIdsInventoryMessage (syncAnswers env asker now) m
      | .error _ => (p.asking synopsis, .nothing) := by
    unfold VizCore.Network.exchange
    rw [hrequest]
    rfl
  have hinsync : ∀ m, replyTo env other synopsis = .ok m →
      isValidReply synopsis m.itemHashesAvailable = true →
      p.UpToDate (syncAnswers env asker now) m → shared = bs.length →
      InSync bs shared (VizCore.Network.exchange env asker other now fuel p).1 ∧
        (VizCore.Network.exchange env asker other now fuel p).2 = .nothing := by
    intro m hreply hvalid hup hall
    rw [hexchange, hreply]
    dsimp only
    rw [SyncPeer.onReply hvalid, if_pos hup]
    exact ⟨⟨hall, hup.2.2.1, rfl, h.connected⟩, rfl⟩
  have hright := hmeet.sharing.right
  have hwhole := h.fits
  by_cases hsome : bs = []
  · -- the peer has no blocks
    have hreply : replyTo env other synopsis = .ok ⟨0, []⟩ := by
      unfold replyTo
      rw [hmeet.otherEnd.getBlockIds_eq]
      unfold answer
      rw [if_pos hsome]
    have hzero : bs.length = 0 := List.length_eq_zero_iff.2 hsome
    refine .inl (hinsync _ hreply rfl ⟨rfl, .inl rfl, h.ids_eq_nil.2 (by omega), ?_⟩ (by omega))
    rw [h.unfetched, if_pos (by omega)]
  obtain ⟨base, more, hpos, hfits, hend, hreply, hvalid, hfurther, hfresh⟩ :=
    hasks.reply hmeet hsome hwhole
  have hcons := stretch_cons env hpos hfits
  have hlength : (stretch env bs base more).length = more := stretch_length hfits
  have hbs := List.length_pos_iff.2 hsome
  have hknown := hmeet.hasItem (base + 1) (Nat.succ_pos _) (by omega)
  by_cases hup : p.UpToDate (syncAnswers env asker now)
    ⟨bs.length - (base + more), stretch env bs base more⟩
  · refine .inl (hinsync _ hreply hvalid hup ?_)
    obtain ⟨hnone, hids, -, -⟩ := hup
    rcases hids with hids | ⟨id, hid, hone, hhas⟩
    · change stretch env bs base more = [] at hids
      rw [hcons] at hids
      cases hids
    · change (stretch env bs base more).length = 1 at hone
      change bs.length - (base + more) = 0 at hnone
      change id ∈ (stretch env bs base more).head? at hid
      rw [hcons] at hid
      rw [← Option.some.inj hid, hknown] at hhas
      have hle := of_decide_eq_true hhas
      omega
  right
  have hlisting := h.received hmeet hpos hfits hfurther hfresh
  have hresult : VizCore.Network.exchange env asker other now fuel p =
      ((p.answered (bs.length - (base + more))).takeIds (syncAnswers env asker now)
        (stretch env bs base more), ((p.answered (bs.length - (base + more))).takeIds
          (syncAnswers env asker now) (stretch env bs base more)).followUp
            ⟨bs.length - (base + more), stretch env bs base more⟩) := by
    rw [hexchange, hreply]
    dsimp only
    rw [SyncPeer.onReply hvalid, if_neg hup]
    dsimp only
    rw [if_neg (hlisting.inTime hmeet)]
  constructor
  · rintro ⟨rfl, rfl⟩
    refine hup ⟨?_, .inr ⟨Store.idAt env bs (base + 1), ?_, ?_, ?_⟩, h.ids_eq_nil.2 rfl, ?_⟩
    · show bs.length - (base + more) = 0
      omega
    · show _ ∈ (stretch env bs base more).head?
      rw [hcons]
      rfl
    · show (stretch env bs base more).length = 1
      omega
    · rw [hknown]
      have hseen := h.seen_le
      exact decide_eq_true (by omega)
    · rw [h.unfetched]
      split
      · rfl
      · omega
  rw [hresult]
  refine ⟨_, _, hlisting, ?_⟩
  rw [hlisting.followUp]
  have hlimit : getBlockIdsLimit = 2000 := rfl
  generalize hcommon : min shared (base + more) = common
  by_cases hall : base + more = bs.length
  · rw [if_neg (by show ¬ bs.length - (base + more) ≠ 0; omega)]
    by_cases hnew : base + more - common = 0
    · rw [if_neg (not_not.2 hnew)]
      exact .inr ⟨rfl, .inr ⟨hnew, by omega⟩⟩
    · rw [if_pos hnew]
      exact .inl ⟨rfl, Nat.pos_of_ne_zero hnew, .inl (by omega)⟩
  · rw [if_pos (by show bs.length - (base + more) ≠ 0; omega)]
    by_cases henough : minBlockIdsToPrefetch < base + more - common
    · rw [if_pos henough]
      exact .inl ⟨rfl, (Nat.zero_le _).trans_lt henough, .inr henough⟩
    · rw [if_neg henough]
      exact .inr ⟨rfl, .inl ⟨by omega, by omega⟩⟩

/-- How exchanges end: with an asker in sync, or with a list of what is above the common blocks that
is complete or long enough. -/
def Done (env : Env) (bs : List SignedBlock) (shared : Nat) (r : SyncPeer × FollowUp) : Prop :=
  InSync bs shared r.1 ∧ r.2 = .nothing ∨
  r.2 = .fetchSyncItems ∧ r.1.disconnected = false ∧ ∃ count, 0 < count ∧
    shared + count ≤ bs.length ∧ r.1.idsOfItemsToGet = stretch env bs shared count ∧
    r.1.lastBlockDelegateHasSeen = Store.idAt env bs shared ∧
    r.1.numberOfUnfetchedItemIds = bs.length - (shared + count) ∧
    (shared + count = bs.length ∨ minBlockIdsToPrefetch < count)

theorem Listing.enough (h : Listing env a bs shared seen count p)
    (hmeet : Meeting env asker other now a bs shared) (hpos : 0 < count)
    (henough : seen + count = bs.length ∨ minBlockIdsToPrefetch < count) :
    Done env bs shared (p, .fetchSyncItems) := by
  obtain rfl := h.above hpos
  refine .inr ⟨rfl, h.connected, count, hpos, h.fits, h.ids, ?_, ?_, henough⟩
  · rw [hmeet.same le_rfl]
    exact h.lastSeen
  · have hfetched := h.unfetched
    rw [if_neg (by omega)] at hfetched
    exact hfetched

/-- **Exchanges** come to an end, by induction on what the list lacks. -/
theorem Listing.exchanges (h : Listing env a bs shared seen count p)
    (hmeet : Meeting env asker other now a bs shared) (hfuel : bs.length ≤ fuel)
    (hopen : seen + count < bs.length ∨ count = 0) {k : Nat}
    (hk : bs.length + 2 ≤ k + (seen + count)) :
    Done env bs shared (VizCore.Network.exchanges env asker other now fuel k p) := by
  induction k generalizing seen count p with
  | zero =>
    have hfits := h.fits
    omega
  | succ k ih =>
    have hfits := h.fits
    have hstep := h.exchange hmeet hfuel
    unfold VizCore.Network.exchanges
    generalize VizCore.Network.exchange env asker other now fuel p = r at hstep ⊢
    obtain ⟨q, next⟩ := r
    dsimp only at hstep ⊢
    rcases hstep with ⟨hsync, rfl⟩ | ⟨hopened, seen', count', hq, hnext⟩
    · exact .inl ⟨hsync, rfl⟩
    · rcases hnext with ⟨rfl, hpos, henough⟩ | ⟨rfl, hfurther⟩
      · exact hq.enough hmeet hpos henough
      · rw [if_pos rfl]
        exact ih hq (by omega) (by omega)

/-- A peer that nothing is known of. -/
theorem listing_fresh (env : Env) (a bs : List SignedBlock) (shared : Nat) :
    Listing env a bs shared 0 0 {} where
  ids := rfl
  fits := Nat.zero_le _
  seen_le := Nat.zero_le _
  above hpos := absurd hpos (Nat.lt_irrefl 0)
  lastSeen := rfl
  lastTime := rfl
  unfetched := rfl
  connected := rfl

/-- The chain that leads to the head of a store, and that its blocks are looked up on. -/
structure HeadChain (env : Env) (s : Store) (bs : List SignedBlock) : Prop where
  linked : (links env).Linked bs
  mark : s.db.headMark = (bs.length, (links env).tip bs)
  ids : ∀ num, s.findBlockIdForNum env num = Store.idAt env bs num

/-- **The first answer**, whatever has happened to the two nodes. -/
theorem first_answer (env : Env) (fuel : Nat) {a₀ b₀ : List SignedBlock} {n m : Chain.Node}
    (hn : Chain.Node.Rested env a₀ n) (hm : Chain.Node.Rested env b₀ m) {acts acts' : List Chain.Act}
    (hacts : Guarded (Chain.Act.run env fuel) (Chain.Act.Smooth env fuel) n acts)
    (hacts' : Guarded (Chain.Act.run env fuel) (Chain.Act.Smooth env fuel) m acts') :
    ∃ a bs, HeadChain env (run (Chain.Act.run env fuel) n acts).toStore a ∧
      HeadChain env (run (Chain.Act.run env fuel) m acts').toStore bs ∧
      ∀ shared, Sharing env a bs shared → 0 < shared → a.length + 1 < 2 ^ 32 →
        (run (Chain.Act.run env fuel) n acts).irreversible ≤ shared →
        ∃ first synopsis, Opening env (run (Chain.Act.run env fuel) n acts).toStore
          (run (Chain.Act.run env fuel) m acts').toStore a bs shared first synopsis := by
  obtain ⟨-, ⟨a, base, hend⟩, -⟩ := Chain.Act.run_between ⟨a₀, n.toStore, hn.seated⟩ hacts
    (List.prefix_refl acts) (List.prefix_refl acts)
  obtain ⟨-, ⟨bs, base', hend'⟩, -⟩ := Chain.Act.run_between ⟨b₀, m.toStore, hm.seated⟩ hacts'
    (List.prefix_refl acts') (List.prefix_refl acts')
  have hreadable := hend.readable
  have hreadable' := hend'.readable
  refine ⟨a, bs, ⟨hreadable.linked, hreadable.stands.mark, hreadable.findBlockIdForNum_eq⟩,
    ⟨hreadable'.linked, hreadable'.stands.mark, hreadable'.findBlockIdForNum_eq⟩, ?_⟩
  intro shared hsharing hpos hroom hundoable
  exact hsharing.opening hreadable hreadable' hundoable hpos hroom

/-- A node with two blocks, and one that has left the second of them for a branch of two. -/
def pairAsker : Chain.Node := run (Chain.Act.run smallEnv 3) pairNode (pairRun.take 2)

def pairOther : Chain.Node := run (Chain.Act.run smallEnv 3) pairNode (pairRun.take 4)

theorem pairRun_take_guarded (k : Nat) :
    Guarded (Chain.Act.run smallEnv 3) (Chain.Act.Smooth smallEnv 3) pairNode (pairRun.take k) := by
  have hall := pairRun_guarded
  rw [← List.take_append_drop k pairRun] at hall
  exact (guarded_append.1 hall).1

theorem pairRun_sharing (ha : HeadChain smallEnv pairAsker.toStore a)
    (hb : HeadChain smallEnv pairOther.toStore bs) :
    a.length = 2 ∧ bs.length = 3 ∧ Sharing smallEnv a bs 1 := by
  have hleft : a.length = 2 := by
    have hnum : pairAsker.db.headMark.1 = 2 := by decide +kernel
    exact (congrArg Prod.fst ha.mark).symm.trans hnum
  have hright : bs.length = 3 := by
    have hnum : pairOther.db.headMark.1 = 3 := by decide +kernel
    exact (congrArg Prod.fst hb.mark).symm.trans hnum
  refine ⟨hleft, hright, .of_ids ha.linked hb.linked (by omega) (by omega) ?_ ?_⟩
  · intro k hpos hle
    obtain rfl : k = 1 := by omega
    rw [← ha.ids, ← hb.ids]
    decide +kernel
  · intro k hlt hle hle'
    obtain rfl : k = 2 := by omega
    rw [← ha.ids, ← hb.ids]
    decide +kernel

theorem first_answer_pairRun :
    ∃ a bs, HeadChain smallEnv pairAsker.toStore a ∧ HeadChain smallEnv pairOther.toStore bs ∧
      Sharing smallEnv a bs 1 ∧ ∃ first synopsis,
        Opening smallEnv pairAsker.toStore pairOther.toStore a bs 1 first synopsis := by
  obtain ⟨a, bs, ha, hb, hanswer⟩ := first_answer smallEnv 3 (pairNode_rested smallEnv)
    (pairNode_rested smallEnv) (pairRun_take_guarded 2) (pairRun_take_guarded 4)
  obtain ⟨hleft, -, hsharing⟩ := pairRun_sharing ha hb
  exact ⟨a, bs, ha, hb, hsharing, hanswer 1 hsharing Nat.one_pos (by omega) (by decide +kernel)⟩

/-- **Exchanging ids.**  Whatever has happened to two nodes, when one asks the other for ids then no
reply is refused, and the exchanges come to an end: the asker is in sync, or it has a list of the
other's blocks from the first one that it lacks on, all of them or enough to fetch them. -/
theorem exchanges_end (env : Env) (fuel : Nat) {a₀ b₀ : List SignedBlock} {n m : Chain.Node}
    (hn : Chain.Node.Rested env a₀ n) (hm : Chain.Node.Rested env b₀ m) {acts acts' : List Chain.Act}
    (hacts : Guarded (Chain.Act.run env fuel) (Chain.Act.Smooth env fuel) n acts)
    (hacts' : Guarded (Chain.Act.run env fuel) (Chain.Act.Smooth env fuel) m acts') :
    ∃ a bs, HeadChain env (run (Chain.Act.run env fuel) n acts).toStore a ∧
      HeadChain env (run (Chain.Act.run env fuel) m acts').toStore bs ∧
      ∀ now shared, Compatible env (run (Chain.Act.run env fuel) n acts).toStore now a bs shared →
        ∀ steps k, bs.length ≤ steps → bs.length + 2 ≤ k →
          Done env bs shared (exchanges env (run (Chain.Act.run env fuel) n acts).toStore
            (run (Chain.Act.run env fuel) m acts').toStore now steps k {}) := by
  obtain ⟨-, ⟨a, base, hend⟩, -⟩ := Chain.Act.run_between ⟨a₀, n.toStore, hn.seated⟩ hacts
    (List.prefix_refl acts) (List.prefix_refl acts)
  obtain ⟨-, ⟨bs, base', hend'⟩, -⟩ := Chain.Act.run_between ⟨b₀, m.toStore, hm.seated⟩ hacts'
    (List.prefix_refl acts') (List.prefix_refl acts')
  have hreadable := hend.readable
  have hreadable' := hend'.readable
  refine ⟨a, bs, ⟨hreadable.linked, hreadable.stands.mark, hreadable.findBlockIdForNum_eq⟩,
    ⟨hreadable'.linked, hreadable'.stands.mark, hreadable'.findBlockIdForNum_eq⟩, ?_⟩
  intro now shared hcompatible steps k hsteps hk
  exact (listing_fresh env a bs shared).exchanges ⟨hcompatible, hreadable, hreadable'⟩ hsteps
    (.inr rfl) hk

/-- In the example the hash of an id is the time of the block. -/
theorem timeAt_smallEnv (bs : List SignedBlock) (num : Nat) :
    timeAt bs num = (Store.idAt smallEnv bs num).hash := by
  unfold timeAt Store.idAt
  split
  · rfl
  · cases bs[num - 1]? with
    | none => rfl
    | some b => rfl

theorem pairRun_compatible (ha : HeadChain smallEnv pairAsker.toStore a)
    (hb : HeadChain smallEnv pairOther.toStore bs) :
    Compatible smallEnv pairAsker.toStore 100 a bs 1 := by
  obtain ⟨hleft, hright, hsharing⟩ := pairRun_sharing ha hb
  refine ⟨hsharing, by decide +kernel, fun _ => Nat.one_pos, by omega, ?_, ?_, by decide⟩
  · intro b hmem hlt
    have hle := (ForkDb.get_of_mem hb.linked hmem).2.1
    rw [← idAt_blockNum hb.linked hmem, ← hb.ids]
    generalize b.blockNum = k at *
    obtain rfl | rfl : k = 2 ∨ k = 3 := by omega
    · decide +kernel
    · decide +kernel
  · intro k hle
    rw [timeAt_smallEnv, ← ha.ids, hright]
    obtain rfl | rfl : k = 0 ∨ k = 1 := by omega
    · decide +kernel
    · decide +kernel

theorem exchanges_end_pairRun :
    ∃ a bs, HeadChain smallEnv pairAsker.toStore a ∧ HeadChain smallEnv pairOther.toStore bs ∧
      Compatible smallEnv pairAsker.toStore 100 a bs 1 ∧
      Done smallEnv bs 1 (exchanges smallEnv pairAsker.toStore pairOther.toStore 100 3 5 {}) := by
  obtain ⟨a, bs, ha, hb, hend⟩ := exchanges_end smallEnv 3 (pairNode_rested smallEnv)
    (pairNode_rested smallEnv) (pairRun_take_guarded 2) (pairRun_take_guarded 4)
  have hcompatible := pairRun_compatible ha hb
  obtain ⟨-, hright, -⟩ := pairRun_sharing ha hb
  exact ⟨a, bs, ha, hb, hcompatible, hend 100 1 hcompatible 3 5 hright.le (by omega)⟩

/-- The asker lists the branch that it lacks. -/
example : (exchanges smallEnv pairAsker.toStore pairOther.toStore 100 3 5 {}).1.idsOfItemsToGet =
    [⟨2, 36⟩, ⟨3, 39⟩] := by
  decide +kernel

end VizCore.Network
