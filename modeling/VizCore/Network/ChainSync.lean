import VizCore.Chain.Lasting
import VizCore.Lib.Ladder

/-!
# Synchronising two nodes

A node that asks lists a few block ids of its branch, closer together towards the end.  The node that
answers looks for the last of them on its own chain and lists the ids from there on.

* `getBlockIds_eq`: the answer is `answer`, which speaks of the node's chain only;
* `synopsis_eq`: a question lists the rungs of a ladder on one branch;
* `talks_right`: both, after any run of a node.
-/

namespace VizCore.Network

open VizCore.Lib VizCore.Protocol VizCore.Chain

/-- How a question to the chain fails. -/
inductive SyncFailure
  | chain (e : Exception)
  | unreachableFork
  | olderThanUndoHistory
  deriving DecidableEq

abbrev SyncResult (α : Type) := Except SyncFailure α

/-- An exception of the chain goes on as it is. -/
def ask {α : Type} (r : Result α) : SyncResult α :=
  match r with
  | .ok a => .ok a
  | .error e => .error (.chain e)

variable (env : Env) (s : Store)

/-- `is_known_block` -/
def isKnownBlock (id : BlockId) : Bool := (s.fetchBlockById env id).isSome

/-- `is_included_block` -/
def isIncludedBlock (id : BlockId) : SyncResult Bool := do
  let preferred ← ask (s.getBlockIdForNum env id.num)
  return decide (id = preferred)

/-! ## Answers -/

/-- The last block of the synopsis, given in reverse, that is on the chain. -/
def lastKnownBlock : List BlockId → SyncResult BlockId
  | [] => .error .unreachableFork
  | id :: rest =>
    if id = ⟨0, 0⟩ then .ok id
    else if isKnownBlock env s id then do
      let included ← isIncludedBlock env s id
      if included then return id else lastKnownBlock rest
    else lastKnownBlock rest

/-- An empty synopsis asks for the whole chain. -/
def lastKnownBlockId (synopsis : List BlockId) : SyncResult BlockId :=
  if synopsis = [] ∨ synopsis = [⟨0, 0⟩] then .ok ⟨0, 0⟩ else lastKnownBlock env s synopsis.reverse

/-- The count of the ids that remain after those of an answer. -/
def remainingItemCount (head : Nat) (result : List BlockId) : Nat :=
  match result.getLast? with
  | some back => if back.num < head then head - back.num else 0
  | none => 0

/-- `get_block_ids`, with the count of the ids that remain -/
def getBlockIds (synopsis : List BlockId) (limit : Nat) : SyncResult (List BlockId × Nat) :=
  let head := s.db.dgp.headBlockNumber
  if head = 0 then .ok ([], 0)
  else do
    let last ← lastKnownBlockId env s synopsis
    let first := max last.num 1
    let result ← ((List.range' first (head + 1 - first)).take limit).mapM fun num =>
      ask (s.getBlockIdForNum env num)
    return (result, remainingItemCount head result)

/-! ## Questions -/

/-- `get_block_ids_on_fork`: the ids of the fork down to its common ancestor with the chain. -/
def getBlockIdsOnFork (headOfFork : BlockId) : Result (List BlockId) := do
  let (first, second) ← s.forkDb.fetchBranchFrom s.db.dgp.headBlockId headOfFork
  let last ← getOrThrow first.getLast? (.assertion "branches.first.back()")
  return second.map (·.id) ++ [last.data.previous]

/-- The numbers that a synopsis lists, from `low` up to `high`, in 32 bits. -/
def synopsisNumbers (trueHigh high : Nat) : Nat → Nat → SyncResult (List Nat)
  | 0, _ => .error (.chain .outOfFuel)
  | fuel + 1, low =>
    let next := (low + (trueHigh + 2 ^ 32 - low + 2) % 2 ^ 32 / 2) % 2 ^ 32
    if next ≤ high then do
      let rest ← synopsisNumbers trueHigh high fuel next
      return low :: rest
    else return [low]

/-- Each id comes from the chain up to `nonForkHigh`, and from the fork above. -/
def synopsis (numberOfBlocksAfter low nonForkHigh : Nat) (forkHistory : List BlockId) :
    SyncResult (List BlockId) := do
  let high := nonForkHigh + forkHistory.length
  let low := if low = 0 then 1 else low
  let nums ← synopsisNumbers ((high + numberOfBlocksAfter) % 2 ^ 32) high (high + 1) low
  nums.mapM fun num =>
    if num ≤ nonForkHigh then ask (s.getBlockIdForNum env num)
    else ask (getOrThrow forkHistory[num - nonForkHigh - 1]? (.assertion "fork_history"))

/-- `get_blockchain_synopsis` -/
def getBlockchainSynopsis (referencePoint : BlockId) (numberOfBlocksAfter : Nat) :
    SyncResult (List BlockId) :=
  let low := s.db.dgp.lastIrreversibleBlockNum
  if referencePoint = ⟨0, 0⟩ then
    if s.db.dgp.headBlockNumber = 0 then .ok []
    else synopsis env s numberOfBlocksAfter low s.db.dgp.headBlockNumber []
  else do
    let included ← isIncludedBlock env s referencePoint
    if included then
      synopsis env s numberOfBlocksAfter (min referencePoint.num low) referencePoint.num []
    else
      let forkHistory ← ask (getBlockIdsOnFork s referencePoint)
      let nonForkHigh := (forkHistory.getLast?.getD ⟨0, 0⟩).num
      if nonForkHigh < low then .error .olderThanUndoHistory
      else synopsis env s numberOfBlocksAfter low nonForkHigh forkHistory.dropLast.reverse

/-! ## What a chain answers -/

variable {env s} {bs : List SignedBlock} {id : BlockId}

/-- The ids of the blocks above the height `base`, as many as there are up to `count`. -/
def stretch (env : Env) (bs : List SignedBlock) (base count : Nat) : List BlockId :=
  ((bs.drop base).take count).map (Db.blockId env)

/-- The answer of a chain to a synopsis. -/
def answer (env : Env) (bs : List SignedBlock) (synopsis : List BlockId) (limit : Nat) :
    SyncResult (List BlockId × Nat) :=
  if bs = [] then .ok ([], 0)
  else
    let last := if synopsis = [] ∨ synopsis = [⟨0, 0⟩] then some ⟨0, 0⟩
      else synopsis.reverse.find? fun id => decide (Store.idAt env bs id.num = id)
    match last with
    | none => .error .unreachableFork
    | some last =>
      let first := max last.num 1
      let ids := stretch env bs (first - 1) limit
      .ok (ids, remainingItemCount bs.length ids)

theorem ask_eq_ok {α : Type} {r : Result α} {a : α} : ask r = .ok a ↔ r = .ok a := by
  cases r with
  | ok b => simp [ask]
  | error e => simp [ask]

/-! ## The rungs of a synopsis -/

theorem synopsisNumbers_ladder (trueHigh high low fuel : Nat) (hpos : 0 < low) (hlow : low ≤ high)
    (hhigh : high ≤ trueHigh) (hfits : trueHigh + 1 < 2 ^ 32) (hfuel : high < low + fuel) :
    ∃ nums, synopsisNumbers trueHigh high fuel low = .ok nums ∧ Ladder trueHigh high low nums := by
  induction fuel generalizing low with
  | zero => omega
  | succ fuel ih =>
    have hnext : (low + (trueHigh + 2 ^ 32 - low + 2) % 2 ^ 32 / 2) % 2 ^ 32 =
        rungAbove trueHigh low := by
      unfold rungAbove
      omega
    have hlt := Ladder.lt_rungAbove trueHigh low
    unfold synopsisNumbers
    dsimp only
    rw [hnext]
    by_cases hle : rungAbove trueHigh low ≤ high
    · obtain ⟨nums, hnums, hladder⟩ := ih (rungAbove trueHigh low) (by omega) hle (by omega)
      rw [if_pos hle, hnums]
      exact ⟨low :: nums, rfl, hladder.step hle⟩
    · rw [if_neg hle]
      exact ⟨[low], rfl, .last (Nat.lt_of_not_le hle)⟩

/-- Ids of blocks of a branch, at the rungs of a ladder that starts at the height `low`. -/
structure Summary (env : Env) (branch : List SignedBlock) (low after : Nat) (ids : List BlockId) :
    Prop where
  onBranch : ∀ id ∈ ids, ∃ b ∈ branch, id = Db.blockId env b
  ladder : Ladder (branch.length + after) branch.length low (ids.map (·.num))

/-- How a node at the end of the chain `bs` answers and asks. -/
structure Talks (env : Env) (bs : List SignedBlock) (s : Store) : Prop where
  answers : ∀ synopsis limit, getBlockIds env s synopsis limit = answer env bs synopsis limit
  whole : ∀ after, bs ≠ [] → bs.length + after + 1 < 2 ^ 32 →
    ∃ ids, getBlockchainSynopsis env s ⟨0, 0⟩ after = .ok ids ∧
      Summary env bs (max 1 s.irreversible) after ids
  upTo : ∀ k after, 0 < k → k ≤ bs.length → k + after + 1 < 2 ^ 32 →
    ∃ ids, getBlockchainSynopsis env s (Store.idAt env bs k) after = .ok ids ∧
      Summary env (bs.take k) (max 1 (min k s.irreversible)) after ids
  fork : ∀ id after ids, id ≠ ⟨0, 0⟩ → (∀ k, Store.idAt env bs k ≠ id) →
    bs.length + after + 1 < 2 ^ 32 → getBlockchainSynopsis env s id after = .ok ids →
    ∃ branch, (links env).Linked branch ∧ (links env).tip branch = id ∧
      branch.take s.irreversible = bs.take s.irreversible ∧
      Summary env branch (max 1 s.irreversible) after ids

end VizCore.Network

namespace VizCore.Chain.Store.Readable

open VizCore.Lib VizCore.Protocol VizCore.Network

variable {env : Env} {s : Store} {bs : List SignedBlock} {b : SignedBlock} {id : BlockId}

/-! ## What a node knows of its chain -/

theorem height (h : Readable env bs s) : s.db.dgp.headBlockNumber = bs.length :=
  congrArg Prod.fst h.stands.mark

/-- An id that the chain has at the height that the id names. -/
theorem idAt_eq_iff (h : Readable env bs s) :
    idAt env bs id.num = id ↔ id = ⟨0, 0⟩ ∨ ∃ b ∈ bs, id = Db.blockId env b := by
  constructor
  · intro hid
    unfold idAt at hid
    split at hid
    · exact .inl hid.symm
    · cases hb : bs[id.num - 1]? with
      | none =>
        rw [hb] at hid
        exact .inl hid.symm
      | some b =>
        rw [hb] at hid
        exact .inr ⟨b, List.mem_of_getElem? hb, hid.symm⟩
  · rintro (rfl | ⟨b, hb, rfl⟩)
    · rfl
    · exact h.idAt_of_mem hb

/-- The node has every block of its chain. -/
theorem fetchBlockById_of_mem (h : Readable env bs s) (hb : b ∈ bs) :
    s.fetchBlockById env (Db.blockId env b) = some b := by
  obtain ⟨low, hfiled, hlow⟩ := h.filed
  obtain ⟨hpos, hle, hget⟩ := ForkDb.get_of_mem h.linked hb
  unfold fetchBlockById
  split
  · rename_i item hitem
    have hindex : item ∈ s.forkDb.index := List.mem_of_find?_eq_some hitem
    have hfound := List.find?_some hitem
    have hid : item.id = Db.blockId env b := of_decide_eq_true hfound
    have hnum : b.blockNum = item.num := by
      rw [← hfiled.grown.pointers.id_num (ForkDb.mem_items_of_index hindex), hid]
      rfl
    obtain ⟨kept, hkept, rfl⟩ := hfiled.main b hb (hnum ▸ hfiled.grown.above item hindex)
    have hname := (hfiled.grown.named kept (ForkDb.mem_items_of_index hkept)).1
    rw [hfiled.grown.eq_of_id hindex hkept (hid.trans hname.symm)]
  · rename_i hfetch
    have hbelow : b.blockNum < low := by
      by_contra hge
      obtain ⟨item, hitem, rfl⟩ := hfiled.main b hb (Nat.le_of_not_lt hge)
      have hname := (hfiled.grown.named item (ForkDb.mem_items_of_index hitem)).1
      exact List.find?_eq_none.1 hfetch item hitem (decide_eq_true hname)
    have hread : s.readBlockByNum b.blockNum = some b := by
      rw [h.readBlockByNum_eq (by omega), if_pos hpos, hget]
    show (s.readBlockByNum b.blockNum).filter _ = some b
    rw [hread, Option.filter_some, if_pos (decide_eq_true rfl)]

theorem isKnownBlock_of_mem (h : Readable env bs s) (hb : b ∈ bs) :
    isKnownBlock env s (Db.blockId env b) = true := by
  unfold isKnownBlock
  rw [h.fetchBlockById_of_mem hb]
  rfl

/-- A block that the node has is not higher than its chain. -/
theorem height_of_isKnownBlock (h : Readable env bs s) (hid : isKnownBlock env s id = true) :
    0 < id.num ∧ id.num ≤ bs.length := by
  obtain ⟨low, hfiled, hlow⟩ := h.filed
  unfold isKnownBlock fetchBlockById at hid
  split at hid
  · rename_i item hitem
    have hindex : item ∈ s.forkDb.index := List.mem_of_find?_eq_some hitem
    have hfound := List.find?_some hitem
    have hitems := ForkDb.mem_items_of_index hindex
    have hnum : id.num = item.num := by
      rw [← hfiled.grown.pointers.id_num hitems, of_decide_eq_true hfound]
    rw [hnum]
    exact ⟨hfiled.low_pos.trans_le (hfiled.grown.above item hindex), hfiled.top item hindex⟩
  · obtain ⟨b, hb⟩ := Option.isSome_iff_exists.1 hid
    obtain ⟨hread, -⟩ := Option.filter_eq_some_iff.1 hb
    have hlog := h.log.length_le
    unfold readBlockByNum at hread
    split at hread
    · rename_i hpos
      obtain ⟨hlt, -⟩ := List.getElem?_eq_some_iff.1 hread
      exact ⟨hpos, by omega⟩
    · cases hread

theorem getBlockIdForNum_eq (h : Readable env bs s) {num : Nat} (hpos : 0 < num)
    (hle : num ≤ bs.length) : ask (s.getBlockIdForNum env num) = .ok (idAt env bs num) := by
  obtain ⟨b, hb⟩ : ∃ b, bs[num - 1]? = some b := ⟨_, List.getElem?_eq_getElem (by omega)⟩
  have hnum : b.blockNum = num - 1 + 1 := h.linked.height_of_get hb
  have hid : idAt env bs num = Db.blockId env b := by
    unfold idAt
    rw [if_neg (Nat.ne_of_gt hpos), hb]
    rfl
  have hne : Db.blockId env b ≠ ⟨0, 0⟩ := by
    intro hzero
    have hheight : b.blockNum = 0 := congrArg BlockId.num hzero
    omega
  rw [ask_eq_ok, hid]
  unfold getBlockIdForNum
  rw [h.findBlockIdForNum_eq, hid]
  exact (bind_eq_ok _ _ _).2 ⟨(), (fcAssert_eq_ok _ _ ()).2 hne, rfl⟩

theorem isIncludedBlock_eq (h : Readable env bs s) (hpos : 0 < id.num) (hle : id.num ≤ bs.length) :
    isIncludedBlock env s id = .ok (decide (id = idAt env bs id.num)) := by
  unfold isIncludedBlock
  rw [h.getBlockIdForNum_eq hpos hle]
  rfl

/-- The search in a synopsis asks for blocks of the chain. -/
theorem lastKnownBlock_eq (h : Readable env bs s) (ids : List BlockId) :
    lastKnownBlock env s ids =
      match ids.find? fun id => decide (idAt env bs id.num = id) with
      | some id => .ok id
      | none => .error .unreachableFork := by
  induction ids with
  | nil => rfl
  | cons id rest ih =>
    unfold lastKnownBlock
    rw [List.find?_cons]
    by_cases hzero : id = ⟨0, 0⟩
    · rw [if_pos hzero, decide_eq_true (h.idAt_eq_iff.2 (.inl hzero))]
    rw [if_neg hzero]
    by_cases hon : idAt env bs id.num = id
    · obtain ⟨b, hb, rfl⟩ := (h.idAt_eq_iff.1 hon).resolve_left hzero
      have hknown := h.isKnownBlock_of_mem hb
      obtain ⟨hpos, hle⟩ := h.height_of_isKnownBlock hknown
      rw [if_pos hknown, h.isIncludedBlock_eq hpos hle, decide_eq_true hon,
        decide_eq_true hon.symm]
      rfl
    · rw [decide_eq_false hon]
      split
      · rename_i hknown
        obtain ⟨hpos, hle⟩ := h.height_of_isKnownBlock hknown
        rw [h.isIncludedBlock_eq hpos hle, decide_eq_false (Ne.symm hon)]
        exact ih
      · exact ih

/-- The ids of a stretch of the chain. -/
theorem mapM_ids (h : Readable env bs s) {first : Nat} (hpos : 0 < first) (limit : Nat) :
    (((List.range' first (bs.length + 1 - first)).take limit).mapM fun num =>
      ask (s.getBlockIdForNum env num)) =
        .ok (stretch env bs (first - 1) limit) := by
  unfold stretch
  rw [mapM_eq_ok_iff_forall₂, List.forall₂_iff_get]
  have hlength : ((List.range' first (bs.length + 1 - first)).take limit).length =
      (((bs.drop (first - 1)).take limit).map (Db.blockId env)).length := by
    rw [List.length_take, List.length_range', List.length_map, List.length_take, List.length_drop]
    omega
  refine ⟨hlength, ?_⟩
  intro i hi hi'
  have hlt : i < min limit (bs.length + 1 - first) := by
    rw [List.length_take, List.length_range'] at hi
    exact hi
  rw [List.get_eq_getElem, List.get_eq_getElem, List.getElem_take, List.getElem_range', Nat.one_mul,
    List.getElem_map, List.getElem_take, List.getElem_drop]
  show ask (s.getBlockIdForNum env (first + i)) = .ok (Db.blockId env bs[first - 1 + i])
  rw [h.getBlockIdForNum_eq (by omega) (by omega)]
  unfold idAt
  rw [if_neg (by omega), show first + i - 1 = first - 1 + i by omega,
    List.getElem?_eq_getElem (by omega)]
  rfl

/-- **An answer** is the answer of the node's chain. -/
theorem getBlockIds_eq (h : Readable env bs s) (synopsis : List BlockId) (limit : Nat) :
    getBlockIds env s synopsis limit = answer env bs synopsis limit := by
  unfold getBlockIds answer
  dsimp only
  rw [h.height]
  by_cases hempty : bs = []
  · rw [if_pos (List.length_eq_zero_iff.2 hempty), if_pos hempty]
  rw [if_neg (fun hzero => hempty (List.length_eq_zero_iff.1 hzero)), if_neg hempty]
  have hlast : lastKnownBlockId env s synopsis =
      match (if synopsis = [] ∨ synopsis = [⟨0, 0⟩] then some ⟨0, 0⟩
        else synopsis.reverse.find? fun id => decide (idAt env bs id.num = id)) with
      | some id => .ok id
      | none => .error .unreachableFork := by
    unfold lastKnownBlockId
    split
    · rfl
    · exact h.lastKnownBlock_eq _
  rw [hlast]
  generalize (if synopsis = [] ∨ synopsis = [⟨0, 0⟩] then some (⟨0, 0⟩ : BlockId)
    else synopsis.reverse.find? fun id => decide (idAt env bs id.num = id)) = found
  cases found with
  | none => rfl
  | some last =>
    have hpos : 0 < max last.num 1 := Nat.lt_of_lt_of_le Nat.one_pos (Nat.le_max_right _ _)
    refine Eq.trans (congrArg (fun ids : SyncResult _ => ids >>= fun ids =>
      pure (ids, remainingItemCount bs.length ids)) (h.mapM_ids hpos limit)) rfl

/-! ## What a chain asks -/

/-- The id of a block of a linked branch. -/
theorem idAt_of_le (env : Env) {branch : List SignedBlock} {num : Nat} (hpos : 0 < num)
    (hle : num ≤ branch.length) (hlinked : (links env).Linked branch) :
    ∃ b ∈ branch, idAt env branch num = Db.blockId env b ∧ b.blockNum = num := by
  obtain ⟨b, hb⟩ : ∃ b, branch[num - 1]? = some b := ⟨_, List.getElem?_eq_getElem (by omega)⟩
  have hnum : b.blockNum = num - 1 + 1 := hlinked.height_of_get hb
  refine ⟨b, List.mem_of_getElem? hb, ?_, by omega⟩
  unfold idAt
  rw [if_neg (Nat.ne_of_gt hpos), hb]
  rfl

/-- **A synopsis** of a branch that leaves the chain above the height `low`. -/
theorem synopsis_eq (h : Readable env bs s) (branch : List SignedBlock) (low shared after : Nat)
    (hlinked : (links env).Linked branch) (hshared : shared ≤ bs.length)
    (hsame : branch.take shared = bs.take shared) (hlow : low ≤ shared)
    (hsome : 0 < branch.length) (hbelow : shared ≤ branch.length)
    (hfits : branch.length + after + 1 < 2 ^ 32) :
    ∃ ids, synopsis env s after low shared ((branch.drop shared).map (Db.blockId env)) = .ok ids ∧
      Summary env branch (max 1 low) after ids := by
  have hhigh : shared + ((branch.drop shared).map (Db.blockId env)).length = branch.length := by
    rw [List.length_map, List.length_drop]
    omega
  have hstart : (if low = 0 then 1 else low) = max 1 low := by
    split
    · omega
    · omega
  obtain ⟨nums, hnums, hladder⟩ := synopsisNumbers_ladder (branch.length + after)
    branch.length (max 1 low) (branch.length + 1) (by omega) (by omega)
    (by omega) hfits (by omega)
  have hbounds := hladder.bounds (by omega)
  have hread (num : Nat) (hnum : num ∈ nums) :
      (if num ≤ shared then ask (s.getBlockIdForNum env num)
        else ask (getOrThrow ((branch.drop shared).map (Db.blockId env))[num - shared - 1]?
          (.assertion "fork_history"))) = .ok (idAt env branch num) := by
    obtain ⟨hge, hle⟩ := hbounds num hnum
    split
    · rename_i hmain
      rw [h.getBlockIdForNum_eq (by omega) (by omega)]
      have hget : bs[num - 1]? = branch[num - 1]? := by
        rw [← List.getElem?_take_of_lt (show num - 1 < shared by omega), ← hsame,
          List.getElem?_take_of_lt (show num - 1 < shared by omega)]
      unfold idAt
      rw [hget]
    · rw [ask_eq_ok, getOrThrow_eq_ok, List.getElem?_map, List.getElem?_drop,
        show shared + (num - shared - 1) = num - 1 by omega]
      obtain ⟨b, hb⟩ : ∃ b, branch[num - 1]? = some b := ⟨_, List.getElem?_eq_getElem (by omega)⟩
      unfold idAt
      rw [if_neg (by omega), hb]
      rfl
  refine ⟨nums.map (idAt env branch), ?_, ?_, ?_⟩
  · unfold synopsis
    dsimp only
    rw [hhigh, hstart, Nat.mod_eq_of_lt (by omega)]
    refine (bind_eq_ok _ _ _).2 ⟨nums, hnums, ?_⟩
    rw [mapM_eq_ok_iff_forall₂, List.forall₂_map_right_iff, List.forall₂_same]
    exact hread
  · intro id hid
    obtain ⟨num, hnum, rfl⟩ := List.mem_map.1 hid
    obtain ⟨hge, hle⟩ := hbounds num hnum
    obtain ⟨b, hb, heq, -⟩ := idAt_of_le env (by omega) hle hlinked
    exact ⟨b, hb, heq⟩
  · have hheights : (nums.map (idAt env branch)).map (·.num) = nums := by
      rw [List.map_map]
      refine (List.map_congr_left ?_).trans (List.map_id nums)
      intro num hnum
      obtain ⟨hge, hle⟩ := hbounds num hnum
      obtain ⟨b, -, heq, hheight⟩ := idAt_of_le env (by omega) hle hlinked
      show (idAt env branch num).num = num
      rw [heq]
      exact hheight
    rw [hheights]
    exact hladder

/-- The item of the head. -/
theorem headItem (h : Readable env bs s) {low : Nat} (hfiled : ForkDb.Filed env bs low s.forkDb)
    {i : ForkItem} (hi : i ∈ s.forkDb.index) (hid : i.id = s.db.dgp.headBlockId) : i.data ∈ bs := by
  have habove := hfiled.grown.above i hi
  have htop := hfiled.top i hi
  have hpos := hfiled.low_pos
  obtain ⟨j, hj, hdata, -, hget⟩ := hfiled.item (k := bs.length) (by omega) le_rfl
  have htip : s.db.dgp.headBlockId = (links env).tip bs := congrArg Prod.snd h.stands.mark
  have hjid : j.id = i.id := by
    rw [hid, htip, (hfiled.grown.named j (ForkDb.mem_items_of_index hj)).1]
    exact (Links.tip_of_length (L := links env) hget (by omega)).symm
  rw [← hfiled.grown.eq_of_id hj hi hjid]
  exact hdata

/-- **A fork**, from its head down to the block of the chain that it leaves. -/
theorem getBlockIdsOnFork_branch (h : Readable env bs s) {forkHistory : List BlockId}
    (hfork : getBlockIdsOnFork s id = .ok forkHistory) :
    ∃ branch shared, (links env).Linked branch ∧ (links env).tip branch = id ∧
      shared < branch.length ∧ branch.length ≤ bs.length ∧ branch.take shared = bs.take shared ∧
      forkHistory = ((branch.drop shared).map (Db.blockId env)).reverse ++
        [(links env).tip (bs.take shared)] := by
  obtain ⟨low, hfiled, -⟩ := h.filed
  simp only [getBlockIdsOnFork, bind_eq_ok, getOrThrow_eq_ok, pure_eq_ok] at hfork
  obtain ⟨⟨first, second⟩, hbranches, last, hlast, rfl⟩ := hfork
  obtain ⟨a, ha, b, hb, haid, hbid, y, z, hy, hz, hsame⟩ :=
    ForkDb.fetchBranchFrom_climb hfiled.grown (hfiled.indexed h.released) hbranches
  obtain rfl := Option.some.inj (hlast.symm.trans hy.last_mem.2)
  -- the chain's branch stays on the chain, and the fork goes on where it ends
  have hdata : last.data ∈ bs :=
    hy.onChain hfiled.toKept (h.headItem hfiled ha haid) last hy.last_mem.1
  have hitems := ForkDb.mem_items_of_index (hy.mem last hy.last_mem.1)
  have hzitems := ForkDb.mem_items_of_index (hz.mem z hz.last_mem.1)
  obtain ⟨hpos, hle⟩ := hfiled.num_le hitems hdata
  have hprevious := hfiled.previous_eq hitems hdata
  have hznum : z.num = last.num := by
    rw [hfiled.num_eq hzitems, hfiled.num_eq hitems]
    show (z.data.previous.num + 1) % 2 ^ 32 = (last.data.previous.num + 1) % 2 ^ 32
    rw [hsame]
  have hbase : (bs.take (last.num - 1)).length = last.num - 1 := by
    rw [List.length_take]
    omega
  obtain ⟨hlinked, htip⟩ := hz.linked hfiled.grown (hfiled.linked.take (last.num - 1))
    (hsame.symm.trans hprevious) (by omega)
  have hsome : 0 < ((second.map (·.data)).reverse).length := by
    rw [List.length_reverse, List.length_map]
    exact List.length_pos_of_mem hz.last_mem.1
  have hids : (second.map (·.data)).map (Db.blockId env) = second.map (·.id) := by
    rw [List.map_map]
    refine List.map_congr_left ?_
    intro i hi
    exact (hfiled.grown.named i (ForkDb.mem_items_of_index (hz.mem i hi))).1.symm
  refine ⟨_, last.num - 1, hlinked, htip.trans hbid, ?_, ?_, List.take_left' hbase, ?_⟩
  · rw [List.length_append, hbase]
    omega
  · have hlength := hz.length hfiled.grown
    have htop := hfiled.top b hb
    rw [List.length_append, hbase, List.length_reverse, List.length_map]
    omega
  · rw [List.drop_left' hbase, List.map_reverse, List.reverse_reverse, hids, hprevious]

variable {after : Nat} {ids : List BlockId}

theorem irreversible_le (h : Readable env bs s) : s.irreversible ≤ bs.length := h.stands.ceiling

/-- The question about the whole chain. -/
theorem getBlockchainSynopsis_whole (h : Readable env bs s) (after : Nat) (hsome : bs ≠ [])
    (hfits : bs.length + after + 1 < 2 ^ 32) :
    ∃ ids, getBlockchainSynopsis env s ⟨0, 0⟩ after = .ok ids ∧
      Summary env bs (max 1 s.irreversible) after ids := by
  have hpos := List.length_pos_iff.2 hsome
  obtain ⟨ids, hids, hsummary⟩ := h.synopsis_eq bs s.irreversible bs.length after
    h.linked le_rfl rfl h.irreversible_le hpos le_rfl hfits
  refine ⟨ids, ?_, hsummary⟩
  rw [List.drop_length] at hids
  unfold getBlockchainSynopsis
  dsimp only
  rw [if_pos rfl, h.height, if_neg (Nat.ne_of_gt hpos)]
  exact hids

/-- The question about the chain up to one of its blocks. -/
theorem getBlockchainSynopsis_upTo (h : Readable env bs s) (k after : Nat) (hpos : 0 < k)
    (hle : k ≤ bs.length) (hfits : k + after + 1 < 2 ^ 32) :
    ∃ ids, getBlockchainSynopsis env s (idAt env bs k) after = .ok ids ∧
      Summary env (bs.take k) (max 1 (min k s.irreversible)) after ids := by
  have hlength : (bs.take k).length = k := by
    rw [List.length_take]
    omega
  obtain ⟨b, hb, hid, hnum⟩ := idAt_of_le env hpos hle h.linked
  have hheight : (idAt env bs k).num = k := by
    rw [hid]
    exact hnum
  have hne : idAt env bs k ≠ ⟨0, 0⟩ := by
    intro hzero
    rw [hzero] at hheight
    exact absurd hheight (Nat.ne_of_lt hpos)
  obtain ⟨ids, hids, hsummary⟩ := h.synopsis_eq (bs.take k) (min k s.irreversible) k after
    (h.linked.take k) hle (List.take_take.trans (by rw [min_self]))
    (Nat.min_le_left _ _) (by omega) (by omega) (by omega)
  refine ⟨ids, ?_, hsummary⟩
  rw [List.drop_of_length_le (by omega)] at hids
  have hincluded : isIncludedBlock env s (idAt env bs k) = .ok true := by
    rw [h.isIncludedBlock_eq (by omega) (by omega), hheight]
    exact congrArg Except.ok (decide_eq_true rfl)
  unfold getBlockchainSynopsis
  dsimp only
  rw [if_neg hne]
  refine (bind_eq_ok _ _ _).2 ⟨true, hincluded, ?_⟩
  rw [if_pos rfl, hheight]
  exact hids

/-- The question about a fork. -/
theorem getBlockchainSynopsis_fork (h : Readable env bs s) (hoff : id ≠ ⟨0, 0⟩)
    (hapart : ∀ k, idAt env bs k ≠ id) (hfits : bs.length + after + 1 < 2 ^ 32)
    (hids : getBlockchainSynopsis env s id after = .ok ids) :
    ∃ branch, (links env).Linked branch ∧ (links env).tip branch = id ∧
      branch.take s.irreversible = bs.take s.irreversible ∧
      Summary env branch (max 1 s.irreversible) after ids := by
  unfold getBlockchainSynopsis at hids
  dsimp only at hids
  rw [if_neg hoff] at hids
  simp only [bind_eq_ok, ask_eq_ok] at hids
  obtain ⟨included, hincluded, hids⟩ := hids
  have hout : included = false := by
    simp only [isIncludedBlock, getBlockIdForNum, bind_eq_ok, ask_eq_ok, pure_eq_ok] at hincluded
    obtain ⟨preferred, ⟨-, -, rfl⟩, rfl⟩ := hincluded
    rw [h.findBlockIdForNum_eq]
    exact decide_eq_false (Ne.symm (hapart id.num))
  rw [hout, if_neg Bool.false_ne_true] at hids
  obtain ⟨forkHistory, hfork, hids⟩ := (bind_eq_ok _ _ _).1 hids
  obtain ⟨branch, shared, hlinked, htip, hlonger, hshorter, hsame, rfl⟩ :=
    h.getBlockIdsOnFork_branch (ask_eq_ok.1 hfork)
  have hnum : ((links env).tip (bs.take shared)).num = shared := by
    have hheight := (h.linked.take shared).height_tip
    rw [List.length_take, Nat.min_eq_left (by omega)] at hheight
    exact hheight
  rw [List.getLast?_concat, List.dropLast_concat, List.reverse_reverse, Option.getD_some, hnum]
    at hids
  split at hids
  · cases hids
  · rename_i hlow
    have hbelow : s.irreversible ≤ shared := Nat.le_of_not_lt hlow
    obtain ⟨ids', hids', hsummary⟩ := h.synopsis_eq branch s.irreversible shared after
      hlinked (by omega) hsame hbelow (by omega) (by omega) (by omega)
    obtain rfl := Except.ok.inj (hids.symm.trans hids')
    refine ⟨branch, hlinked, htip, ?_, hsummary⟩
    rw [← Nat.min_eq_left hbelow, ← List.take_take, hsame, List.take_take]

theorem talks (h : Readable env bs s) : Talks env bs s where
  answers := h.getBlockIds_eq
  whole := h.getBlockchainSynopsis_whole
  upTo := h.getBlockchainSynopsis_upTo
  fork _ _ _ := h.getBlockchainSynopsis_fork

end VizCore.Chain.Store.Readable

namespace VizCore.Network

open VizCore.Lib VizCore.Chain

/-- **Synchronising.**  Whatever happens to a node, its answers list the ids of its chain from the
last id of the question that is on it, and its questions list a ladder of ids of the branch that
they are about. -/
theorem talks_right (env : Env) (fuel : Nat) {bs : List SignedBlock} {n : Chain.Node}
    (h : Chain.Node.Rested env bs n) {acts : List Chain.Act}
    (hacts : Guarded (Chain.Act.run env fuel) (Chain.Act.Smooth env fuel) n acts) :
    ∃ chain, (links env).Linked chain ∧
      (run (Chain.Act.run env fuel) n acts).db.headMark = (chain.length, (links env).tip chain) ∧
      Talks env chain (run (Chain.Act.run env fuel) n acts).toStore := by
  obtain ⟨-, ⟨chain, base, hend⟩, -⟩ := Chain.Act.run_between ⟨bs, n.toStore, h.seated⟩ hacts
    (List.prefix_refl acts) (List.prefix_refl acts)
  have hreadable := hend.readable
  exact ⟨chain, hreadable.linked, hreadable.stands.mark, hreadable.talks⟩

theorem talks_right_pairRun :
    ∃ chain, (links smallEnv).Linked chain ∧
      (run (Chain.Act.run smallEnv 3) pairNode pairRun).db.headMark =
        (chain.length, (links smallEnv).tip chain) ∧
      Talks smallEnv chain (run (Chain.Act.run smallEnv 3) pairNode pairRun).toStore :=
  talks_right smallEnv 3 (pairNode_rested smallEnv) pairRun_guarded

end VizCore.Network
