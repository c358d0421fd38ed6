import VizCore.Chain.Course
import VizCore.Lib.Runs

/-!
# Blocks by their numbers

A node looks for the block of a height in a ring of block ids, in the block log and in the fork
database.

* `Readable`: a store at the end of a chain, as far as its readers are concerned;
* `Readable.findBlockIdForNum_eq`, `Readable.fetchBlockByNumber_eq`: it finds the blocks of this
  chain.
-/

namespace VizCore.Chain

open VizCore.Lib VizCore.Protocol

variable {env : Env} {b : SignedBlock} {bs : List SignedBlock}

/-! ## Lookups -/

namespace Store

/-- `find_block_id_for_num` -/
def findBlockIdForNum (env : Env) (num : Nat) (s : Store) : BlockId :=
  if num = 0 then ⟨0, 0⟩
  else
    match (s.db.blockSummaries.get (·.id) (num % 2 ^ 16)).filter fun row => row.blockId.num = num with
    | some row => row.blockId
    | none =>
      match s.readBlockByNum num with
      | some b => Db.blockId env b
      | none =>
        match s.forkDb.fetchBlockOnMainBranchByNumber num with
        | some item => item.id
        | none => ⟨0, 0⟩

/-- `get_block_id_for_num` -/
def getBlockIdForNum (env : Env) (num : Nat) (s : Store) : Result BlockId := do
  let id := s.findBlockIdForNum env num
  fcAssert (id ≠ ⟨0, 0⟩) "bid != block_id_type()"
  return id

/-- `fetch_block_by_number` -/
def fetchBlockByNumber (num : Nat) (s : Store) : Option SignedBlock :=
  match s.forkDb.fetchBlockByNumber num with
  | [item] => some item.data
  | _ => s.readBlockByNum num

/-- The id of the block of the height `num`, or no id. -/
def idAt (env : Env) (bs : List SignedBlock) (num : Nat) : BlockId :=
  if num = 0 then ⟨0, 0⟩ else (bs[num - 1]?.map (Db.blockId env)).getD ⟨0, 0⟩

variable {s : Store}

/-- A store that stands at the end of the chain `bs`, as far as its readers are concerned. -/
structure Readable (env : Env) (bs : List SignedBlock) (s : Store) : Prop where
  stands : Db.At env bs s.db
  logged : s.irreversible ≤ s.blockLog.length
  log : s.blockLog <+: bs
  filed : ∃ low, ForkDb.Filed env bs low s.forkDb ∧ low ≤ max 1 s.blockLog.length
  released : s.forkDb.held = []

namespace Readable

theorem linked (h : Readable env bs s) : (links env).Linked bs := by
  obtain ⟨low, hfiled, -⟩ := h.filed
  exact hfiled.linked

theorem idAt_of_mem (h : Readable env bs s) (hb : b ∈ bs) :
    idAt env bs b.blockNum = Db.blockId env b := by
  obtain ⟨hpos, -, hget⟩ := ForkDb.get_of_mem h.linked hb
  unfold idAt
  rw [if_neg (Nat.ne_of_gt hpos), hget]
  rfl

theorem idAt_of_lt {num : Nat} (hlt : bs.length < num) : idAt env bs num = ⟨0, 0⟩ := by
  unfold idAt
  rw [List.getElem?_eq_none (by omega)]
  split
  · rfl
  · rfl

/-- The log holds the blocks of the chain from the first one on. -/
theorem readBlockByNum_eq (h : Readable env bs s) {num : Nat} (hle : num ≤ s.blockLog.length) :
    s.readBlockByNum num = if 0 < num then bs[num - 1]? else none := by
  unfold readBlockByNum
  split
  · obtain ⟨rest, hrest⟩ := h.log
    rw [← hrest, List.getElem?_append_left (by omega)]
  · rfl

theorem readBlockByNum_beyond {num : Nat} (hlt : s.blockLog.length < num) :
    s.readBlockByNum num = none := by
  unfold readBlockByNum
  split
  · exact List.getElem?_eq_none (by omega)
  · rfl

/-- **Ids by number.** -/
theorem findBlockIdForNum_eq (h : Readable env bs s) (num : Nat) :
    s.findBlockIdForNum env num = idAt env bs num := by
  unfold findBlockIdForNum
  by_cases hzero : num = 0
  · rw [if_pos hzero, hzero]
    rfl
  rw [if_neg hzero]
  split
  · rename_i row hrow
    obtain ⟨hget, hnum⟩ := Option.filter_eq_some_iff.1 hrow
    have hnum' : row.blockId.num = num := of_decide_eq_true hnum
    rcases h.stands.rows row (Table.get_mem hget) with hnone | ⟨b, hb, hid⟩
    · rw [hnone] at hnum'
      exact absurd hnum'.symm hzero
    · have hheight : b.blockNum = num := by
        rw [← hnum', hid]
        rfl
      rw [hid, ← hheight, h.idAt_of_mem hb]
  · rename_i hring
    rcases Nat.lt_or_ge s.blockLog.length num with hlt | hle
    · -- a block above the log is recent, so that its id would be in the ring
      have hbeyond : bs.length < num := by
        by_contra hle
        obtain ⟨b, hb⟩ : ∃ b, bs[num - 1]? = some b := ⟨_, List.getElem?_eq_getElem (by omega)⟩
        have hmem : b ∈ bs := List.mem_of_getElem? hb
        have hheight : b.blockNum = num := by
          have hsame := h.linked.height_of_get hb
          change b.blockNum = num - 1 + 1 at hsame
          omega
        have hreach := h.stands.reach
        have hlogged := h.logged
        unfold irreversible at hlogged
        obtain ⟨row, hget, hid⟩ := h.stands.ring b hmem (by omega)
        rw [hheight] at hget
        have hnum : row.blockId.num = num := by
          rw [hid, ← hheight]
          rfl
        rw [hget, Option.filter_some, if_pos (decide_eq_true hnum)] at hring
        cases hring
      rw [readBlockByNum_beyond hlt, idAt_of_lt hbeyond]
      dsimp only
      cases hfetch : s.forkDb.fetchBlockOnMainBranchByNumber num with
      | none => rfl
      | some item =>
        obtain ⟨low, hfiled, -⟩ := h.filed
        obtain ⟨hindex, -, hnum⟩ := hfiled.mainBranch hfetch
        have htop := hfiled.top item hindex
        omega
    · have hpos : 0 < num := Nat.pos_of_ne_zero hzero
      rw [h.readBlockByNum_eq hle, if_pos hpos]
      have hlength := h.log.length_le
      rw [List.getElem?_eq_getElem (show num - 1 < bs.length by omega)]
      unfold idAt
      rw [if_neg hzero, List.getElem?_eq_getElem (show num - 1 < bs.length by omega)]
      rfl

/-- **Blocks by number.** -/
theorem fetchBlockByNumber_eq (h : Readable env bs s) {num : Nat}
    (hb : s.fetchBlockByNumber num = some b) : 0 < num ∧ bs[num - 1]? = some b := by
  obtain ⟨low, hfiled, -⟩ := h.filed
  unfold Store.fetchBlockByNumber at hb
  split at hb
  · rename_i item hitem
    have hfetch : s.forkDb.fetchBlockOnMainBranchByNumber num = some item := by
      unfold ForkDb.fetchBlockOnMainBranchByNumber
      rw [hitem]
    obtain ⟨hindex, hdata, hnum⟩ := hfiled.mainBranch hfetch
    obtain ⟨hpos, -, hget⟩ := ForkDb.get_of_mem hfiled.linked hdata
    rw [(hfiled.grown.named item (ForkDb.mem_items_of_index hindex)).2] at hnum
    obtain rfl := Option.some.inj hb
    rw [hnum] at hpos hget
    exact ⟨hpos, hget⟩
  · rcases Nat.lt_or_ge s.blockLog.length num with hlt | hle
    · rw [readBlockByNum_beyond hlt] at hb
      cases hb
    · rw [h.readBlockByNum_eq hle] at hb
      split at hb
      · rename_i hpos
        exact ⟨hpos, hb⟩
      · cases hb

end Readable

end Store

end VizCore.Chain
