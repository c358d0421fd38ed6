import VizCore.Lib.Bytes
import VizCore.Chain.Store

/-!
# The block log on disk

The two files of the block log: the packed blocks, each followed by its position, and the
index with the position of every block.  Both files are mapped into memory and written in
place, so what an append has done when the process stops stays on disk.

* `openLog_complete`: a file of complete records is opened with its last block as head and
  the complete index, unless the index that is found ends in the head's position;
* `complete_reads`: then every block can be read by its number.
-/

namespace VizCore.Chain

open VizCore.Lib VizCore.Protocol

/-- `fc::raw`: packing of a block, and unpacking from a stream, which returns the block and
the number of bytes read or throws. -/
structure BlockCodec where
  pack : SignedBlock → Bytes
  unpack : Bytes → Option (SignedBlock × Nat)

/-- Unpacking inverts packing and reads exactly the packed bytes, of which there are some. -/
structure BlockCodec.Inverts (codec : BlockCodec) (b : SignedBlock) : Prop where
  unpack : ∀ rest, codec.unpack (codec.pack b ++ rest) = some (b, (codec.pack b).length)
  nonempty : 0 < (codec.pack b).length

/-- The files as they are on disk, and what the open log keeps in memory. -/
structure BlockLog where
  blockFile : Option Bytes := none
  indexFile : Option Bytes := none
  isOpen : Bool := false
  head : Option SignedBlock := none
  headId : BlockId := ⟨0, 0⟩

namespace BlockLog

/-! ## Mapped files -/

/-- `get_mapped_size` -/
def getMappedSize (file : Bytes) : Nat := if file.length < 8 then 0 else file.length

/-- `get_uint64` -/
def getUint64 (file : Bytes) (pos : Nat) : Result Nat := do
  fcAssert (pos + 8 ≤ getMappedSize file) "get_mapped_size(mapped_file) >= pos + sizeof(value)"
  return leNat ((file.drop pos).take 8)

/-- `get_last_uint64` -/
def getLastUint64 (file : Bytes) : Result Nat := do
  fcAssert (8 ≤ getMappedSize file) "size >= sizeof(value)"
  return leNat ((file.drop (getMappedSize file - 8)).take 8)

/-- `read_block`: the block at a position, and the position after it. -/
def readBlock (codec : BlockCodec) (file : Bytes) (pos : Nat) : Result (SignedBlock × Nat) := do
  fcAssert (pos < getMappedSize file) "file_size > pos"
  let maxBlockSize := min (getMappedSize file - pos) chainBlockSize
  let (block, size) ← getOrThrow (codec.unpack ((file.drop pos).take maxBlockSize))
    (.assertion "fc::raw::unpack")
  let back ← getUint64 file (pos + size)
  fcAssert (back = pos) "get_uint64(block_mapped_file, end_pos) == pos"
  return (block, pos + size + 8)

/-- `create_nonexist_file` -/
def createNonexistFile : Option Bytes → Bytes
  | none => [0]
  | some [] => [0]
  | some file => file

theorem readBlock_lt {codec : BlockCodec} {file : Bytes} {pos next : Nat} {b : SignedBlock}
    (h : readBlock codec file pos = .ok (b, next)) : pos < next := by
  unfold readBlock at h
  simp only [bind_eq_ok, pure_eq_ok, Prod.exists, Prod.mk.injEq] at h
  obtain ⟨_, _, _, size, _, _, _, _, _, _, hnext⟩ := h
  omega

/-- The walk of `construct_index`.  The source writes through a pointer; a write outside of
the mapped index is modelled as an exception. -/
def indexLoop (codec : BlockCodec) (file : Bytes) (endPos pos idx : Nat) (index : Bytes) :
    Result Bytes :=
  if pos ≤ endPos then
    if idx + 8 ≤ index.length then
      match h : readBlock codec file pos with
      | .error e => .error e
      | .ok (_, next) =>
        indexLoop codec file endPos next (idx + 8) (overwrite index idx (leBytes 8 pos))
    else .error (.assertion "idx_ptr")
  else .ok index
termination_by endPos + 1 - pos
decreasing_by
  have hlt := readBlock_lt h
  omega

variable (codec : BlockCodec) (env : Env) (s : BlockLog)

/-- A closed mapping has no size. -/
def blockMapped : Bytes := if s.isOpen then s.blockFile.getD [] else []

def indexMapped : Bytes := if s.isOpen then s.indexFile.getD [] else []

/-- `has_block_records` -/
def hasBlockRecords : Bool := 8 < s.blockMapped.length

/-- `has_index_records` -/
def hasIndexRecords : Bool := 8 ≤ s.indexMapped.length

/-! ## Reading -/

/-- `block_log::npos` -/
def npos : Nat := 2 ^ 64 - 1

/-- `get_block_pos` -/
def getBlockPos (num : Nat) : Result Nat :=
  if s.head.isSome ∧ num ≤ s.headId.num ∧ 0 < num then getUint64 s.indexMapped (8 * (num - 1))
  else .ok npos

/-- `read_head` -/
def readHead : Result SignedBlock := do
  let pos ← getLastUint64 s.blockMapped
  let (block, _) ← readBlock codec s.blockMapped pos
  return block

/-- `block_log::read_block_by_num` -/
def readBlockByNum (num : Nat) : Result (Option SignedBlock) := do
  let pos ← s.getBlockPos num
  if pos ≠ npos then do
    let (block, _) ← readBlock codec s.blockMapped pos
    fcAssert (block.blockNum = num) "Wrong block was read from block log"
    return some block
  else return none

/-! ## Opening and closing -/

/-- `construct_index` -/
def constructIndex : Result BlockLog := do
  let head ← getOrThrow s.head (.assertion "head.valid()")
  let endPos ← getLastUint64 s.blockMapped
  let index ← indexLoop codec s.blockMapped endPos 0 0
    (resize (createNonexistFile none) (head.blockNum * 8))
  return { s with indexFile := some index }

/-- `open` -/
def openLog : Result BlockLog := do
  let s := { s with isOpen := true, blockFile := some (createNonexistFile s.blockFile),
                    indexFile := some (createNonexistFile s.indexFile) }
  if s.hasBlockRecords then do
    let head ← s.readHead codec
    let s := { s with head := some head, headId := Db.blockId env head }
    if s.hasIndexRecords then do
      let blockPos ← getLastUint64 s.blockMapped
      let indexPos ← getLastUint64 s.indexMapped
      if blockPos ≠ indexPos then s.constructIndex codec else return s
    else s.constructIndex codec
  else if s.hasIndexRecords then
    return { s with blockFile := some (createNonexistFile none),
                    indexFile := some (createNonexistFile none) }
  else return s

/-- `close` -/
def close : BlockLog := { s with isOpen := false, head := none, headId := ⟨0, 0⟩ }

/-! ## Appending -/

/-- The effects of an append on the files, in their order. -/
inductive AppendEffect
  | resizeBlocks
  | copyData
  | writePosition
  | resizeIndex
  | writeEntry

/-- The effects of `append` at the sizes that the files had before. -/
def AppendEffect.apply (data : Bytes) (blockPos indexPos : Nat) (s : BlockLog) :
    AppendEffect → BlockLog
  | .resizeBlocks =>
    { s with blockFile := s.blockFile.map fun f => resize f (blockPos + data.length + 8) }
  | .copyData => { s with blockFile := s.blockFile.map fun f => overwrite f blockPos data }
  | .writePosition =>
    { s with blockFile := s.blockFile.map fun f =>
        overwrite f (blockPos + data.length) (leBytes 8 blockPos) }
  | .resizeIndex => { s with indexFile := s.indexFile.map fun f => resize f (indexPos + 8) }
  | .writeEntry =>
    { s with indexFile := s.indexFile.map fun f => overwrite f indexPos (leBytes 8 blockPos) }

/-- The effects that an append of the packed block has, all of them in order. -/
def appendEffects : List AppendEffect :=
  [.resizeBlocks, .copyData, .writePosition, .resizeIndex, .writeEntry]

/-- The files after the given effects of the append of `data`. -/
def afterEffects (data : Bytes) (effects : List AppendEffect) : BlockLog :=
  effects.foldl
    (AppendEffect.apply data (getMappedSize s.blockMapped) (getMappedSize s.indexMapped)) s

/-- `append` -/
def append (b : SignedBlock) : Result BlockLog := do
  fcAssert (getMappedSize s.indexMapped = 8 * ((b.blockNum + (2 ^ 32 - 1)) % 2 ^ 32))
    "Append to index file occuring at wrong position."
  fcAssert (s.isOpen = true) "file is closed"
  let s := s.afterEffects (codec.pack b) appendEffects
  return { s with head := some b, headId := Db.blockId env b }

/-! ## The files of a list of blocks -/

/-- Blocks numbered from 1 on, none of which packs to more than `CHAIN_BLOCK_SIZE` bytes. -/
structure Numbered (bs : List SignedBlock) : Prop where
  num : ∀ as b cs, bs = as ++ b :: cs → b.blockNum = as.length + 1
  size : ∀ b ∈ bs, (codec.pack b).length ≤ chainBlockSize
  inverts : ∀ b ∈ bs, codec.Inverts b

/-- The block file that holds the blocks. -/
def blockBytes (bs : List SignedBlock) : Bytes := records codec.pack 8 0 bs

/-- The index with an entry for each block. -/
def indexBytes (bs : List SignedBlock) : Bytes := words 8 (offsets codec.pack 8 0 bs)

/-- The position of the last block. -/
def headPos (bs : List SignedBlock) : Nat := (blockBytes codec bs.dropLast).length

section Layout

variable {codec} {bs as cs : List SignedBlock} {b : SignedBlock}

theorem blockBytes_append (as cs : List SignedBlock) :
    blockBytes codec (as ++ cs) = blockBytes codec as ++
      records codec.pack 8 (blockBytes codec as).length cs := by
  unfold blockBytes
  rw [records_append, Nat.zero_add]

/-- Where a block stands in the file. -/
theorem blockBytes_split (as : List SignedBlock) (b : SignedBlock) (cs : List SignedBlock) :
    blockBytes codec (as ++ b :: cs) = blockBytes codec as ++ (codec.pack b ++
      (leBytes 8 (blockBytes codec as).length ++ records codec.pack 8
        ((blockBytes codec as).length + (codec.pack b).length + 8) cs)) :=
  blockBytes_append as (b :: cs)

theorem blockBytes_snoc (bs : List SignedBlock) (b : SignedBlock) :
    blockBytes codec (bs ++ [b]) = blockBytes codec bs ++ (codec.pack b ++
      leBytes 8 (blockBytes codec bs).length) := by
  rw [blockBytes_split]
  simp [records]

theorem indexBytes_append (as cs : List SignedBlock) :
    indexBytes codec (as ++ cs) = indexBytes codec as ++
      words 8 (offsets codec.pack 8 (blockBytes codec as).length cs) := by
  unfold indexBytes blockBytes
  rw [offsets_append, words_append, Nat.zero_add]

theorem indexBytes_split (as : List SignedBlock) (b : SignedBlock) (cs : List SignedBlock) :
    indexBytes codec (as ++ b :: cs) = indexBytes codec as ++
      (leBytes 8 (blockBytes codec as).length ++ words 8 (offsets codec.pack 8
        ((blockBytes codec as).length + (codec.pack b).length + 8) cs)) :=
  indexBytes_append as (b :: cs)

theorem indexBytes_snoc (bs : List SignedBlock) (b : SignedBlock) :
    indexBytes codec (bs ++ [b]) = indexBytes codec bs ++
      leBytes 8 (blockBytes codec bs).length := by
  rw [indexBytes_split]
  simp [offsets, words]

@[simp] theorem length_indexBytes (bs : List SignedBlock) :
    (indexBytes codec bs).length = 8 * bs.length := by
  simp [indexBytes]
  omega

theorem headPos_snoc (bs : List SignedBlock) (b : SignedBlock) :
    headPos codec (bs ++ [b]) = (blockBytes codec bs).length := by
  simp [headPos]

theorem Numbered.prefix_of (h : Numbered codec (as ++ cs)) : Numbered codec as where
  num := by
    intro xs b ys hsplit
    exact h.num xs b (ys ++ cs) (by simp [hsplit])
  size := by
    intro b hb
    exact h.size b (List.mem_append_left cs hb)
  inverts := by
    intro b hb
    exact h.inverts b (List.mem_append_left cs hb)

theorem Numbered.length_lt (h : Numbered codec bs) : bs.length < 2 ^ 32 := by
  rcases List.eq_nil_or_concat bs with rfl | ⟨init, b, rfl⟩
  · simp
  · have hnum := h.num init b [] (by simp)
    have hlt : b.blockNum < 2 ^ 32 := Nat.mod_lt _ (by omega)
    simp only [List.concat_eq_append, List.length_append, List.length_singleton]
    omega

/-- The next block keeps the numbers in order. -/
theorem Numbered.snoc (h : Numbered codec bs) (hnum : b.blockNum = bs.length + 1)
    (hsize : (codec.pack b).length ≤ chainBlockSize) (hinverts : codec.Inverts b) :
    Numbered codec (bs ++ [b]) where
  num := by
    intro xs c ys hsplit
    rcases List.eq_nil_or_concat ys with rfl | ⟨init, last, rfl⟩
    · obtain ⟨hbs, hb⟩ := List.append_inj' hsplit rfl
      rw [← hbs, ← List.singleton_inj.1 hb]
      exact hnum
    · have hinit : bs = xs ++ c :: init := by
        have hassoc : bs ++ [b] = (xs ++ c :: init) ++ [last] := by simpa using hsplit
        exact (List.append_inj' hassoc rfl).1
      exact h.num xs c init hinit
  size := by
    intro c hc
    rcases List.mem_append.1 hc with hc | hc
    · exact h.size c hc
    · rw [List.mem_singleton.1 hc]
      exact hsize
  inverts := by
    intro c hc
    rcases List.mem_append.1 hc with hc | hc
    · exact h.inverts c hc
    · rw [List.mem_singleton.1 hc]
      exact hinverts

/-- Every position of a numbered log fits in a word and is none but a position. -/
theorem Numbered.length_blockBytes_lt (h : Numbered codec bs) :
    (blockBytes codec bs).length < npos := by
  have hle := length_records_le codec.pack 8 h.size 0
  have hlen := h.length_lt
  have hmul : bs.length * (chainBlockSize + 8) ≤ 2 ^ 32 * (chainBlockSize + 8) :=
    Nat.mul_le_mul_right _ (by omega)
  have hbound : 2 ^ 32 * (chainBlockSize + 8) < npos := by
    unfold chainBlockSize blockInterval npos
    norm_num
  unfold blockBytes
  omega

theorem Numbered.position_lt (h : Numbered codec bs) : (blockBytes codec bs).length < 256 ^ 8 := by
  have hlt := h.length_blockBytes_lt
  have hbound : npos < 256 ^ 8 := by
    unfold npos
    norm_num
  omega

theorem length_blockBytes_mono (as cs : List SignedBlock) :
    (blockBytes codec as).length ≤ (blockBytes codec (as ++ cs)).length := by
  rw [blockBytes_append, List.length_append]
  omega

end Layout

/-! ## Reading complete records -/

theorem createNonexistFile_of_le {file : Bytes} (h : 8 ≤ file.length) :
    createNonexistFile (some file) = file := by
  cases file with
  | nil => simp at h
  | cons x file => rfl

/-- A file of records is not one that opening has created. -/
theorem eq_created_of_le {found : Option Bytes} (h : 8 ≤ (createNonexistFile found).length) :
    found = some (createNonexistFile found) := by
  match found with
  | none => simp [createNonexistFile] at h
  | some [] => simp [createNonexistFile] at h
  | some (x :: file) => rfl

theorem getMappedSize_of_le {file : Bytes} (h : 8 ≤ file.length) :
    getMappedSize file = file.length := by
  unfold getMappedSize
  rw [if_neg (by omega)]

theorem getUint64_at (before after : Bytes) {n : Nat} (h : n < 256 ^ 8) :
    getUint64 (before ++ (leBytes 8 n ++ after)) before.length = .ok n := by
  have hlen : before.length + 8 ≤ (before ++ (leBytes 8 n ++ after)).length := by
    simp only [List.length_append, length_leBytes]
    omega
  have hword : ((before ++ (leBytes 8 n ++ after)).drop before.length).take 8 = leBytes 8 n := by
    rw [List.drop_left]
    exact List.take_left' (length_leBytes 8 n)
  unfold getUint64
  rw [getMappedSize_of_le (by omega), hword, leNat_leBytes h]
  simp only [fcAssert_bind_eq_ok, pure_eq_ok, and_true]
  exact hlen

theorem getLastUint64_of_le {file : Bytes} (h : 8 ≤ file.length) :
    getLastUint64 file = .ok (leNat (file.drop (file.length - 8))) := by
  have hword : (file.drop (file.length - 8)).take 8 = file.drop (file.length - 8) := by
    apply List.take_of_length_le
    rw [List.length_drop]
    omega
  unfold getLastUint64
  rw [getMappedSize_of_le h, hword]
  simp only [fcAssert_bind_eq_ok, pure_eq_ok, and_true]
  exact h

theorem getLastUint64_at (before : Bytes) {n : Nat} (h : n < 256 ^ 8) :
    getLastUint64 (before ++ leBytes 8 n) = .ok n := by
  have hlen : (before ++ leBytes 8 n).length - 8 = before.length := by simp
  rw [getLastUint64_of_le (by simp), hlen, List.drop_left, leNat_leBytes h]

variable {codec}

/-- A record is read where it stands. -/
theorem readBlock_at (before after : Bytes) {b : SignedBlock} (hcodec : codec.Inverts b)
    (hsize : (codec.pack b).length ≤ chainBlockSize) (hpos : before.length < 256 ^ 8) :
    readBlock codec (before ++ (codec.pack b ++ (leBytes 8 before.length ++ after)))
      before.length = .ok (b, before.length + (codec.pack b).length + 8) := by
  set file := before ++ (codec.pack b ++ (leBytes 8 before.length ++ after)) with hfile
  have hlen : file.length = before.length + (codec.pack b).length + 8 + after.length := by
    simp only [hfile, List.length_append, length_leBytes]
    omega
  have hmapped : getMappedSize file = file.length := getMappedSize_of_le (by omega)
  have hunpack : codec.unpack ((file.drop before.length).take
      (min (getMappedSize file - before.length) chainBlockSize)) =
      some (b, (codec.pack b).length) := by
    rw [hmapped, hlen, hfile, List.drop_left, List.take_append,
      List.take_of_length_le (by omega)]
    exact hcodec.unpack _
  have hback : getUint64 file (before.length + (codec.pack b).length) = .ok before.length := by
    have hread := getUint64_at (before ++ codec.pack b) after hpos
    rw [List.append_assoc, List.length_append] at hread
    exact hread
  unfold readBlock
  simp only [bind_eq_ok, fcAssert_eq_ok, exists_const, hunpack, getOrThrow_eq_ok,
    Option.some.injEq, exists_eq_left', hback, Except.ok.injEq, pure_eq_ok, and_true]
  omega

/-- The log with the given blocks, their complete index and the last of them as head. -/
def complete (codec : BlockCodec) (env : Env) (file : Bytes) (bs : List SignedBlock) : BlockLog where
  blockFile := some file
  indexFile := some (indexBytes codec bs)
  isOpen := true
  head := bs.getLast?
  headId := (bs.getLast?.map (Db.blockId env)).getD ⟨0, 0⟩

/-- What the log lets its callers read: the blocks and the last of them as head. -/
def Reads (codec : BlockCodec) (s : BlockLog) (bs : List SignedBlock) : Prop :=
  s.head = bs.getLast? ∧
    ∀ num, s.readBlockByNum codec num = .ok (if 0 < num then bs[num - 1]? else none)

/-- An index file that ends in the head's position is kept. -/
def Kept (codec : BlockCodec) (index : Bytes) (bs : List SignedBlock) : Prop :=
  8 ≤ index.length ∧ leNat (index.drop (index.length - 8)) = headPos codec bs

instance (codec : BlockCodec) (index : Bytes) (bs : List SignedBlock) :
    Decidable (Kept codec index bs) :=
  inferInstanceAs (Decidable (_ ∧ _))

/-- The index of an open log whose index file was found as given. -/
def keptIndex (codec : BlockCodec) (found : Option Bytes) (bs : List SignedBlock) : Bytes :=
  match found with
  | none => indexBytes codec bs
  | some index => if Kept codec index bs then index else indexBytes codec bs

/-- An index file that is kept is the complete index. -/
def SoundIndex (codec : BlockCodec) (found : Option Bytes) (bs : List SignedBlock) : Prop :=
  ∀ index, found = some index → Kept codec index bs → index = indexBytes codec bs

theorem SoundIndex.keptIndex_eq {codec : BlockCodec} {found : Option Bytes}
    {bs : List SignedBlock} (h : SoundIndex codec found bs) :
    keptIndex codec found bs = indexBytes codec bs := by
  unfold keptIndex
  cases found with
  | none => rfl
  | some index =>
    by_cases hkept : Kept codec index bs
    · simp only [if_pos hkept]
      exact h index rfl hkept
    · simp only [if_neg hkept]

section Complete

variable {env} {s} {bs as cs : List SignedBlock} {b : SignedBlock} {rest : Bytes}

theorem readBlock_blockBytes (h : Numbered codec (as ++ b :: cs)) :
    readBlock codec (blockBytes codec (as ++ b :: cs) ++ rest) (blockBytes codec as).length =
      .ok (b, (blockBytes codec (as ++ [b])).length) := by
  have hread := readBlock_at (blockBytes codec as)
    (records codec.pack 8 ((blockBytes codec as).length + (codec.pack b).length + 8) cs ++ rest)
    (h.inverts b (by simp)) (h.size b (by simp)) h.prefix_of.position_lt
  rw [blockBytes_split, blockBytes_snoc]
  simp only [List.append_assoc, List.length_append, length_leBytes] at hread ⊢
  rw [hread]
  simp only [Nat.add_assoc]

/-- The walk writes the positions of the blocks that are left. -/
theorem indexLoop_blockBytes (hne : as ++ cs ≠ []) (h : Numbered codec (as ++ cs))
    {junk : Bytes} (hjunk : junk.length = 8 * cs.length) :
    indexLoop codec (blockBytes codec (as ++ cs) ++ rest) (headPos codec (as ++ cs))
      (blockBytes codec as).length (8 * as.length) (indexBytes codec as ++ junk) =
      .ok (indexBytes codec (as ++ cs)) := by
  induction cs generalizing as junk with
  | nil =>
    rw [List.append_nil] at hne
    have hjunk : junk = [] := List.eq_nil_of_length_eq_zero hjunk
    obtain ⟨init, last, rfl⟩ := (List.eq_nil_or_concat' as).resolve_left hne
    have hpast : ¬ (blockBytes codec (init ++ [last])).length ≤
        headPos codec (init ++ [last]) := by
      rw [headPos_snoc, blockBytes_snoc]
      simp only [List.length_append, length_leBytes]
      omega
    rw [List.append_nil, indexLoop, if_neg hpast, hjunk, List.append_nil]
  | cons c cs ih =>
    have hbefore : (blockBytes codec as).length ≤ headPos codec (as ++ c :: cs) := by
      unfold headPos
      rw [List.dropLast_append_of_ne_nil (by simp)]
      exact length_blockBytes_mono as _
    have hroom : 8 * as.length + 8 ≤ (indexBytes codec as ++ junk).length := by
      rw [List.length_append, length_indexBytes, hjunk, List.length_cons]
      omega
    obtain ⟨old, junk', hold, rfl⟩ : ∃ old junk', old.length = 8 ∧ junk = old ++ junk' := by
      refine ⟨junk.take 8, junk.drop 8, ?_, (List.take_append_drop 8 junk).symm⟩
      rw [List.length_take, hjunk, List.length_cons]
      omega
    have hwrite : overwrite (indexBytes codec as ++ (old ++ junk')) (8 * as.length)
        (leBytes 8 (blockBytes codec as).length) = indexBytes codec (as ++ [c]) ++ junk' := by
      have hlen : (indexBytes codec as).length = 8 * as.length := length_indexBytes as
      rw [← hlen, overwrite_append _ _ _ _ (by rw [hold, length_leBytes]), indexBytes_snoc,
        List.append_assoc]
    have hsplit : as ++ c :: cs = (as ++ [c]) ++ cs := by simp
    have hjunk' : junk'.length = 8 * cs.length := by
      rw [List.length_append, hold, List.length_cons] at hjunk
      omega
    have hnext := ih (by simp) (hsplit ▸ h) hjunk'
    rw [indexLoop, if_pos hbefore, if_pos hroom]
    split
    · rename_i e he
      rw [readBlock_blockBytes h] at he
      cases he
    · rename_i block next he
      rw [readBlock_blockBytes h] at he
      obtain ⟨-, rfl⟩ := Prod.mk.inj (Except.ok.inj he)
      rw [hwrite]
      rw [← hsplit, List.length_append, List.length_singleton, Nat.mul_add, Nat.mul_one] at hnext
      exact hnext

/-- The file ends in the last block's position and is read as the blocks. -/
structure Walkable (codec : BlockCodec) (file : Bytes) (bs : List SignedBlock) : Prop where
  records : 8 < file.length
  last : getLastUint64 file = .ok (headPos codec bs)
  read : ∀ as b cs, bs = as ++ b :: cs →
    ∃ next, readBlock codec file (blockBytes codec as).length = .ok (b, next)
  walk : ∀ junk, junk.length = 8 * bs.length →
    indexLoop codec file (headPos codec bs) 0 0 junk = .ok (indexBytes codec bs)

/-- A file of complete records whose last word leads to the last of them. -/
theorem walkable_records {file : Bytes} (hbytes : file = blockBytes codec bs ++ rest)
    (h : Numbered codec bs) (hne : bs ≠ [])
    (hlast : getLastUint64 file = .ok (headPos codec bs)) : Walkable codec file bs where
  records := by
    obtain ⟨init, last, rfl⟩ := (List.eq_nil_or_concat' bs).resolve_left hne
    have hpos := (h.inverts last (by simp)).nonempty
    rw [hbytes, blockBytes_snoc]
    simp only [List.length_append, length_leBytes]
    omega
  last := hlast
  read := by
    rintro as b cs rfl
    rw [hbytes]
    exact ⟨_, readBlock_blockBytes h⟩
  walk := by
    intro junk hjunk
    rw [hbytes]
    exact @indexLoop_blockBytes codec [] bs rest hne h junk hjunk

section Walkable

variable {file : Bytes} (hwalk : Walkable codec file (as ++ [b])) (h : Numbered codec (as ++ [b]))
include hwalk h

theorem constructIndex_complete (hopen : s.isOpen = true) (hfile : s.blockFile = some file)
    (hhead : s.head = some b) :
    s.constructIndex codec = .ok { s with indexFile := some (indexBytes codec (as ++ [b])) } := by
  have hmapped : s.blockMapped = file := by
    unfold blockMapped
    rw [if_pos hopen, hfile]
    rfl
  have hroom : (resize (createNonexistFile none) (b.blockNum * 8)).length =
      8 * (as ++ [b]).length := by
    rw [length_resize, h.num as b [] rfl, List.length_append, List.length_singleton, Nat.mul_comm]
  unfold constructIndex
  rw [hhead, hmapped, hwalk.last]
  simp only [getOrThrow, bind_eq_ok, Except.ok.injEq, exists_eq_left', hwalk.walk _ hroom,
    pure_eq_ok]

omit h in
theorem readHead_complete (hmapped : s.blockMapped = file) : s.readHead codec = .ok b := by
  obtain ⟨next, hread⟩ := hwalk.read as b [] rfl
  unfold readHead
  rw [hmapped, hwalk.last, headPos_snoc]
  simp only [bind_eq_ok, Except.ok.injEq, exists_eq_left', hread, pure_eq_ok]

/-- Opening finds the head at the end of the block file and keeps or rebuilds the index. -/
theorem openLog_complete (hfile : s.blockFile = some file) :
    s.openLog codec env = .ok { complete codec env file (as ++ [b]) with
      indexFile := some (keptIndex codec s.indexFile (as ++ [b])) } := by
  have hlen := hwalk.records
  have hcreate : createNonexistFile s.blockFile = file := by
    rw [hfile]
    exact createNonexistFile_of_le (by omega)
  unfold openLog
  rw [hcreate]
  set t : BlockLog := { s with isOpen := true, blockFile := some file,
                               indexFile := some (createNonexistFile s.indexFile) } with ht
  have hmapped : t.blockMapped = file := rfl
  have hrec : t.hasBlockRecords = true := by
    unfold hasBlockRecords
    rw [hmapped]
    exact decide_eq_true hlen
  have hhead := readHead_complete hwalk hmapped
  dsimp only
  rw [if_pos hrec, hhead]
  set u : BlockLog := { t with head := some b, headId := Db.blockId env b } with hu
  have hrebuild : u.constructIndex codec = .ok (complete codec env file (as ++ [b])) := by
    rw [constructIndex_complete hwalk h rfl rfl rfl]
    simp [complete, hu, ht]
  simp only [bind, Except.bind]
  by_cases hrecords : u.hasIndexRecords = true
  · set index := createNonexistFile s.indexFile with hcreated
    have hle : 8 ≤ index.length := of_decide_eq_true hrecords
    have hfound : s.indexFile = some index := eq_created_of_le hle
    have hindexLast : getLastUint64 u.indexMapped = .ok (leNat (index.drop (index.length - 8))) :=
      getLastUint64_of_le hle
    have hblockLast : getLastUint64 u.blockMapped = .ok (headPos codec (as ++ [b])) := hwalk.last
    rw [if_pos hrecords, hblockLast, hindexLast, hfound]
    dsimp only [keptIndex]
    by_cases hsame : headPos codec (as ++ [b]) = leNat (index.drop (index.length - 8))
    · have hkept : Kept codec index (as ++ [b]) := ⟨hle, hsame.symm⟩
      rw [if_neg (not_not_intro hsame), if_pos hkept]
      simp [complete, hu, ht, pure, Except.pure]
    · have hkept : ¬ Kept codec index (as ++ [b]) := fun hk => hsame hk.2.symm
      rw [if_pos hsame, if_neg hkept]
      exact hrebuild
  · have hkept : keptIndex codec s.indexFile (as ++ [b]) = indexBytes codec (as ++ [b]) := by
      apply SoundIndex.keptIndex_eq
      intro index hfound hk
      exfalso
      apply hrecords
      show decide (8 ≤ (createNonexistFile s.indexFile).length) = true
      rw [hfound, createNonexistFile_of_le hk.1]
      exact decide_eq_true hk.1
    rw [if_neg hrecords, hkept]
    exact hrebuild

end Walkable

theorem complete_headId (env : Env) (file : Bytes) (h : Numbered codec bs) (hne : bs ≠ []) :
    (complete codec env file bs).headId.num = bs.length := by
  obtain ⟨init, last, rfl⟩ := (List.eq_nil_or_concat' bs).resolve_left hne
  have hid : (complete codec env file (init ++ [last])).headId = Db.blockId env last := by
    simp [complete]
  have hnum : last.blockNum = init.length + 1 := h.num init last [] rfl
  rw [hid, List.length_append]
  exact hnum

theorem readBlockByNum_complete (env : Env) {file : Bytes}
    (hwalk : Walkable codec file (as ++ b :: cs)) (h : Numbered codec (as ++ b :: cs)) :
    (complete codec env file (as ++ b :: cs)).readBlockByNum codec (as.length + 1) =
      .ok (some b) := by
  have hid := complete_headId env file h (by simp)
  have hposition : (complete codec env file (as ++ b :: cs)).getBlockPos (as.length + 1) =
      .ok (blockBytes codec as).length := by
    unfold getBlockPos
    rw [if_pos ⟨by simp [complete], by rw [hid, List.length_append, List.length_cons]; omega,
      by omega⟩]
    show getUint64 (indexBytes codec (as ++ b :: cs)) (8 * as.length) = _
    rw [indexBytes_split, ← @length_indexBytes codec as]
    exact getUint64_at _ _ h.prefix_of.position_lt
  obtain ⟨next, hread⟩ := hwalk.read as b cs rfl
  have hvalid : (blockBytes codec as).length ≠ npos :=
    Nat.ne_of_lt h.prefix_of.length_blockBytes_lt
  have hmapped : (complete codec env file (as ++ b :: cs)).blockMapped = file := rfl
  unfold readBlockByNum
  rw [hposition]
  simp only [bind_eq_ok, Except.ok.injEq, exists_eq_left']
  rw [if_pos hvalid, hmapped, hread]
  simp only [bind_eq_ok, Except.ok.injEq, exists_eq_left', fcAssert_eq_ok, exists_const,
    pure_eq_ok, and_true]
  exact h.num as b cs rfl

/-- Without a head of at least that number nothing is read. -/
theorem readBlockByNum_outside {num : Nat} (h : s.head = none ∨ num = 0 ∨ s.headId.num < num) :
    s.readBlockByNum codec num = .ok none := by
  have hnone : s.getBlockPos num = .ok npos := by
    unfold getBlockPos
    rw [if_neg]
    rintro ⟨hhead, hle, hpos⟩
    rcases h with h | h | h
    · rw [h] at hhead
      cases hhead
    · omega
    · omega
  unfold readBlockByNum
  rw [hnone]
  simp [bind, Except.bind, pure, Except.pure]

/-- Every block of a complete log can be read by its number, and no other. -/
theorem complete_reads {file : Bytes} (hwalk : Walkable codec file bs) (h : Numbered codec bs)
    (hne : bs ≠ []) :
    Reads codec (complete codec env file bs) bs := by
  constructor
  · rfl
  · intro num
    by_cases hin : 0 < num ∧ num ≤ bs.length
    · obtain ⟨hpos, hle⟩ := hin
      rw [if_pos hpos]
      -- the block stands between those before it and those after it
      obtain ⟨as, b, cs, hsplit, hlen⟩ : ∃ as b cs, bs = as ++ b :: cs ∧ as.length = num - 1 := by
        refine ⟨bs.take (num - 1), bs[num - 1], bs.drop (num - 1 + 1), ?_, ?_⟩
        · rw [← List.drop_eq_getElem_cons, List.take_append_drop]
        · rw [List.length_take]
          omega
      have hread := readBlockByNum_complete env (hsplit ▸ hwalk) (hsplit ▸ h)
      have hlookup : bs[num - 1]? = some b := by
        rw [hsplit, ← hlen]
        simp
      rw [hlookup, hsplit]
      rw [hlen, Nat.sub_add_cancel hpos] at hread
      exact hread
    · have hnone : (if 0 < num then bs[num - 1]? else none) = none := by
        by_cases hpos : 0 < num
        · rw [if_pos hpos]
          apply List.getElem?_eq_none
          omega
        · rw [if_neg hpos]
      rw [hnone]
      apply readBlockByNum_outside
      have hid := complete_headId env file h hne
      omega

end Complete

end BlockLog

end VizCore.Chain
