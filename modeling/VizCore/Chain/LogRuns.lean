import VizCore.Chain.BlockLog

/-!
# Runs of the block log

Appends, closes and opens in any order, with the index file replaced between two openings,
and the process stopped in the middle of an append.

* `runLog_holds`: what is appended can be read again, as long as an index that is kept is
  the complete one;
* `Holds.recovers_iff`: after which effects of an append a stopped process finds its log again;
* `Reads.store`: the list of blocks in the store stands for the two files.
-/

namespace VizCore.Chain

open VizCore.Lib VizCore.Protocol

namespace BlockLog

/-- What may be done to a log; `reopenWith` finds the index file replaced. -/
inductive LogAct
  | append (b : SignedBlock)
  | close
  | reopen
  | reopenWith (found : Option Bytes)

def LogAct.apply (codec : BlockCodec) (env : Env) (s : BlockLog) : LogAct → Result BlockLog
  | .append b => s.append codec env b
  | .close => .ok s.close
  | .reopen => s.openLog codec env
  | .reopenWith found => ({ s with indexFile := found } : BlockLog).openLog codec env

def runLog (codec : BlockCodec) (env : Env) (acts : List LogAct) (s : BlockLog) :
    Result BlockLog :=
  acts.foldlM (LogAct.apply codec env) s

/-- The blocks that are appended. -/
def appended : List LogAct → List SignedBlock
  | [] => []
  | .append b :: acts => b :: appended acts
  | _ :: acts => appended acts

/-- Whether the log is open after the acts. -/
def openAfter (acts : List LogAct) (isOpen : Bool) : Bool :=
  acts.foldl (fun isOpen act =>
    match act with
    | .append _ => isOpen
    | .close => false
    | .reopen | .reopenWith _ => true) isOpen

/-- Acts on a log that holds `bs`: blocks are appended in the order of their numbers while
the log is open, and an index file that is found in place of the old one is `Admitted`. -/
def Orderly (codec : BlockCodec) (Admitted : Option Bytes → List SignedBlock → Prop) :
    Bool → List SignedBlock → List LogAct → Prop
  | _, _, [] => True
  | isOpen, bs, .append b :: acts =>
    isOpen = true ∧ b.blockNum = bs.length + 1 ∧ (codec.pack b).length ≤ chainBlockSize ∧
      Orderly codec Admitted isOpen (bs ++ [b]) acts
  | _, bs, .close :: acts => Orderly codec Admitted false bs acts
  | _, bs, .reopen :: acts => Orderly codec Admitted true bs acts
  | _, bs, .reopenWith found :: acts =>
    Admitted found bs ∧ Orderly codec Admitted true bs acts

/-! ## The states of a run -/

/-- The states of a log that the blocks were appended to. -/
inductive Holds (codec : BlockCodec) (env : Env) : Bool → BlockLog → List SignedBlock → Prop
  | opened {bs} (h : Numbered codec bs) (hne : bs ≠ []) :
    Holds codec env true (complete codec env (blockBytes codec bs) bs) bs
  | closed {bs} (h : Numbered codec bs) (hne : bs ≠ []) :
    Holds codec env false { blockFile := some (blockBytes codec bs)
                            indexFile := some (indexBytes codec bs) } bs
  | fresh {index} (h : index.length < 8) :
    Holds codec env true { blockFile := some [0], indexFile := some index, isOpen := true } []
  | unopened {blockFile indexFile} (hblock : blockFile = none ∨ blockFile = some [0])
    (hindex : ∀ index, indexFile = some index → index.length < 8) :
    Holds codec env false { blockFile := blockFile, indexFile := indexFile } []

section Runs

variable {codec : BlockCodec} {env : Env} {s : BlockLog} {bs : List SignedBlock} {b : SignedBlock}
variable {isOpen : Bool}

/-- A log without records is opened empty, whatever index is found. -/
theorem openLog_empty (hblock : s.blockFile = none ∨ s.blockFile = some [0])
    (hhead : s.head = none) (hid : s.headId = ⟨0, 0⟩) :
    ∃ s', s.openLog codec env = .ok s' ∧ Holds codec env true s' [] := by
  have hcreate : createNonexistFile s.blockFile = [0] := by
    rcases hblock with h | h <;> rw [h] <;> rfl
  unfold openLog
  rw [hcreate]
  set t : BlockLog := { s with isOpen := true, blockFile := some [0],
                               indexFile := some (createNonexistFile s.indexFile) } with ht
  have hrec : ¬ t.hasBlockRecords = true := by
    simp [hasBlockRecords, blockMapped, ht]
  dsimp only
  rw [if_neg hrec]
  by_cases hrecords : t.hasIndexRecords = true
  · rw [if_pos hrecords]
    refine ⟨_, rfl, ?_⟩
    simp only [ht, hhead, hid]
    exact .fresh (by simp [createNonexistFile])
  · rw [if_neg hrecords]
    refine ⟨_, rfl, ?_⟩
    simp only [ht, hhead, hid]
    apply Holds.fresh
    have hshort : ¬ 8 ≤ (createNonexistFile s.indexFile).length := by
      intro hle
      exact hrecords (decide_eq_true hle)
    omega

theorem walkable_blockBytes (h : Numbered codec bs) (hne : bs ≠ []) :
    Walkable codec (blockBytes codec bs) bs := by
  apply walkable_records (List.append_nil _).symm h hne
  obtain ⟨init, last, rfl⟩ := (List.eq_nil_or_concat' bs).resolve_left hne
  rw [blockBytes_snoc, ← List.append_assoc, headPos_snoc]
  exact getLastUint64_at _ h.prefix_of.position_lt

/-- A log of complete records is opened with all of them. -/
theorem openLog_numbered (h : Numbered codec bs) (hne : bs ≠ [])
    (hblock : s.blockFile = some (blockBytes codec bs)) :
    s.openLog codec env = .ok { complete codec env (blockBytes codec bs) bs with
      indexFile := some (keptIndex codec s.indexFile bs) } := by
  obtain ⟨init, last, rfl⟩ := (List.eq_nil_or_concat' bs).resolve_left hne
  exact openLog_complete (walkable_blockBytes h hne) h hblock

/-! ## The effects of an append -/

/-- The block file after the first effects of an append. -/
def blockStage (file before data : Bytes) : Nat → Bytes
  | 0 => file
  | 1 => before ++ (List.replicate data.length 0 ++ List.replicate 8 0)
  | 2 => before ++ (data ++ List.replicate 8 0)
  | _ => before ++ (data ++ leBytes 8 before.length)

/-- The index file after the first effects of an append. -/
def indexStage (index entries : Bytes) (pos : Nat) : Nat → Bytes
  | 0 | 1 | 2 | 3 => index
  | 4 => resize index (entries.length + 8)
  | _ => entries ++ leBytes 8 pos

/-- A file that holds `records`, or is too small to hold any. -/
structure Grows (file records : Bytes) : Prop where
  mapped : getMappedSize file = records.length
  resized : ∀ n, 8 ≤ n → ∃ junk, junk.length = n ∧ resize file (records.length + n) = records ++ junk

theorem grows_records {file : Bytes} (h : 8 ≤ file.length) : Grows file file where
  mapped := getMappedSize_of_le h
  resized := by
    intro n _
    exact ⟨List.replicate n 0, List.length_replicate, resize_append file n⟩

theorem grows_short {file : Bytes} (h : file.length < 8) : Grows file [] where
  mapped := if_pos h
  resized := by
    intro n _
    exact ⟨resize file n, length_resize file n, by simp⟩

theorem overwrite_tail (before old data : Bytes) (h : old.length = data.length) :
    overwrite (before ++ old) before.length data = before ++ data := by
  have hwrite := overwrite_append before old data [] h
  rw [List.append_nil, List.append_nil] at hwrite
  exact hwrite

theorem afterEffects_take {file index before entries data : Bytes} (i : Nat)
    (hopen : s.isOpen = true) (hblock : s.blockFile = some file)
    (hindex : s.indexFile = some index) (hentries : Grows index entries)
    (hmapped : getMappedSize file = before.length)
    (hzero : ∀ n, 8 ≤ n → resize file (before.length + n) = before ++ List.replicate n 0) :
    s.afterEffects data (appendEffects.take i) =
      { s with blockFile := some (blockStage file before data i)
               indexFile := some (indexStage index entries before.length i) } := by
  have hblockMapped : s.blockMapped = file := by
    unfold blockMapped
    rw [if_pos hopen, hblock]
    rfl
  have hindexMapped : s.indexMapped = index := by
    unfold indexMapped
    rw [if_pos hopen, hindex]
    rfl
  have hone : resize file (before.length + data.length + 8) =
      before ++ (List.replicate data.length 0 ++ List.replicate 8 0) := by
    rw [Nat.add_assoc, hzero _ (by omega), List.replicate_append_replicate]
  have htwo : overwrite (before ++ (List.replicate data.length 0 ++ List.replicate 8 0))
      before.length data = before ++ (data ++ List.replicate 8 0) :=
    overwrite_append _ _ _ _ List.length_replicate
  have hthree : overwrite (before ++ (data ++ List.replicate 8 0)) (before.length + data.length)
      (leBytes 8 before.length) = before ++ (data ++ leBytes 8 before.length) := by
    rw [← List.length_append, ← List.append_assoc, ← List.append_assoc]
    exact overwrite_tail _ _ _ (by simp)
  have hfive : overwrite (resize index (entries.length + 8)) entries.length
      (leBytes 8 before.length) = entries ++ leBytes 8 before.length := by
    obtain ⟨junk, hlen, hjunk⟩ := hentries.resized 8 (Nat.le_refl 8)
    rw [hjunk]
    exact overwrite_tail _ _ _ (by rw [hlen, length_leBytes])
  unfold afterEffects
  rw [hblockMapped, hindexMapped, hmapped, hentries.mapped]
  match i with
  | 0 =>
    simp only [List.take_zero, List.foldl_nil, blockStage, indexStage, ← hblock, ← hindex]
  | 1 =>
    simp only [appendEffects, List.take_succ_cons, List.take_zero, List.foldl_cons, List.foldl_nil,
      AppendEffect.apply, blockStage, indexStage, hblock, hindex, Option.map_some, hone]
  | 2 =>
    simp only [appendEffects, List.take_succ_cons, List.take_zero, List.foldl_cons, List.foldl_nil,
      AppendEffect.apply, blockStage, indexStage, hblock, hindex, Option.map_some, hone, htwo]
  | 3 =>
    simp only [appendEffects, List.take_succ_cons, List.take_zero, List.foldl_cons, List.foldl_nil,
      AppendEffect.apply, blockStage, indexStage, hblock, hindex, Option.map_some, hone, htwo,
      hthree]
  | 4 =>
    simp only [appendEffects, List.take_succ_cons, List.take_zero, List.foldl_cons, List.foldl_nil,
      AppendEffect.apply, blockStage, indexStage, hblock, hindex, Option.map_some, hone, htwo,
      hthree]
  | i + 5 =>
    simp only [appendEffects, List.take_succ_cons, List.take_nil, List.foldl_cons, List.foldl_nil,
      AppendEffect.apply, blockStage, indexStage, hblock, hindex, Option.map_some, hone, htwo,
      hthree, hfive]

theorem resize_zero (n : Nat) (h : 8 ≤ n) : resize [0] n = List.replicate n 0 := by
  obtain ⟨m, rfl⟩ : ∃ m, n = m + 1 := ⟨n - 1, by omega⟩
  simp [resize, List.replicate_succ]

theorem Holds.numbered (h : Holds codec env isOpen s bs) : Numbered codec bs := by
  have hnil : Numbered codec [] := ⟨by simp, by simp, by simp⟩
  cases h with
  | opened h _ => exact h
  | closed h _ => exact h
  | fresh _ => exact hnil
  | unopened _ _ => exact hnil

/-- The files of an open log can be appended to. -/
theorem Holds.files (h : Holds codec env true s bs) :
    s.isOpen = true ∧ ∃ file index, s.blockFile = some file ∧ s.indexFile = some index ∧
      Grows index (indexBytes codec bs) ∧
      getMappedSize file = (blockBytes codec bs).length ∧
      ∀ n, 8 ≤ n → resize file ((blockBytes codec bs).length + n) =
        blockBytes codec bs ++ List.replicate n 0 := by
  cases h with
  | opened h hne =>
    have hpos : 0 < bs.length := List.length_pos_iff.2 hne
    have hindex : 8 ≤ (indexBytes codec bs).length := by
      rw [length_indexBytes]
      omega
    have hblock := (walkable_blockBytes h hne).records
    refine ⟨rfl, _, _, rfl, rfl, grows_records hindex, getMappedSize_of_le (by omega), ?_⟩
    intro n _
    exact resize_append _ n
  | fresh h =>
    refine ⟨rfl, _, _, rfl, rfl, grows_short h, rfl, ?_⟩
    intro n hn
    show resize [0] (0 + n) = List.replicate n 0
    rw [Nat.zero_add]
    exact resize_zero n hn

theorem Holds.append (h : Holds codec env true s bs) (hnum : b.blockNum = bs.length + 1)
    (hsize : (codec.pack b).length ≤ chainBlockSize) (hinverts : codec.Inverts b) :
    ∃ s', s.append codec env b = .ok s' ∧ Holds codec env true s' (bs ++ [b]) := by
  obtain ⟨hopen, file, index, hblock, hindex, hgrows, hmapped, hzero⟩ := h.files
  have hnumbered : Numbered codec (bs ++ [b]) := h.numbered.snoc hnum hsize hinverts
  have hlt : b.blockNum < 2 ^ 32 := Nat.mod_lt _ (by omega)
  have hindexMapped : s.indexMapped = index := by
    unfold indexMapped
    rw [if_pos hopen, hindex]
    rfl
  have hplace : getMappedSize s.indexMapped = 8 * ((b.blockNum + (2 ^ 32 - 1)) % 2 ^ 32) := by
    rw [hindexMapped, hgrows.mapped, length_indexBytes]
    omega
  have hall : s.afterEffects (codec.pack b) appendEffects = { s with
      blockFile := some (blockBytes codec (bs ++ [b]))
      indexFile := some (indexBytes codec (bs ++ [b])) } := by
    rw [blockBytes_snoc, indexBytes_snoc]
    exact afterEffects_take 5 hopen hblock hindex hgrows hmapped hzero
  have hstate : s.append codec env b =
      .ok (complete codec env (blockBytes codec (bs ++ [b])) (bs ++ [b])) := by
    unfold BlockLog.append
    rw [hall]
    simp only [fcAssert_bind_eq_ok, pure_eq_ok]
    exact ⟨hplace, hopen, by simp [complete, hopen]⟩
  exact ⟨_, hstate, .opened hnumbered (by simp)⟩

/-- An index file that was cut or filled up in the middle of an entry is not taken for
another one: its last eight bytes are the missing entry. -/
theorem soundIndex_entries (hn : Numbered codec (bs ++ [b])) {junk : Bytes}
    (hjunk : junk.length = 8) :
    SoundIndex codec (some (indexBytes codec bs ++ junk)) (bs ++ [b]) := by
  intro index hfound hkept
  obtain rfl := Option.some.inj hfound
  have hlast := hkept.2
  rw [List.length_append, hjunk, Nat.add_sub_cancel, List.drop_left, headPos_snoc] at hlast
  rw [indexBytes_snoc, ← hlast, ← hjunk, leBytes_leNat]

theorem soundIndex_complete : SoundIndex codec (some (indexBytes codec bs)) bs := by
  intro index hfound _
  exact (Option.some.inj hfound).symm

theorem soundIndex_short {found : Option Bytes}
    (h : ∀ index, found = some index → index.length < 8) : SoundIndex codec found bs := by
  intro index hfound hkept
  have hlen := h index hfound
  have hle := hkept.1
  omega

theorem openLog_sound (h : Numbered codec bs) (hne : bs ≠ [])
    (hblock : s.blockFile = some (blockBytes codec bs)) (hsound : SoundIndex codec s.indexFile bs) :
    s.openLog codec env = .ok (complete codec env (blockBytes codec bs) bs) := by
  rw [openLog_numbered h hne hblock, hsound.keptIndex_eq]
  rfl

/-! ## Whole runs -/

theorem Holds.close (h : Holds codec env isOpen s bs) : Holds codec env false s.close bs := by
  cases h with
  | opened h hne => exact .closed h hne
  | closed h hne => exact .closed h hne
  | fresh h =>
    apply Holds.unopened (.inr rfl)
    intro index hindex
    obtain rfl := Option.some.inj hindex
    exact h
  | unopened hblock hindex => exact .unopened hblock hindex

/-- The log is opened again with the index that is found. -/
theorem Holds.reopenWith (h : Holds codec env isOpen s bs) {found : Option Bytes}
    (hfound : bs ≠ [] → SoundIndex codec found bs) :
    ∃ s', ({ s with indexFile := found } : BlockLog).openLog codec env = .ok s' ∧
      Holds codec env true s' bs := by
  cases h with
  | opened h hne => exact ⟨_, openLog_sound h hne rfl (hfound hne), .opened h hne⟩
  | closed h hne => exact ⟨_, openLog_sound h hne rfl (hfound hne), .opened h hne⟩
  | fresh _ => exact openLog_empty (.inr rfl) rfl rfl
  | unopened hblock _ => exact openLog_empty hblock rfl rfl

/-- The index that a run has left is the complete one, or too short to hold an entry. -/
theorem Holds.soundIndex (h : Holds codec env isOpen s bs) (hne : bs ≠ []) :
    SoundIndex codec s.indexFile bs := by
  cases h with
  | opened _ _ => exact soundIndex_complete
  | closed _ _ => exact soundIndex_complete
  | fresh _ => exact absurd rfl hne
  | unopened _ _ => exact absurd rfl hne

theorem Holds.isOpen_eq (h : Holds codec env isOpen s bs) : s.isOpen = isOpen := by
  cases h <;> rfl

/-- What an open log was given can be read from it. -/
theorem Holds.reads (h : Holds codec env true s bs) : Reads codec s bs := by
  cases h with
  | opened h hne => exact complete_reads (walkable_blockBytes h hne) h hne
  | fresh _ =>
    constructor
    · rfl
    · intro num
      rw [readBlockByNum_outside (.inl rfl)]
      simp

theorem Holds.indexFile_eq (h : Holds codec env true s bs) (hne : bs ≠ []) :
    s.indexFile = some (indexBytes codec bs) := by
  cases h with
  | opened _ _ => rfl
  | fresh _ => exact absurd rfl hne

/-- Rebuilding the index of an open log changes nothing. -/
theorem Holds.constructIndex (h : Holds codec env true s bs) (hne : bs ≠ []) :
    s.constructIndex codec = .ok s := by
  cases h with
  | opened h _ =>
    obtain ⟨init, last, rfl⟩ := (List.eq_nil_or_concat' bs).resolve_left hne
    rw [constructIndex_complete (walkable_blockBytes h hne) h rfl rfl (by simp [complete])]
    rfl
  | fresh _ => exact absurd rfl hne

/-- The list of blocks that stands for the log in the node's store reads the same. -/
theorem Reads.store {store : Store} (h : Reads codec s store.blockLog) (num : Nat) :
    s.readBlockByNum codec num = .ok (store.readBlockByNum num) := h.2 num

/-- An index file that is kept is the complete index, once there are blocks. -/
def SoundOnceUsed (codec : BlockCodec) (found : Option Bytes) (bs : List SignedBlock) : Prop :=
  bs ≠ [] → SoundIndex codec found bs

theorem runLog_holds (acts : List LogAct) (h : Holds codec env isOpen s bs)
    (hcodec : ∀ b ∈ appended acts, codec.Inverts b)
    (hacts : Orderly codec (SoundOnceUsed codec) isOpen bs acts) :
    ∃ s', runLog codec env acts s = .ok s' ∧
      Holds codec env (openAfter acts isOpen) s' (bs ++ appended acts) := by
  induction acts generalizing isOpen s bs with
  | nil => exact ⟨s, rfl, by simpa [appended, openAfter] using h⟩
  | cons act acts ih =>
    cases act with
    | append b =>
      obtain ⟨rfl, hnum, hsize, hrest⟩ := hacts
      obtain ⟨t, ht, hholds⟩ := h.append hnum hsize (hcodec b (by simp [appended]))
      obtain ⟨s', hrun, hs'⟩ := ih hholds
        (fun c hc => hcodec c (List.mem_cons_of_mem b hc)) hrest
      refine ⟨s', ?_, ?_⟩
      · unfold runLog at hrun ⊢
        rw [List.foldlM_cons]
        show s.append codec env b >>= _ = _
        rw [ht]
        exact hrun
      · rw [List.append_assoc] at hs'
        exact hs'
    | close =>
      obtain ⟨s', hrun, hs'⟩ := ih h.close hcodec hacts
      exact ⟨s', hrun, hs'⟩
    | reopen =>
      obtain ⟨t, ht, hholds⟩ := h.reopenWith h.soundIndex
      obtain ⟨s', hrun, hs'⟩ := ih hholds hcodec hacts
      refine ⟨s', ?_, hs'⟩
      unfold runLog at hrun ⊢
      rw [List.foldlM_cons]
      show s.openLog codec env >>= _ = _
      rw [ht]
      exact hrun
    | reopenWith found =>
      obtain ⟨hfound, hrest⟩ := hacts
      obtain ⟨t, ht, hholds⟩ := h.reopenWith hfound
      obtain ⟨s', hrun, hs'⟩ := ih hholds hcodec hrest
      refine ⟨s', ?_, hs'⟩
      unfold runLog at hrun ⊢
      rw [List.foldlM_cons]
      show ({ s with indexFile := found } : BlockLog).openLog codec env >>= _ = _
      rw [ht]
      exact hrun

/-- Appending in order while the log is open is orderly. -/
theorem orderly_appends_then {Admitted : Option Bytes → List SignedBlock → Prop}
    {acts : List LogAct} (cs : List SignedBlock) (h : Numbered codec (bs ++ cs))
    (hacts : Orderly codec Admitted true (bs ++ cs) acts) :
    Orderly codec Admitted true bs (cs.map .append ++ acts) := by
  induction cs generalizing bs with
  | nil => simpa using hacts
  | cons c cs ih =>
    have hassoc : (bs ++ [c]) ++ cs = bs ++ c :: cs := by simp
    exact ⟨rfl, h.num bs c cs rfl, h.size c (by simp), ih (hassoc ▸ h) (hassoc ▸ hacts)⟩

theorem appended_map (cs : List SignedBlock) : appended (cs.map .append) = cs := by
  induction cs with
  | nil => rfl
  | cons c cs ih =>
    show c :: appended (cs.map .append) = c :: cs
    rw [ih]

theorem openAfter_map (cs : List SignedBlock) : openAfter (cs.map .append) true = true := by
  induction cs with
  | nil => rfl
  | cons c cs ih => exact ih

/-- A run of the log returns, and an open log then gives back what was appended, with the
index that appends alone would have produced. -/
def RoundTrips (codec : BlockCodec) (env : Env) (acts : List LogAct) : Prop :=
  ∃ s, runLog codec env acts {} = .ok s ∧ s.isOpen = openAfter acts false ∧
    (s.isOpen = true → Reads codec s (appended acts) ∧ (appended acts ≠ [] →
      ∃ s₀ s', runLog codec env (.reopen :: (appended acts).map .append) {} = .ok s₀ ∧
        s.constructIndex codec = .ok s' ∧ s'.indexFile = s₀.indexFile))

theorem blockLog_roundTrips (acts : List LogAct) (hcodec : ∀ b ∈ appended acts, codec.Inverts b)
    (hacts : Orderly codec (SoundOnceUsed codec) false [] acts) : RoundTrips codec env acts := by
  have hnew : Holds codec env false {} [] := .unopened (.inl rfl) (by simp)
  obtain ⟨s, hrun, hs⟩ := runLog_holds acts hnew hcodec hacts
  rw [List.nil_append] at hs
  refine ⟨s, hrun, hs.isOpen_eq, ?_⟩
  intro hopen
  rw [← hs.isOpen_eq, hopen] at hs
  refine ⟨hs.reads, ?_⟩
  intro hne
  -- the same blocks appended one after the other
  have hplain : Orderly codec (SoundOnceUsed codec) false []
      (.reopen :: (appended acts).map .append) := by
    have horder := @orderly_appends_then codec [] (SoundOnceUsed codec) [] (appended acts)
      hs.numbered trivial
    rwa [List.append_nil] at horder
  obtain ⟨s₀, hrun₀, hs₀⟩ := runLog_holds _ hnew
    (by
      intro b hb
      have hmem : b ∈ appended ((appended acts).map .append) := hb
      rw [appended_map] at hmem
      exact hcodec b hmem) hplain
  have hs₀ : Holds codec env true s₀ (appended acts) := by
    have hblocks : appended (.reopen :: (appended acts).map .append) = appended acts :=
      appended_map _
    have hstill : openAfter (.reopen :: (appended acts).map .append) false = true :=
      openAfter_map _
    rw [hblocks, hstill] at hs₀
    exact hs₀
  refine ⟨s₀, s, hrun₀, hs.constructIndex hne, ?_⟩
  rw [hs.indexFile_eq hne, hs₀.indexFile_eq hne]

/-! ## Appends that are not finished -/

/-- The zero bytes of a new file of the block's size unpack to the block. -/
def ZerosUnpackTo (codec : BlockCodec) (b : SignedBlock) : Prop :=
  ∃ n ≤ (codec.pack b).length,
    codec.unpack (List.replicate (min ((codec.pack b).length + 8) chainBlockSize) 0) = some (b, n)

/-- What the first effects of an append of `b` leave behind is opened as a log of `bs` or of
`bs` and `b`. -/
def Recovers (codec : BlockCodec) (env : Env) (s : BlockLog) (bs : List SignedBlock)
    (b : SignedBlock) (i : Nat) : Prop :=
  ∃ s', (s.afterEffects (codec.pack b) (appendEffects.take i)).close.openLog codec env = .ok s' ∧
    (Reads codec s' bs ∨ Reads codec s' (bs ++ [b]))

section Crash

variable {file index : Bytes} {i : Nat}

/-- With the block and its position in place the append counts, whatever became of the index. -/
theorem recovers_written (hn : Numbered codec (bs ++ [b]))
    (hblock : s.blockFile = some (blockBytes codec (bs ++ [b])))
    (hindex : SoundIndex codec s.indexFile (bs ++ [b])) :
    ∃ s', s.openLog codec env = .ok s' ∧ Reads codec s' (bs ++ [b]) :=
  ⟨_, openLog_sound hn (by simp) hblock hindex,
    complete_reads (walkable_blockBytes hn (by simp)) hn (by simp)⟩

/-- The old index does not end in the new block's position. -/
theorem soundIndex_old (hn : Numbered codec (bs ++ [b])) (hne : bs ≠ []) :
    SoundIndex codec (some (indexBytes codec bs)) (bs ++ [b]) := by
  intro index hfound hkept
  exfalso
  obtain rfl := Option.some.inj hfound
  obtain ⟨init, last, rfl⟩ := (List.eq_nil_or_concat' bs).resolve_left hne
  have hlast := hkept.2
  have hdrop : (indexBytes codec init ++ leBytes 8 (blockBytes codec init).length).length - 8 =
      (indexBytes codec init).length := by simp
  rw [headPos_snoc, indexBytes_snoc, hdrop, List.drop_left,
    leNat_leBytes hn.prefix_of.prefix_of.position_lt, blockBytes_snoc] at hlast
  simp only [List.length_append, length_leBytes] at hlast
  omega

theorem getLastUint64_zeros (before : Bytes) :
    getLastUint64 (before ++ List.replicate 8 0) = .ok 0 := by
  rw [← leBytes_zero 8]
  exact getLastUint64_at before (by norm_num)

/-- A file that ends in zeros is opened as the log of its first block. -/
theorem walkable_first {c : SignedBlock} {cs : List SignedBlock} {tail : Bytes}
    (hn : Numbered codec (c :: cs)) :
    Walkable codec (blockBytes codec (c :: cs) ++ (tail ++ List.replicate 8 0)) [c] := by
  have hsplit := @blockBytes_append codec [c] cs
  have hone : Numbered codec [c] := @Numbered.prefix_of codec [c] cs hn
  rw [List.singleton_append] at hsplit
  rw [hsplit, List.append_assoc]
  apply walkable_records rfl hone (by simp)
  rw [← List.append_assoc, ← List.append_assoc]
  exact getLastUint64_zeros _

/-- What is opened has the head that was read. -/
theorem openLog_head {s' : BlockLog} (hfile : s.blockFile = some file) (hlen : 8 < file.length)
    (h : s.openLog codec env = .ok s') :
    ∃ pos next c, getLastUint64 file = .ok pos ∧ readBlock codec file pos = .ok (c, next) ∧
      s'.head = some c := by
  have hcreate : createNonexistFile s.blockFile = file := by
    rw [hfile]
    exact createNonexistFile_of_le (by omega)
  have hkeeps : ∀ t : BlockLog, t.constructIndex codec = .ok s' → s'.head = t.head := by
    intro t ht
    unfold BlockLog.constructIndex at ht
    simp only [bind_eq_ok, pure_eq_ok] at ht
    obtain ⟨_, _, _, _, _, _, rfl⟩ := ht
    rfl
  unfold openLog at h
  rw [hcreate] at h
  dsimp only at h
  have hrec : ({ s with isOpen := true, blockFile := some file,
                        indexFile := some (createNonexistFile s.indexFile) } :
      BlockLog).hasBlockRecords = true := decide_eq_true hlen
  rw [if_pos hrec] at h
  simp only [bind_eq_ok] at h
  obtain ⟨c, hhead, h⟩ := h
  unfold readHead at hhead
  simp only [bind_eq_ok, pure_eq_ok, Prod.exists] at hhead
  obtain ⟨pos, hpos, c', next, hread, rfl⟩ := hhead
  refine ⟨pos, next, c', hpos, hread, ?_⟩
  split at h
  · simp only [bind_eq_ok] at h
    obtain ⟨_, _, _, _, h⟩ := h
    split at h
    · exact hkeeps _ h
    · simp only [pure_eq_ok] at h
      rw [← h]
  · exact hkeeps _ h

/-- The first block is all that is found when the file ends in zeros. -/
theorem openLog_first {c : SignedBlock} {cs : List SignedBlock} {tail : Bytes}
    (hn : Numbered codec (c :: cs))
    (hfile : s.blockFile = some (blockBytes codec (c :: cs) ++ (tail ++ List.replicate 8 0))) :
    s.openLog codec env = .ok { complete codec env
        (blockBytes codec (c :: cs) ++ (tail ++ List.replicate 8 0)) [c] with
      indexFile := some (keptIndex codec s.indexFile [c]) } :=
  @openLog_complete codec env s [] c _ (walkable_first hn) (@Numbered.prefix_of codec [c] cs hn) hfile

/-- So a log of two blocks or more is lost but for the first. -/
theorem recovers_first_iff {c : SignedBlock} {cs : List SignedBlock} {tail : Bytes}
    (hn : Numbered codec (c :: cs ++ [b]))
    (hfile : s.blockFile = some (blockBytes codec (c :: cs) ++ (tail ++ List.replicate 8 0)))
    (hindex : s.indexFile = some (indexBytes codec (c :: cs))) :
    (∃ s', s.openLog codec env = .ok s' ∧
      (Reads codec s' (c :: cs) ∨ Reads codec s' (c :: cs ++ [b]))) ↔ cs = [] := by
  have hold : Numbered codec (c :: cs) := hn.prefix_of
  have hopen : s.openLog codec env = .ok { complete codec env
        (blockBytes codec (c :: cs) ++ (tail ++ List.replicate 8 0)) [c] with
      indexFile := some (keptIndex codec s.indexFile [c]) } := openLog_first hold hfile
  constructor
  · rintro ⟨s', hs', hreads⟩
    rw [hopen] at hs'
    obtain rfl := Except.ok.inj hs'
    have hfirst : c.blockNum = 1 := hold.num [] c cs rfl
    by_contra hne
    rcases hreads with hreads | hreads
    · have hhead : some c = (c :: cs).getLast? := hreads.1
      obtain ⟨init, last, rfl⟩ := (List.eq_nil_or_concat' cs).resolve_left hne
      rw [← List.cons_append, List.getLast?_concat] at hhead
      have hlast := hold.num (c :: init) last [] rfl
      rw [← Option.some.inj hhead, hfirst] at hlast
      simp at hlast
    · have hhead : some c = (c :: cs ++ [b]).getLast? := hreads.1
      rw [List.getLast?_concat] at hhead
      have hlast := hn.num (c :: cs) b [] rfl
      rw [← Option.some.inj hhead, hfirst] at hlast
      simp at hlast
  · rintro rfl
    have hkept : keptIndex codec s.indexFile [c] = indexBytes codec [c] := by
      rw [hindex]
      exact soundIndex_complete.keptIndex_eq
    rw [hkept] at hopen
    exact ⟨_, hopen, .inl (complete_reads (walkable_first hold) hold (by simp))⟩

/-- A file of zeros is read from its beginning as the zeros unpack. -/
theorem readBlock_zeros {c : SignedBlock} {size next : Nat} (hsize : 0 < size) :
    readBlock codec (List.replicate (size + 8) 0) 0 = .ok (c, next) ↔
      ∃ n ≤ size, codec.unpack (List.replicate (min (size + 8) chainBlockSize) 0) = some (c, n) ∧
        next = n + 8 := by
  have hmapped : getMappedSize (List.replicate (size + 8) 0) = size + 8 := by
    rw [getMappedSize_of_le (by rw [List.length_replicate]; omega), List.length_replicate]
  have hback : ∀ n, getUint64 (List.replicate (size + 8) 0) n = .ok 0 ↔ n ≤ size := by
    intro n
    constructor
    · intro hget
      unfold getUint64 at hget
      rw [fcAssert_bind_eq_ok, hmapped] at hget
      omega
    · intro hn
      have hsplit : List.replicate (size + 8) (0 : UInt8) =
          List.replicate n 0 ++ (leBytes 8 0 ++ List.replicate (size - n) 0) := by
        rw [leBytes_zero, List.replicate_append_replicate, List.replicate_append_replicate]
        congr 1
        omega
      have hget := getUint64_at (List.replicate n 0) (List.replicate (size - n) 0)
        (show 0 < 256 ^ 8 by norm_num)
      rw [← hsplit, List.length_replicate] at hget
      exact hget
  unfold readBlock
  rw [hmapped]
  simp only [bind_eq_ok, fcAssert_eq_ok, exists_const, getOrThrow_eq_ok, Prod.exists, pure_eq_ok,
    Prod.mk.injEq, List.drop_zero, Nat.sub_zero, List.take_replicate, Nat.zero_add]
  constructor
  · rintro ⟨_, c', n, hunpack, back, hget, rfl, rfl, rfl⟩
    refine ⟨n, (hback n).1 hget, ?_, rfl⟩
    rw [← hunpack]
    congr 2
    omega
  · rintro ⟨n, hle, hunpack, rfl⟩
    refine ⟨by omega, c, n, ?_, 0, (hback n).2 hle, rfl, rfl, rfl⟩
    rw [← hunpack]
    congr 2
    omega

theorem walkable_zeros (hn : Numbered codec [b]) (hzeros : ZerosUnpackTo codec b) :
    Walkable codec (List.replicate ((codec.pack b).length + 8) 0) [b] := by
  obtain ⟨n, hle, hunpack⟩ := hzeros
  have hpos := (hn.inverts b (by simp)).nonempty
  have hread : readBlock codec (List.replicate ((codec.pack b).length + 8) 0) 0 =
      .ok (b, n + 8) := (readBlock_zeros hpos).2 ⟨n, hle, hunpack, rfl⟩
  constructor
  · rw [List.length_replicate]
    omega
  · rw [← List.replicate_append_replicate]
    exact getLastUint64_zeros _
  · intro as c cs hsplit
    obtain ⟨rfl, hrest⟩ : as = [] ∧ [b] = c :: cs := by
      cases as with
      | nil => exact ⟨rfl, hsplit⟩
      | cons a as => simp at hsplit
    obtain ⟨rfl, -⟩ := List.cons.inj hrest
    exact ⟨_, hread⟩
  · intro junk hjunk
    have hroom : 0 + 8 ≤ junk.length := by
      rw [hjunk]
      simp
    have hstop : ¬ n + 8 ≤ headPos codec [b] := Nat.not_succ_le_zero _
    have hwrite : overwrite junk 0 (leBytes 8 0) = leBytes 8 0 :=
      overwrite_tail [] junk (leBytes 8 0) (by rw [hjunk, length_leBytes]; rfl)
    rw [indexLoop, if_pos (Nat.zero_le _), if_pos hroom]
    split
    · rename_i e he
      rw [hread] at he
      cases he
    · rename_i c next he
      rw [hread] at he
      obtain ⟨-, rfl⟩ := Prod.mk.inj (Except.ok.inj he)
      rw [indexLoop, if_neg hstop, hwrite]
      rfl

/-- The first append, stopped before its data are copied. -/
theorem recovers_zeros_iff (hn : Numbered codec [b])
    (hfile : s.blockFile = some (List.replicate ((codec.pack b).length + 8) 0))
    (hindex : ∀ index, s.indexFile = some index → index.length < 8) :
    (∃ s', s.openLog codec env = .ok s' ∧ (Reads codec s' [] ∨ Reads codec s' [b])) ↔
      ZerosUnpackTo codec b := by
  have hpos := (hn.inverts b (by simp)).nonempty
  constructor
  · rintro ⟨s', hopen, hreads⟩
    obtain ⟨pos, next, c, hlast, hread, hhead⟩ := openLog_head hfile
      (by rw [List.length_replicate]; omega) hopen
    have hzero : pos = 0 := by
      rw [← List.replicate_append_replicate, getLastUint64_zeros] at hlast
      exact (Except.ok.inj hlast).symm
    rw [hzero] at hread
    obtain ⟨n, hle, hunpack, -⟩ := (readBlock_zeros hpos).1 hread
    rcases hreads with hreads | hreads
    · have hnone := hreads.1
      rw [hhead] at hnone
      cases hnone
    · have hsome := hreads.1
      rw [hhead] at hsome
      obtain rfl : c = b := Option.some.inj hsome
      exact ⟨n, hle, hunpack⟩
  · intro hzeros
    have hwalk := walkable_zeros hn hzeros
    have hopen := @openLog_complete codec env s [] b _ hwalk hn hfile
    rw [(soundIndex_short hindex).keptIndex_eq] at hopen
    exact ⟨_, hopen, .inr (complete_reads hwalk hn (by simp))⟩

/-- The append was not stopped between the resize of the block file and the write of the
position, or there is one block, or there is none and what the file holds is the new one. -/
def Survives (codec : BlockCodec) (bs : List SignedBlock) (b : SignedBlock) (i : Nat) : Prop :=
  i ≠ 1 ∧ i ≠ 2 ∨ bs.length = 1 ∨ bs = [] ∧ (i = 2 ∨ ZerosUnpackTo codec b)

/-- Once the position is written, the index that is left is no obstacle. -/
theorem Holds.soundIndex_stage (h : Holds codec env true s bs) (hn : Numbered codec (bs ++ [b]))
    (hindex : s.indexFile = some index) (hgrows : Grows index (indexBytes codec bs))
    (hi : 3 ≤ i) :
    SoundIndex codec (some (indexStage index (indexBytes codec bs) (blockBytes codec bs).length i))
      (bs ++ [b]) := by
  match i, hi with
  | 3, _ =>
    show SoundIndex codec (some index) (bs ++ [b])
    rw [← hindex]
    cases h with
    | opened _ hne => exact soundIndex_old hn hne
    | fresh hshort =>
      apply soundIndex_short
      intro found hfound
      obtain rfl := Option.some.inj hfound
      exact hshort
  | 4, _ =>
    obtain ⟨junk, hlen, hresize⟩ := hgrows.resized 8 (Nat.le_refl 8)
    show SoundIndex codec (some (resize index ((indexBytes codec bs).length + 8))) (bs ++ [b])
    rw [hresize]
    exact soundIndex_entries hn hlen
  | i + 5, _ =>
    show SoundIndex codec (some (indexBytes codec bs ++ leBytes 8 _)) (bs ++ [b])
    rw [← indexBytes_snoc]
    exact soundIndex_complete

theorem survives_cons_iff {c : SignedBlock} {cs : List SignedBlock} (hi : i = 1 ∨ i = 2) :
    Survives codec (c :: cs) b i ↔ cs = [] := by
  unfold Survives
  constructor
  · rintro (⟨hone, htwo⟩ | hlen | ⟨hnil, -⟩)
    · omega
    · simpa using hlen
    · cases hnil
  · rintro rfl
    exact .inr (.inl rfl)

theorem Holds.recovers_iff (h : Holds codec env true s bs) (hnum : b.blockNum = bs.length + 1)
    (hsize : (codec.pack b).length ≤ chainBlockSize) (hinverts : codec.Inverts b) (i : Nat) :
    Recovers codec env s bs b i ↔ Survives codec bs b i := by
  obtain ⟨hopen, file, index, hblock, hindex, hgrows, hmapped, hzero⟩ := h.files
  have hn : Numbered codec (bs ++ [b]) := h.numbered.snoc hnum hsize hinverts
  have hstage : s.afterEffects (codec.pack b) (appendEffects.take i) =
      { s with blockFile := some (blockStage file (blockBytes codec bs) (codec.pack b) i)
               indexFile := some (indexStage index (indexBytes codec bs)
                 (blockBytes codec bs).length i) } :=
    afterEffects_take i hopen hblock hindex hgrows hmapped hzero
  have hshort : bs = [] → ∀ found, some index = some found → found.length < 8 := by
    rintro rfl found hfound
    rw [← Option.some.inj hfound]
    cases h with
    | opened _ hne => exact absurd rfl hne
    | fresh hlen =>
      rw [← Option.some.inj hindex]
      exact hlen
  have hcomplete : bs ≠ [] → some index = some (indexBytes codec bs) := by
    intro hne
    rw [← hindex]
    exact h.indexFile_eq hne
  unfold Recovers
  rw [hstage]
  match i with
  | 0 =>
    have hsame : ({ s with blockFile := some file, indexFile := some index } : BlockLog) = s := by
      rw [← hblock, ← hindex]
    have hsurvives : Survives codec bs b 0 := .inl (by omega)
    refine iff_of_true ?_ hsurvives
    obtain ⟨s', hs', hholds⟩ := h.close.reopenWith h.close.soundIndex
    refine ⟨s', ?_, .inl hholds.reads⟩
    show ({ s with blockFile := some file, indexFile := some index } :
      BlockLog).close.openLog codec env = .ok s'
    rw [hsame]
    exact hs'
  | 1 =>
    cases bs with
    | nil =>
      have hsurvives : Survives codec [] b 1 ↔ ZerosUnpackTo codec b := by
        unfold Survives
        simp
      rw [hsurvives]
      apply recovers_zeros_iff hn
      · show some ([] ++ (List.replicate _ 0 ++ List.replicate 8 0)) = _
        rw [List.nil_append, List.replicate_append_replicate]
      · exact hshort rfl
    | cons c cs =>
      rw [survives_cons_iff (.inl rfl)]
      exact recovers_first_iff hn rfl (hcomplete (by simp))
  | 2 =>
    cases bs with
    | nil =>
      have hsurvives : Survives codec [] b 2 := .inr (.inr ⟨rfl, .inl rfl⟩)
      refine iff_of_true ?_ hsurvives
      have hfile : blockStage file (blockBytes codec []) (codec.pack b) 2 =
          blockBytes codec ([] ++ [b]) := by
        rw [blockBytes_snoc]
        show _ ++ (_ ++ List.replicate 8 0) = _ ++ (_ ++ leBytes 8 0)
        rw [leBytes_zero]
      obtain ⟨s', hs', hreads⟩ := @recovers_written codec env
        ({ s with blockFile := some (blockStage file (blockBytes codec []) (codec.pack b) 2)
                  indexFile := some index } : BlockLog).close [] b hn
        (congrArg some hfile) (soundIndex_short (hshort rfl))
      exact ⟨s', hs', .inr hreads⟩
    | cons c cs =>
      rw [survives_cons_iff (.inr rfl)]
      exact recovers_first_iff hn rfl (hcomplete (by simp))
  | i + 3 =>
    have hsurvives : Survives codec bs b (i + 3) := .inl (by omega)
    refine iff_of_true ?_ hsurvives
    have hfile : blockStage file (blockBytes codec bs) (codec.pack b) (i + 3) =
        blockBytes codec (bs ++ [b]) := (blockBytes_snoc bs b).symm
    obtain ⟨s', hs', hreads⟩ := @recovers_written codec env
      ({ s with blockFile := some (blockStage file (blockBytes codec bs) (codec.pack b) (i + 3))
                indexFile := some (indexStage index (indexBytes codec bs)
                  (blockBytes codec bs).length (i + 3)) } : BlockLog).close bs b hn
      (congrArg some hfile) (h.soundIndex_stage hn hindex hgrows (by omega))
    exact ⟨s', hs', .inr hreads⟩

theorem crashed_append_recovers_iff (acts : List LogAct) (b : SignedBlock) (i : Nat)
    (hcodec : ∀ c ∈ appended acts ++ [b], codec.Inverts c)
    (hacts : Orderly codec (SoundOnceUsed codec) false [] acts)
    (hopen : openAfter acts false = true) (hrun : runLog codec env acts {} = .ok s)
    (hnum : b.blockNum = (appended acts).length + 1)
    (hsize : (codec.pack b).length ≤ chainBlockSize) :
    Recovers codec env s (appended acts) b i ↔ Survives codec (appended acts) b i := by
  have hnew : Holds codec env false {} [] := .unopened (.inl rfl) (by simp)
  obtain ⟨s', hrun', hs'⟩ := runLog_holds acts hnew
    (fun c hc => hcodec c (List.mem_append_left [b] hc)) hacts
  rw [hrun] at hrun'
  obtain rfl := Except.ok.inj hrun'
  rw [List.nil_append, hopen] at hs'
  exact hs'.recovers_iff hnum hsize (hcodec b (by simp)) i

end Crash

end Runs

/-! ## A log of blocks without transactions -/

/-- The first bytes of a stream and what is left of it. -/
def cut (n : Nat) (bytes : Bytes) : Bytes × Bytes := (bytes.take n, bytes.drop n)

@[simp] theorem cut_append (bytes rest : Bytes) (n : Nat) (h : bytes.length = n) :
    cut n (bytes ++ rest) = (bytes, rest) := by
  unfold cut
  rw [List.take_left' h, List.drop_left' h]

@[simp] theorem cut_zero (bytes : Bytes) : cut 0 bytes = ([], bytes) := rfl

@[simp] theorem cut_cons (n : Nat) (x : UInt8) (bytes : Bytes) :
    cut (n + 1) (x :: bytes) = (x :: (cut n bytes).1, (cut n bytes).2) := rfl

/-- The name as it is packed: its length and its letters. -/
def aliceBytes : Bytes := [5, 97, 108, 105, 99, 101]

/-- `fc::raw` on the blocks of one witness, without header extensions and transactions:
the previous id, the time, the name, the merkle root, the number of extensions, the
signature and the number of transactions. -/
def plainCodec : BlockCodec where
  pack b := (leBytes 4 b.previous.num).reverse ++ (leBytes 16 b.previous.hash ++
    (leBytes 4 b.timestamp ++ (aliceBytes ++ (leBytes 20 b.transactionMerkleRoot ++
      ([0] ++ (leBytes 65 b.witnessSignature ++ [0]))))))
  unpack bytes :=
    let (num, bytes) := cut 4 bytes
    let (hash, bytes) := cut 16 bytes
    let (time, bytes) := cut 4 bytes
    let (name, bytes) := cut 6 bytes
    let (root, bytes) := cut 20 bytes
    let (extensions, bytes) := cut 1 bytes
    let (signature, bytes) := cut 65 bytes
    let (transactions, _) := cut 1 bytes
    if name = aliceBytes ∧ extensions = [0] ∧ transactions = [0] then
      some ({ previous := ⟨leNat num.reverse, leNat hash⟩, timestamp := leNat time,
              witness := "alice", transactionMerkleRoot := leNat root, extensions := [],
              witnessSignature := leNat signature, transactions := [] }, 117)
    else none

/-- The block number `k + 1` of a chain of empty blocks. -/
def plainBlock (k : Nat) : SignedBlock where
  previous := ⟨k, 0⟩
  timestamp := 3 * (k + 1)
  witness := "alice"
  transactionMerkleRoot := 0
  extensions := []
  witnessSignature := 0
  transactions := []

theorem length_pack_plainBlock (k : Nat) : (plainCodec.pack (plainBlock k)).length = 117 := by
  simp [plainCodec, aliceBytes]

theorem plainCodec_inverts {k : Nat} (h : k < 2 ^ 30) : plainCodec.Inverts (plainBlock k) where
  nonempty := by
    rw [length_pack_plainBlock]
    omega
  unpack := by
    intro rest
    have hnum : leNat (leBytes 4 k) = k := leNat_leBytes (by omega)
    have hhash : leNat (leBytes 16 0) = 0 := leNat_leBytes (by norm_num)
    have htime : leNat (leBytes 4 (3 * (k + 1))) = 3 * (k + 1) := leNat_leBytes (by omega)
    have hroot : leNat (leBytes 20 0) = 0 := leNat_leBytes (by norm_num)
    have hsignature : leNat (leBytes 65 0) = 0 := leNat_leBytes (by norm_num)
    rw [length_pack_plainBlock]
    simp [plainCodec, plainBlock, aliceBytes, hnum, hhash, htime, hroot, hsignature]

def plainBlocks (n : Nat) : List SignedBlock := (List.range n).map plainBlock

theorem plainBlocks_succ (n : Nat) : plainBlocks (n + 1) = plainBlocks n ++ [plainBlock n] := by
  simp [plainBlocks, List.range_succ]

theorem plainBlocks_numbered (n : Nat) (h : n < 2 ^ 30) : Numbered plainCodec (plainBlocks n) := by
  induction n with
  | zero => exact ⟨by simp [plainBlocks], by simp [plainBlocks], by simp [plainBlocks]⟩
  | succ n ih =>
    rw [plainBlocks_succ]
    apply (ih (by omega)).snoc
    · have hnum : (plainBlock n).blockNum = (n + 1) % 2 ^ 32 := rfl
      have hlen : (plainBlocks n).length = n := by simp [plainBlocks]
      rw [hnum, hlen]
      omega
    · rw [length_pack_plainBlock]
      unfold chainBlockSize blockInterval
      omega
    · exact plainCodec_inverts (by omega)

theorem length_blockBytes_plain (n : Nat) :
    (blockBytes plainCodec (plainBlocks n)).length = n * 125 := by
  induction n with
  | zero => rfl
  | succ n ih =>
    rw [plainBlocks_succ, blockBytes_snoc]
    simp only [List.length_append, length_leBytes, length_pack_plainBlock, ih]
    omega

/-- What is found of the index is missing or the beginning of it. -/
def ShortIndex (codec : BlockCodec) (found : Option Bytes) (bs : List SignedBlock) : Prop :=
  ∀ index, found = some index → index <+: indexBytes codec bs

/-- Appends to a new log, after which the given index file is found. -/
def appendsThenFinds (bs : List SignedBlock) (found : Option Bytes) : List LogAct :=
  .reopen :: (bs.map .append ++ [.close, .reopenWith found])

section Script

variable {codec : BlockCodec} {bs : List SignedBlock} {found : Option Bytes}

theorem appendsThenFinds_orderly {Admitted : Option Bytes → List SignedBlock → Prop}
    (h : Numbered codec bs) (hfound : Admitted found bs) :
    Orderly codec Admitted false [] (appendsThenFinds bs found) :=
  orderly_appends_then bs h ⟨hfound, trivial⟩

theorem appended_appendsThenFinds : appended (appendsThenFinds bs found) = bs := by
  show appended (bs.map .append ++ _) = bs
  induction bs with
  | nil => rfl
  | cons b bs ih =>
    show b :: appended (bs.map .append ++ _) = b :: bs
    rw [ih]

/-- The run ends with the index file that was found, if that file is kept. -/
theorem runLog_appendsThenFinds {env : Env} (h : Numbered codec bs) (hne : bs ≠ []) :
    runLog codec env (appendsThenFinds bs found) {} =
      .ok { complete codec env (blockBytes codec bs) bs with
        indexFile := some (keptIndex codec found bs) } := by
  have hnew : Holds codec env false {} [] := .unopened (.inl rfl) (by simp)
  have horder : Orderly codec (SoundOnceUsed codec) false [] (.reopen :: bs.map .append) :=
    by
    have horder := @orderly_appends_then codec [] (SoundOnceUsed codec) [] bs h trivial
    rwa [List.append_nil] at horder
  obtain ⟨s, hrun, hs⟩ := runLog_holds _ hnew
    (by
      intro b hb
      have hmem : b ∈ appended (bs.map .append) := hb
      rw [appended_map] at hmem
      exact h.inverts b hmem) horder
  have hholds : Holds codec env true s bs := by
    have hblocks : appended (.reopen :: bs.map .append) = bs := appended_map _
    have hstill : openAfter (.reopen :: bs.map .append) false = true := openAfter_map _
    rw [hblocks, hstill] at hs
    exact hs
  have hfile : s.blockFile = some (blockBytes codec bs) := by
    cases hholds with
    | opened _ _ => rfl
    | fresh _ => exact absurd rfl hne
  have hsplit : appendsThenFinds bs found =
      (.reopen :: bs.map .append) ++ [.close, .reopenWith found] := rfl
  unfold runLog at hrun ⊢
  rw [hsplit, List.foldlM_append, hrun]
  have hopen : ({ s.close with indexFile := found } : BlockLog).openLog codec env =
      .ok { complete codec env (blockBytes codec bs) bs with
        indexFile := some (keptIndex codec found bs) } := openLog_numbered h hne hfile
  show (({ s.close with indexFile := found } : BlockLog).openLog codec env >>= pure) = _
  rw [hopen]
  rfl

theorem keptIndex_of_kept {index : Bytes} (h : Kept codec index bs) :
    keptIndex codec (some index) bs = index := if_pos h

/-- A block without an entry in the index cannot be read. -/
theorem readBlockByNum_beyond {env : Env} {file index : Bytes} {num : Nat} (h : Numbered codec bs)
    (hne : bs ≠ []) (hpos : 0 < num) (hle : num ≤ bs.length) (hshort : index.length < 8 * num) :
    ∃ e, ({ complete codec env file bs with indexFile := some index } : BlockLog).readBlockByNum
      codec num = .error e := by
  have hid := complete_headId env file h hne
  have hhead : (complete codec env file bs).head.isSome = true := by
    show bs.getLast?.isSome = true
    rw [List.getLast?_isSome]
    exact hne
  have hassert : ¬ 8 * (num - 1) + 8 ≤ getMappedSize index := by
    unfold getMappedSize
    split <;> omega
  have hin : num ≤ (complete codec env file bs).headId.num := by omega
  unfold readBlockByNum getBlockPos
  rw [if_pos ⟨hhead, hin, hpos⟩]
  show ∃ e, (getUint64 index (8 * (num - 1)) >>= _) = .error e
  unfold getUint64 fcAssert require
  rw [if_neg hassert]
  exact ⟨_, rfl⟩

end Script

theorem blockLog_roundTrips_plain :
    RoundTrips plainCodec smallEnv (appendsThenFinds (plainBlocks 2) none) := by
  have hnumbered := plainBlocks_numbered 2 (by norm_num)
  apply blockLog_roundTrips
  · rw [appended_appendsThenFinds]
    exact hnumbered.inverts
  · apply appendsThenFinds_orderly hnumbered
    intro _ index hfound
    cases hfound

/-- A log with one block recovers from a stop after the block file was resized. -/
theorem crashed_append_recovers_plain :
    Recovers plainCodec smallEnv
      (complete plainCodec smallEnv (blockBytes plainCodec (plainBlocks 1)) (plainBlocks 1))
      (plainBlocks 1) (plainBlock 1) 1 := by
  have hnumbered := plainBlocks_numbered 1 (by norm_num)
  have hnext : Numbered plainCodec (plainBlocks 1 ++ [plainBlock 1]) := by
    rw [← plainBlocks_succ]
    exact plainBlocks_numbered 2 (by norm_num)
  have happended : appended (appendsThenFinds (plainBlocks 1) none) = plainBlocks 1 :=
    appended_appendsThenFinds
  have hrun := @runLog_appendsThenFinds plainCodec (plainBlocks 1) none smallEnv hnumbered
    (by simp [plainBlocks])
  have hiff := crashed_append_recovers_iff (appendsThenFinds (plainBlocks 1) none) (plainBlock 1) 1
    (by
      rw [happended]
      exact hnext.inverts)
    (appendsThenFinds_orderly hnumbered (by
      intro _ index hfound
      cases hfound))
    rfl hrun rfl
    (by
      rw [length_pack_plainBlock]
      unfold chainBlockSize blockInterval
      omega)
  rw [happended] at hiff
  exact hiff.2 (.inr (.inl rfl))

/-- A log of two blocks does not. -/
theorem crashed_append_loses_block :
    ¬ ∀ (codec : BlockCodec) (env : Env) (acts : List LogAct) (s : BlockLog) (b : SignedBlock)
      (i : Nat), (∀ c ∈ appended acts ++ [b], codec.Inverts c) →
      Orderly codec (SoundOnceUsed codec) false [] acts → openAfter acts false = true →
      runLog codec env acts {} = .ok s → b.blockNum = (appended acts).length + 1 →
      (codec.pack b).length ≤ chainBlockSize → Recovers codec env s (appended acts) b i := by
  intro hall
  have hnumbered := plainBlocks_numbered 2 (by norm_num)
  have hnext : Numbered plainCodec (plainBlocks 2 ++ [plainBlock 2]) := by
    rw [← plainBlocks_succ]
    exact plainBlocks_numbered 3 (by norm_num)
  have hne : plainBlocks 2 ≠ [] := by simp [plainBlocks]
  have hsize : (plainCodec.pack (plainBlock 2)).length ≤ chainBlockSize := hnext.size _ (by simp)
  have happended : appended (appendsThenFinds (plainBlocks 2) none) = plainBlocks 2 :=
    appended_appendsThenFinds
  have hrecovers := hall plainCodec smallEnv (appendsThenFinds (plainBlocks 2) none) _ (plainBlock 2)
    1
    (by
      rw [happended]
      exact hnext.inverts)
    (appendsThenFinds_orderly hnumbered (by
      intro _ index hfound
      cases hfound))
    rfl (runLog_appendsThenFinds hnumbered hne) rfl hsize
  rw [happended] at hrecovers
  have hholds : Holds plainCodec smallEnv true
      (complete plainCodec smallEnv (blockBytes plainCodec (plainBlocks 2)) (plainBlocks 2))
      (plainBlocks 2) := .opened hnumbered hne
  have hsurvives := (hholds.recovers_iff rfl hsize (hnext.inverts _ (by simp)) 1).1 hrecovers
  have hlost := (@survives_cons_iff plainCodec (plainBlock 2) 1 (plainBlock 0) [plainBlock 1]
    (.inl rfl)).1 hsurvives
  cases hlost

/-- An index that was cut to 15 bytes ends in the 257th block's position and is kept. -/
theorem shortIndex_kept :
    Kept plainCodec ((indexBytes plainCodec (plainBlocks 257)).take 15) (plainBlocks 257) := by
  have htwo : plainBlocks 257 = [plainBlock 0] ++ plainBlock 1 ::
      (List.range 255).map fun k => plainBlock (k + 2) := by
    unfold plainBlocks
    rw [List.range_succ_eq_map, List.range_succ_eq_map]
    simp only [List.map_cons, List.map_map, List.singleton_append]
    rfl
  have hfirst : indexBytes plainCodec [plainBlock 0] = leBytes 8 0 := rfl
  have hlength : (blockBytes plainCodec [plainBlock 0]).length = 125 := length_blockBytes_plain 1
  have hindex : (indexBytes plainCodec (plainBlocks 257)).take 15 =
      [0, 0, 0, 0, 0, 0, 0, 0, 125, 0, 0, 0, 0, 0, 0] := by
    rw [htwo, indexBytes_split, hfirst, hlength, ← List.append_assoc, List.take_append_of_le_length]
    · rfl
    · simp
  have hhead : headPos plainCodec (plainBlocks 257) = 256 * 125 := by
    rw [plainBlocks_succ, headPos_snoc, length_blockBytes_plain]
  rw [hindex]
  constructor
  · decide
  · rw [hhead]
    decide

theorem shortIndex_breaks_roundTrip :
    ¬ ∀ (codec : BlockCodec) (env : Env) (acts : List LogAct),
      (∀ b ∈ appended acts, codec.Inverts b) → Orderly codec (ShortIndex codec) false [] acts →
      RoundTrips codec env acts := by
  intro hall
  have hnumbered := plainBlocks_numbered 257 (by norm_num)
  have hlen : (plainBlocks 257).length = 257 := by simp [plainBlocks]
  have hkept := shortIndex_kept
  generalize plainBlocks 257 = bs at hnumbered hlen hkept
  have hne : bs ≠ [] := by
    rintro rfl
    cases hlen
  set index := (indexBytes plainCodec bs).take 15 with hindex
  obtain ⟨s, hrun, hopen, hs⟩ := hall plainCodec smallEnv (appendsThenFinds bs (some index))
    (by
      rw [appended_appendsThenFinds]
      exact hnumbered.inverts)
    (by
      apply appendsThenFinds_orderly hnumbered
      intro found hfound
      obtain rfl := Option.some.inj hfound
      exact List.take_prefix _ _)
  rw [runLog_appendsThenFinds hnumbered hne, keptIndex_of_kept hkept] at hrun
  obtain rfl := Except.ok.inj hrun
  -- the third entry is not in the file
  have hread := ((hs rfl).1).2 3
  have hshort : index.length < 8 * 3 := by
    rw [hindex, List.length_take]
    omega
  obtain ⟨e, herror⟩ := readBlockByNum_beyond hnumbered hne (by omega) (by omega) hshort
  rw [herror] at hread
  cases hread

end BlockLog

end VizCore.Chain
