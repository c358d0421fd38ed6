import VizCore.Lib.Bytes
import VizCore.Network.Node
import VizCore.Protocol.AccountNames
import VizCore.Chain.Store

/-!
# Messages on a connection

How a message is written to the stream of a connection, and how the peer reads it.

* `readLoop_sent`: what is sent and small enough is delivered, in order;
* `readLoop_oversized`: a larger message closes the connection;
* `blockMessage_delivered_iff`: which blocks of the chain can be sent.
-/

namespace VizCore.Network.Wire

open VizCore.Lib VizCore.Protocol VizCore.Chain

/-- `MAX_MESSAGE_SIZE` -/
def maxMessageSize : Nat := 1024 * 1024 * 2

/-- `message` -/
structure Message where
  size : Nat
  msgType : Nat
  data : Bytes

/-- `message(const T &)`, of what `T` is packed to. -/
def Message.pack (msgType : Nat) (data : Bytes) : Message := ⟨data.length % 2 ^ 32, msgType, data⟩

/-- `message_header`, as it is in memory. -/
def Message.header (m : Message) : Bytes := leBytes 4 m.size ++ leBytes 4 m.msgType

/-- `send_message`: the message is padded with what the buffer held before. -/
def sendMessage (fill : Nat → UInt8) (m : Message) : Bytes :=
  let sizeWithPadding := 16 * ((8 + m.size + 15) / 16)
  m.header ++ (m.data.take m.size ++ (List.range (sizeWithPadding - (8 + m.size))).map fill)

/-- One turn of the loop: it waits for more bytes, has read a message, or has thrown. -/
inductive Received
  | waiting
  | message (m : Message) (rest : Bytes)
  | failed

/-- `read_loop`, up to the delegate. -/
def readMessage (stream : Bytes) : Received :=
  if stream.length < 16 then .waiting
  else
    let buffer := stream.take 16
    let size := leNat (buffer.take 4)
    let msgType := leNat ((buffer.drop 4).take 4)
    if maxMessageSize < size then .failed
    else
      let remaining := 16 * ((size + 7) / 16)
      if (stream.drop 16).length < remaining then .waiting
      else
        .message
          ⟨size, msgType, resize (buffer.drop 8 ++ (stream.drop 16).take remaining) size⟩
          ((stream.drop 16).drop remaining)

theorem readMessage_lt {stream rest : Bytes} {m : Message}
    (h : readMessage stream = .message m rest) : rest.length < stream.length := by
  unfold readMessage at h
  split at h
  · cases h
  · rename_i hlong
    dsimp only at h
    split at h
    · cases h
    · split at h
      · cases h
      · cases h
        rw [List.length_drop, List.length_drop]
        omega

/-- How the loop stands after a stream. -/
inductive LoopEnd
  | reading
  | closed
  deriving DecidableEq

/-- `read_loop`: the messages that the delegate gets; it throws at those it does not accept. -/
def readLoop (accepts : Message → Bool) (stream : Bytes) : List Message × LoopEnd :=
  match h : readMessage stream with
  | .waiting => ([], .reading)
  | .failed => ([], .closed)
  | .message m rest =>
    if accepts m then
      let (ms, last) := readLoop accepts rest
      (m :: ms, last)
    else ([m], .closed)
termination_by stream.length
decreasing_by exact readMessage_lt h

/-! ## What is sent is read -/

/-- A message as the constructor makes it. -/
structure Message.WellFormed (m : Message) : Prop where
  size : m.size = m.data.length
  small : m.size < 256 ^ 4
  msgType : m.msgType < 256 ^ 4

@[simp] theorem Message.length_header (m : Message) : m.header.length = 8 := by
  unfold Message.header
  rw [List.length_append, length_leBytes, length_leBytes]

section Sent

variable {fill : Nat → UInt8} {m : Message} {rest : Bytes}

theorem length_sendMessage (h : m.WellFormed) :
    (sendMessage fill m).length = 16 + 16 * ((m.size + 7) / 16) := by
  have hsize := h.size
  unfold sendMessage
  rw [List.length_append, List.length_append, List.length_map, List.length_range,
    List.length_take, Message.length_header]
  omega

theorem header_size (h : m.WellFormed) (tail : Bytes) :
    leNat (((m.header ++ tail).take 16).take 4) = m.size := by
  have htake : ((m.header ++ tail).take 16).take 4 = leBytes 4 m.size := by
    unfold Message.header
    rw [List.take_take, List.append_assoc]
    exact List.take_left' (length_leBytes 4 m.size)
  rw [htake, leNat_leBytes h.small]

theorem header_msgType (h : m.WellFormed) (tail : Bytes) :
    leNat ((((m.header ++ tail).take 16).drop 4).take 4) = m.msgType := by
  have htake : (((m.header ++ tail).take 16).drop 4).take 4 = leBytes 4 m.msgType := by
    unfold Message.header
    rw [List.drop_take, List.take_take, List.append_assoc, List.drop_left' (length_leBytes 4 _)]
    exact List.take_left' (length_leBytes 4 m.msgType)
  rw [htake, leNat_leBytes h.msgType]

/-- What follows the header in the bytes that are read. -/
theorem body_of_sent (n : Nat) (tail : Bytes) :
    ((m.header ++ tail).take 16).drop 8 ++ ((m.header ++ tail).drop 16).take n =
      tail.take (8 + n) := by
  have htail : (m.header ++ tail).drop 16 = tail.drop 8 := by
    rw [List.drop_append, Message.length_header, List.drop_of_length_le (by simp), List.nil_append]
  rw [List.drop_take, List.drop_left' m.length_header, htail, ← List.take_add]

/-- **A message** that is sent is read, and nothing else. -/
theorem readMessage_sendMessage (h : m.WellFormed) (hsize : m.size ≤ maxMessageSize) :
    readMessage (sendMessage fill m ++ rest) = .message m rest := by
  have hlength : (sendMessage fill m).length = _ := length_sendMessage h
  have hdata := h.size
  set tail := m.data.take m.size ++ (List.range (16 * ((8 + m.size + 15) / 16) - (8 + m.size))).map
    fill with htail
  have hsent : sendMessage fill m = m.header ++ tail := rfl
  have hall : (sendMessage fill m ++ rest).length = 16 + 16 * ((m.size + 7) / 16) + rest.length := by
    rw [List.length_append, hlength]
  have hbody : (tail ++ rest).take (8 + 16 * ((m.size + 7) / 16)) = tail := by
    apply List.take_left'
    rw [hsent, List.length_append, Message.length_header] at hlength
    omega
  have hcut : resize tail m.size = m.data := by
    unfold resize
    have hle : m.size - tail.length = 0 := by
      rw [htail, List.length_append, List.length_take]
      omega
    rw [hle, List.replicate_zero, List.append_nil, htail, List.take_append, List.take_take,
      List.length_take, Nat.min_self]
    rw [List.take_of_length_le (by omega), hdata, Nat.min_self, Nat.sub_self, List.take_zero,
      List.append_nil]
  have hrest : ((sendMessage fill m ++ rest).drop 16).drop (16 * ((m.size + 7) / 16)) = rest := by
    rw [List.drop_drop]
    exact List.drop_left' hlength
  have hstream : m.header ++ (tail ++ rest) = sendMessage fill m ++ rest := by
    rw [hsent]
    exact (List.append_assoc _ _ _).symm
  have hheader := header_size h (tail ++ rest)
  have htype := header_msgType h (tail ++ rest)
  have hread := body_of_sent (m := m) (16 * ((m.size + 7) / 16)) (tail ++ rest)
  rw [hstream] at hheader htype hread
  unfold readMessage
  rw [if_neg (by omega)]
  dsimp only
  rw [hheader, htype, if_neg (by omega), hread, hbody, hcut, hrest, if_neg]
  rw [List.length_drop, hall]
  omega

/-- A larger message is not read. -/
theorem readMessage_oversized (h : m.WellFormed) (hsize : maxMessageSize < m.size) :
    readMessage (sendMessage fill m ++ rest) = .failed := by
  have hlength : (sendMessage fill m).length = _ := length_sendMessage h
  unfold readMessage
  rw [if_neg (by rw [List.length_append, hlength]; omega)]
  dsimp only
  unfold sendMessage
  rw [List.append_assoc, header_size h, if_pos hsize]

/-! ## Whole streams -/

variable {accepts : Message → Bool}

/-- **Messages** that are small enough are delivered in order, as long as the delegate accepts
them. -/
theorem readLoop_sent {before : List Message} (hbefore : ∀ m ∈ before, m.WellFormed ∧
    m.size ≤ maxMessageSize ∧ accepts m = true) :
    readLoop accepts (before.flatMap (sendMessage fill) ++ rest) =
      (before ++ (readLoop accepts rest).1, (readLoop accepts rest).2) := by
  induction before with
  | nil => rfl
  | cons m before ih =>
    obtain ⟨hwell, hsize, haccepts⟩ := hbefore m List.mem_cons_self
    have hrest := ih fun x hx => hbefore x (List.mem_cons_of_mem m hx)
    rw [List.flatMap_cons, List.append_assoc, readLoop]
    split
    all_goals
      rename_i hread
      rw [readMessage_sendMessage hwell hsize] at hread
      cases hread
    rw [if_pos haccepts, hrest]
    rfl

theorem readLoop_next (h : m.WellFormed) (hsize : m.size ≤ maxMessageSize) :
    [m] <+: (readLoop accepts (sendMessage fill m ++ rest)).1 := by
  rw [readLoop]
  split
  all_goals
    rename_i hread
    rw [readMessage_sendMessage h hsize] at hread
    cases hread
  split
  · exact ⟨(readLoop accepts rest).1, rfl⟩
  · exact List.prefix_rfl

/-- **An oversized message** closes the connection. -/
theorem readLoop_oversized (h : m.WellFormed) (hsize : maxMessageSize < m.size) :
    readLoop accepts (sendMessage fill m ++ rest) = ([], .closed) := by
  have hread : readMessage (sendMessage fill m ++ rest) = .failed := readMessage_oversized h hsize
  rw [readLoop]
  split
  · rename_i heq
    cases hread.symm.trans heq
  · rfl
  · rename_i heq
    cases hread.symm.trans heq

end Sent

/-! ## Blocks -/

/-- `fc::raw::pack` of blocks and of their ids, which are hashes of 20 bytes. -/
structure BlockPacking (env : Env) where
  block : SignedBlock → Bytes
  blockId : BlockId → Bytes
  length_block : ∀ b, (block b).length = env.blockSize b
  length_blockId : ∀ id, (blockId id).length = 20

/-- `block_message(const signed_block &)`, packed. -/
def blockMessage {env : Env} (raw : BlockPacking env) (b : SignedBlock) : Message :=
  .pack blockMessageType (raw.block b ++ raw.blockId (Db.blockId env b))

section Blocks

variable {env : Env} {raw : BlockPacking env} {b : SignedBlock}

theorem length_blockMessage : (blockMessage raw b).data.length = env.blockSize b + 20 := by
  show (raw.block b ++ _).length = _
  rw [List.length_append, raw.length_block, raw.length_blockId]

theorem blockMessage_wellFormed (h : env.blockSize b + 20 < 2 ^ 32) :
    (blockMessage raw b).WellFormed := by
  have hlength : (blockMessage raw b).data.length = _ := length_blockMessage
  have hsize : (blockMessage raw b).size = (blockMessage raw b).data.length := by
    show (blockMessage raw b).data.length % 2 ^ 32 = _
    rw [hlength]
    exact Nat.mod_eq_of_lt h
  have htype : blockMessageType < 256 ^ 4 := by decide
  refine ⟨hsize, ?_, htype⟩
  rw [hsize, hlength]
  exact h

/-- The medians of validated properties. -/
theorem maximumBlockSize_le {db db' : Db}
    (hprops : ∀ w ∈ db.witnesses.rows, w.props.toChainPropertiesInit.validate = .ok ())
    (h : db.updateMedianWitnessProps = .ok db') : db'.dgp.maximumBlockSize ≤ 2 * 1024 * 1024 := by
  simp only [Db.updateMedianWitnessProps, bind_eq_ok, pure_eq_ok] at h
  obtain ⟨scheduled, hscheduled, rfl⟩ := h
  show Db.medianOf Db.natLt (·.maximumBlockSize) scheduled ≤ _
  by_cases hne : scheduled = []
  · rw [hne]
    decide
  · obtain ⟨w, hw, heq⟩ := Db.medianOf_mem Db.natLt (·.maximumBlockSize) hne
    obtain ⟨name, -, hname⟩ := mem_of_mapM_eq_ok hscheduled hw
    rw [Db.getWitness, getOrThrow_eq_ok] at hname
    have hvalid := hprops w (Table.get_mem hname)
    simp only [ChainPropertiesInit.validate, bind_eq_ok, fcAssert_eq_ok] at hvalid
    obtain ⟨_, -, _, -, _, -, _, hmax, -⟩ := hvalid
    rw [heq]
    exact hmax

/-- **Blocks on the wire.**  The peer gets a block of the chain exactly when the block leaves room
for its id below the limit of a message. -/
theorem blockMessage_delivered_iff {skip : Skip} {db₀ db₁ db : Db} {fill : Nat → UInt8}
    {accepts : Message → Bool} {before : List Message} {rest : Bytes}
    (hprops : ∀ w ∈ db₀.witnesses.rows, w.props.toChainPropertiesInit.validate = .ok ())
    (hmedian : db₀.updateMedianWitnessProps = .ok db₁)
    (hmax : db.dgp.maximumBlockSize = db₁.dgp.maximumBlockSize)
    (hcheck : skip.blockSizeCheck = false) (hv : db.validateBlock env skip b = .ok ())
    (hbefore : ∀ m ∈ before, m.WellFormed ∧ m.size ≤ maxMessageSize ∧ accepts m = true) :
    ((blockMessage raw b).data.length ≤ maxMessageSize ∧
      before ++ [blockMessage raw b] <+:
        (readLoop accepts (before.flatMap (sendMessage fill) ++
          (sendMessage fill (blockMessage raw b) ++ rest))).1) ↔
      env.blockSize b ≤ maxMessageSize - 20 := by
  have hsmall := maximumBlockSize_le hprops hmedian
  simp only [Db.validateBlock, hcheck, unlessSkipped, bind_eq_ok] at hv
  obtain ⟨_, -, hsize⟩ := hv
  simp only [Bool.false_eq_true, if_false, fcAssert_eq_ok] at hsize
  have hwell : (blockMessage raw b).WellFormed := blockMessage_wellFormed (by omega)
  have hlength : (blockMessage raw b).data.length = _ := length_blockMessage
  have hlimit : maxMessageSize = 2097152 := rfl
  rw [readLoop_sent hbefore]
  constructor
  · rintro ⟨hfits, -⟩
    omega
  · intro hfits
    have hread : [blockMessage raw b] <+:
        (readLoop accepts (sendMessage fill (blockMessage raw b) ++ rest)).1 :=
      readLoop_next hwell (by rw [hwell.size]; omega)
    exact ⟨by omega, (List.prefix_append_right_inj before).2 hread⟩

end Blocks

/-! ## A full block -/

/-- The size of alice's blocks, where every transaction is one custom operation of hers with an id
of one letter and a long text. -/
def wireSize (b : SignedBlock) : Nat :=
  let texts := b.transactions.map fun t => t.operations.map fun
    | .custom o => o.json.utf8ByteSize
    | _ => 0
  117 + (texts.map fun sizes => 92 + sizes.sum).sum

def wireEnv : Env := { smallEnv with blockSize := wireSize }

def wirePacking : BlockPacking wireEnv where
  block b := List.replicate (wireSize b) 0
  blockId _ := List.replicate 20 0
  length_block _ := List.length_replicate
  length_blockId _ := List.length_replicate

/-- All witnesses, alice that is, vote for the largest blocks. -/
def wireDb : Db := (smallStore []).db.modifyWitness "alice" fun w =>
  { w with props := { maximumBlockSize := 2 * 1024 * 1024 } }

/-- A block of alice without transactions. -/
def emptyBlock : SignedBlock :=
  { smallBlock [] with transactions := [], transactionMerkleRoot := 0 }

/-- A text in quotes, as JSON has it. -/
def longText (n : Nat) : String := "\"" ++ String.ofList (List.replicate n 'x') ++ "\""

/-- A block of alice with one custom operation. -/
def textBlock (n : Nat) : SignedBlock := smallBlock [.custom
  { requiredActiveAuths := [], requiredRegularAuths := ["alice"], id := "x", json := longText n }]

theorem utf8ByteSize_longText (n : Nat) : (longText n).utf8ByteSize = n + 2 := by
  have hmiddle : (String.ofList (List.replicate n 'x')).utf8ByteSize = n := by
    rw [utf8ByteSize_of_ascii, String.toList_ofList, List.length_replicate]
    intro c hc
    rw [String.toList_ofList] at hc
    rw [List.eq_of_mem_replicate hc]
    decide
  unfold longText
  rw [String.utf8ByteSize_append, String.utf8ByteSize_append, hmiddle]
  have hquote : ("\"" : String).utf8ByteSize = 1 := by decide
  omega

theorem wireSize_textBlock (n : Nat) : wireSize (textBlock n) = 211 + n := by
  show 117 + (92 + ((longText n).utf8ByteSize + 0) + 0) = _
  rw [utf8ByteSize_longText]
  omega

/-- Alice's properties are valid, and their medians. -/
theorem wireDb_median : ∃ db₁, wireDb.updateMedianWitnessProps = .ok db₁ ∧
    db₁.dgp.maximumBlockSize = 2097152 ∧
    ∀ w ∈ wireDb.witnesses.rows, w.props.toChainPropertiesInit.validate = .ok () := by
  have hrun : returns wireDb.updateMedianWitnessProps (fun d => d.dgp.maximumBlockSize = 2097152) =
      true := by decide +kernel
  have hvalid : ∀ w ∈ wireDb.witnesses.rows,
      returns w.props.toChainPropertiesInit.validate (fun _ => true) = true := by decide +kernel
  obtain ⟨db₁, hdb₁, hmax⟩ := returns_eq_true hrun
  refine ⟨db₁, hdb₁, of_decide_eq_true hmax, ?_⟩
  intro w hw
  obtain ⟨_, hok, -⟩ := returns_eq_true (hvalid w hw)
  exact hok

/-- Blocks that the chain accepts in the state with these medians. -/
theorem validateBlock_wire {db : Db} {b : SignedBlock} (hmax : db.dgp.maximumBlockSize = 2097152)
    (hroot : b.transactionMerkleRoot = calculateMerkleRoot wireEnv b)
    (hsize : wireSize b ≤ 2097152) : db.validateBlock wireEnv {} b = .ok () := by
  simp only [Db.validateBlock, unlessSkipped, bind_eq_ok]
  refine ⟨(), ?_, ?_⟩
  · exact (fcAssert_eq_ok _ _ ()).2 (.inl hroot)
  · rw [hmax]
    exact (fcAssert_eq_ok _ _ ()).2 hsize

/-- The tree of one transaction. -/
theorem textBlock_root (n : Nat) :
    (textBlock n).transactionMerkleRoot = calculateMerkleRoot wireEnv (textBlock n) := by
  have hne : (textBlock n).transactions ≠ [] := List.cons_ne_nil _ _
  have hfold : merkleFold wireEnv.hashPair [1] = 1 := by
    rw [merkleFold]
  unfold calculateMerkleRoot
  rw [if_neg hne]
  exact hfold.symm

/-- Two messages before the block, an unread message after it. -/
theorem blockMessage_delivered_iff_text : ∃ db₁, wireDb.updateMedianWitnessProps = .ok db₁ ∧
    db₁.validateBlock wireEnv {} (textBlock 1000) = .ok () ∧
    [blockMessage wirePacking emptyBlock, blockMessage wirePacking (textBlock 30)] ++
        [blockMessage wirePacking (textBlock 1000)] <+: (readLoop (fun _ => true)
      ([blockMessage wirePacking emptyBlock, blockMessage wirePacking (textBlock 30)].flatMap
          (sendMessage fun _ => 7) ++
        (sendMessage (fun _ => 7) (blockMessage wirePacking (textBlock 1000)) ++ [1, 2, 3]))).1 := by
  obtain ⟨db₁, hdb₁, hmax, hvalid⟩ := wireDb_median
  have hempty : wireEnv.blockSize emptyBlock = 117 := rfl
  have hshort : wireEnv.blockSize (textBlock 30) = 241 := wireSize_textBlock 30
  have hsize : wireEnv.blockSize (textBlock 1000) = 1211 := wireSize_textBlock 1000
  have haccepted : db₁.validateBlock wireEnv {} (textBlock 1000) = .ok () :=
    validateBlock_wire hmax (textBlock_root 1000) (le_of_eq_of_le hsize (by decide))
  refine ⟨db₁, hdb₁, haccepted, ?_⟩
  have hbefore : ∀ m ∈ [blockMessage wirePacking emptyBlock, blockMessage wirePacking (textBlock 30)],
      m.WellFormed ∧ m.size ≤ maxMessageSize ∧ true = true := by
    intro m hm
    obtain ⟨b, hb, rfl⟩ : ∃ b, wireEnv.blockSize b ≤ 241 ∧ m = blockMessage wirePacking b := by
      rcases List.mem_pair.1 hm with rfl | rfl
      · exact ⟨emptyBlock, by omega, rfl⟩
      · exact ⟨textBlock 30, by omega, rfl⟩
    have hwell : (blockMessage wirePacking b).WellFormed := blockMessage_wellFormed (by omega)
    refine ⟨hwell, ?_, rfl⟩
    have hlimit : maxMessageSize = 2097152 := rfl
    rw [hwell.size, length_blockMessage]
    omega
  exact ((blockMessage_delivered_iff hvalid hdb₁ rfl rfl haccepted hbefore).2
    (le_of_eq_of_le hsize (by decide))).2

/-- A block of the largest size is accepted, and its message closes the connection. -/
theorem fullBlock_not_delivered : ∃ db₁, wireDb.updateMedianWitnessProps = .ok db₁ ∧
    (∀ w ∈ wireDb.witnesses.rows, w.props.toChainPropertiesInit.validate = .ok ()) ∧
    db₁.validateBlock wireEnv {} (textBlock 2096941) = .ok () ∧
    maxMessageSize < (blockMessage wirePacking (textBlock 2096941)).data.length ∧
    readLoop (fun _ => true)
      (sendMessage (fun _ => 0) (blockMessage wirePacking (textBlock 2096941)) ++ []) =
        ([], .closed) := by
  obtain ⟨db₁, hdb₁, hmax, hvalid⟩ := wireDb_median
  have hsize : wireEnv.blockSize (textBlock 2096941) = 2097152 := wireSize_textBlock 2096941
  have haccepted : db₁.validateBlock wireEnv {} (textBlock 2096941) = .ok () :=
    validateBlock_wire hmax (textBlock_root _) (le_of_eq hsize)
  have hwell : (blockMessage wirePacking (textBlock 2096941)).WellFormed :=
    blockMessage_wellFormed (by rw [hsize]; decide)
  have hlength : (blockMessage wirePacking (textBlock 2096941)).data.length = 2097172 := by
    rw [length_blockMessage, hsize]
  have hlarge : maxMessageSize < (blockMessage wirePacking (textBlock 2096941)).data.length := by
    rw [hlength]
    decide
  refine ⟨db₁, hdb₁, hvalid, haccepted, hlarge, readLoop_oversized hwell ?_⟩
  rw [hwell.size]
  exact hlarge

end VizCore.Network.Wire
