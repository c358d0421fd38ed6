import VizCore.Chain.Transaction

/-!
# Slots and the witness schedule

Slot arithmetic, the checks of block headers, the global data that every block updates,
and `update_witness_schedule` with its penalties, medians and hardfork votes.

* `medianProps_sound`: a median of sound properties is sound;
* `updateWitnessSchedule_flow`, `updateGlobalDynamicData_ledger`: the steps do not move
  tokens or shares.
-/

namespace VizCore.Chain

open VizCore.Lib VizCore.Protocol

/-- `CHAIN_BLOCK_INTERVAL` -/
def blockInterval : Nat := 3

/-- `CHAIN_BLOCK_SIZE` -/
def chainBlockSize : Nat := 2 * 1024 * 1024 * blockInterval

/-- `CHAIN_MAX_WITNESSES` -/
def maxWitnesses : Nat := 21

/-- `CHAIN_MAX_TOP_WITNESSES` -/
def maxTopWitnesses : Nat := 11

/-- `CHAIN_HARDFORK_REQUIRED_WITNESSES` -/
def hardforkRequiredWitnesses : Nat := 17

/-- `CHAIN_IRREVERSIBLE_SUPPORT_MIN_RUN` -/
def irreversibleSupportMinRun : Nat := 2

/-- `CHAIN_MAX_WITNESS_MISSED_BLOCKS` -/
def maxWitnessMissedBlocks : Nat := 200

/-- `CHAIN_MAX_UNDO_HISTORY` -/
def maxUndoHistory : Nat := 10000

/-- `CHAIN_MAX_RESERVE_RATIO` -/
def maxReserveRatio : Nat := 20000

/-- `VIRTUAL_SCHEDULE_LAP_LENGTH2` -/
def virtualScheduleLapLength : Nat := 2 ^ 128 - 1

/-- The votes that count: those of a witness less its penalty. -/
def countedVotesOf (votes : Int) (penaltyPercent : Nat) : Result Int :=
  let penalty := toUint128 votes * min penaltyPercent percent100 % 2 ^ 128 / percent100
  toSigned64 ((toUint128 votes + 2 ^ 128 - penalty) % 2 ^ 128)

namespace Db

/-! ## Slots -/

def getSlotTime (db : Db) (slotNum : Nat) : TimePointSec :=
  if slotNum = 0 then 0
  else if db.headBlockNum = 0 then
    -- the first block is at genesis plus one interval
    ((db.headBlockTime - blockInterval + slotNum * blockInterval : Int) % 2 ^ 32).toNat
  else (db.headBlockTime / blockInterval * blockInterval + slotNum * blockInterval) % 2 ^ 32

def getSlotAtTime (db : Db) (t : TimePointSec) : Nat :=
  let first := db.getSlotTime 1
  if t < first then 0 else (t - first) / blockInterval + 1

def getScheduledWitness (db : Db) (slotNum : Nat) : AccountName :=
  let aslot := (db.dgp.currentAslot + slotNum) % 2 ^ 64
  db.witnessSchedule.currentShuffledWitnesses.getD
    (aslot % db.witnessSchedule.numScheduledWitnesses) ""

/-- The names of the current schedule. -/
def scheduledNames (db : Db) : List AccountName :=
  db.witnessSchedule.currentShuffledWitnesses.take db.witnessSchedule.numScheduledWitnesses

/-! ## The block header -/

/-- `validate_block_header` -/
def validateBlockHeader (env : Env) (skip : Skip) (db : Db) (b : SignedBlock) : Result Unit := do
  fcAssert (db.headBlockId = b.previous) "head_block_id() == next_block.previous"
  fcAssert (db.headBlockTime < b.timestamp) "head_block_time() < next_block.timestamp"
  let witness ← db.getWitness b.witness
  unlessSkipped skip.witnessSignature do
    let key ← env.signee b.toSignedBlockHeader
    fcAssert (key = witness.signingKey) "next_block.validate_signee(witness.signing_key)"
  unlessSkipped skip.witnessScheduleCheck do
    let slotNum := db.getSlotAtTime b.timestamp
    fcAssert (0 < slotNum) "slot_num > 0"
    fcAssert (witness.owner = db.getScheduledWitness slotNum)
      "Witness produced block at wrong time"

/-- The assignment of `hardfork_version`, which drops the release. -/
def releaseless (v : Version) : Version := v / 2 ^ 16 * 2 ^ 16

def processHeaderExtension (name : AccountName) (db : Db) : HeaderExtension → Result Db
  | .void => .ok db
  | .version v => do
    let _ ← db.getWitness name
    return db.modifyWitness name fun w => { w with runningVersion := v }
  | .hardforkVersionVote hfVersion hfTime => do
    let _ ← db.getWitness name
    return db.modifyWitness name fun w =>
      { w with hardforkVersionVote := releaseless hfVersion, hardforkTimeVote := hfTime }

/-- `process_header_extensions` and the check of the version that the witness runs. -/
def processHeaderExtensions (db : Db) (b : SignedBlock) : Result Db := do
  let db ← b.extensions.foldlM (processHeaderExtension b.witness) db
  let witness ← db.getWitness b.witness
  fcAssert (db.hardforkProperty.currentHardforkVersion ≤ witness.runningVersion)
    "Block produced by witness that is not running current hardfork"
  return db

/-! ## Global data -/

/-- A witness missed its slot; the producer of the block is spared the penalty. -/
def missSlot (producer : AccountName) (db : Db) (slotNum : Nat) : Result Db := do
  let name := db.getScheduledWitness slotNum
  let w ← db.getWitness name
  if w.owner = producer then
    return db.modifyWitness name fun w => { w with currentRun := 0 }
  else
    let props := db.medianProps
    let penalty := ((w.penaltyPercent + props.witnessMissPenaltyPercent : Int) % 2 ^ 32).toNat
    let counted ← countedVotesOf w.votes penalty
    let shutdown := maxWitnessMissedBlocks <
      (db.headBlockNum + 2 ^ 64 - w.lastConfirmedBlockNum) % 2 ^ 64
    let db := db.modifyWitness name fun w =>
      { w with
        currentRun := 0, totalMissed := (w.totalMissed + 1) % 2 ^ 32
        penaltyPercent := penalty, countedVotes := counted
        signingKey := if shutdown then 0 else w.signingKey }
    return { db with
      witnessPenaltyExpires := db.witnessPenaltyExpires.create fun id =>
        ⟨id, w.owner, props.witnessMissPenaltyPercent,
          (db.headBlockTime + props.witnessMissPenaltyDuration) % 2 ^ 32⟩ }

/-- The slots that the block skipped. -/
def missedBlocks (db : Db) (b : SignedBlock) : Result Nat :=
  if db.headBlockTime = 0 then .ok 0
  else do
    let slot := db.getSlotAtTime b.timestamp
    fcAssert (slot ≠ 0) "missed_blocks != 0"
    return slot - 1

/-- One slot enters the window of the last 128 slots. -/
def shiftSlot (filled : Bool) (p : DynamicGlobalPropertyObject) : DynamicGlobalPropertyObject :=
  let oldest := if 2 ^ 127 ≤ p.recentSlotsFilled then 1 else 0
  let newest := if filled then 1 else 0
  { p with
    recentSlotsFilled := (p.recentSlotsFilled * 2 + newest) % 2 ^ 128
    participationCount := (p.participationCount + 2 ^ 8 - oldest + newest) % 2 ^ 8 }

/-- The reserve ratio falls by half when blocks are more than a quarter full. -/
def reserveRatio (p : DynamicGlobalPropertyObject) : Nat :=
  let ratio := if p.maximumBlockSize / 4 < p.averageBlockSize then p.currentReserveRatio / 2
    else (p.currentReserveRatio + 1) % 2 ^ 64
  max (min ratio maxReserveRatio) (maxReserveRatio / 10)

def advanceHead (b : SignedBlock) (id : BlockId) (size missed : Nat)
    (p : DynamicGlobalPropertyObject) : DynamicGlobalPropertyObject :=
  let p := shiftSlot true p
  let p := (List.range missed).foldl (fun p _ => shiftSlot false p) p
  let p := { p with
    headBlockNumber := b.blockNum, headBlockId := id, time := b.timestamp
    currentAslot := (p.currentAslot + (missed + 1) % 2 ^ 32) % 2 ^ 64
    averageBlockSize := (99 * p.averageBlockSize % 2 ^ 32 + size) / 100 % 2 ^ 32 }
  let p := if b.blockNum % 20 = 0 then { p with currentReserveRatio := reserveRatio p } else p
  { p with
    maxVirtualBandwidth :=
      p.maximumBlockSize * p.currentReserveRatio * bandwidthPrecision * bandwidthWindow % 2 ^ 64 /
        blockInterval }

/-- The id of a block: its number and the hash of its header. -/
def blockId (env : Env) (b : SignedBlock) : BlockId :=
  ⟨b.blockNum, env.headerHash b.toSignedBlockHeader⟩

/-- `update_global_dynamic_data` -/
def updateGlobalDynamicData (env : Env) (skip : Skip) (b : SignedBlock) (db : Db) :
    Result Db := do
  let missed ← db.missedBlocks b
  let db ← ((List.range missed).map (· + 1)).foldlM (missSlot b.witness) db
  let db := db.modifyDgp (advanceHead b (blockId env b) (env.blockSize b) missed)
  fcAssert (skip.undoHistoryCheck = true ∨
    (db.dgp.headBlockNumber + 2 ^ 32 - db.dgp.lastIrreversibleBlockNum) % 2 ^ 32 < maxUndoHistory)
    ("The database does not have enough undo history to support a blockchain with so many missed " ++
    "blocks.")
  return db

/-- `update_signing_witness` -/
def updateSigningWitness (b : SignedBlock) (db : Db) : Db :=
  let aslot := (db.dgp.currentAslot + db.getSlotAtTime b.timestamp) % 2 ^ 64
  db.modifyWitness b.witness fun w =>
    { w with
      lastAslot := aslot
      lastConfirmedBlockNum := b.blockNum
      lastSupportedBlockNum :=
        if irreversibleSupportMinRun ≤ w.currentRun then b.blockNum else w.lastSupportedBlockNum
      currentRun := w.currentRun + 1 }

/-- `create_block_summary` -/
def createBlockSummary (env : Env) (b : SignedBlock) (db : Db) : Result Db := do
  let sid := b.blockNum % 2 ^ 16
  let _ ← getOrThrow (db.blockSummaries.get (·.id) sid) (.unknownKey "block_summary")
  return { db with
    blockSummaries := db.blockSummaries.update (·.id) sid fun s =>
      { s with blockId := blockId env b } }

/-! ## The schedule -/

/-- A penalty that has expired is taken back. -/
def expirePenalty (db : Db) (p : WitnessPenaltyExpireObject) : Result Db := do
  let w ← db.getWitness p.witness
  let penalty := ((w.penaltyPercent - p.penaltyPercent : Int) % 2 ^ 32).toNat
  let counted ← countedVotesOf w.votes penalty
  let db := db.modifyWitness p.witness fun w =>
    { w with penaltyPercent := penalty, countedVotes := counted }
  return { db with witnessPenaltyExpires := db.witnessPenaltyExpires.erase (·.id) p.id }

def expirePenalties (db : Db) : Result Db :=
  let due := (orderBy (fun p q : WitnessPenaltyExpireObject => p.expires < q.expires)
    db.witnessPenaltyExpires.rows).filter fun p => p.expires ≤ db.headBlockTime
  due.foldlM expirePenalty db

/-- The order of `by_counted_vote_name`. -/
def countedBefore (v w : WitnessObject) : Bool :=
  w.countedVotes < v.countedVotes || (v.countedVotes == w.countedVotes && v.owner < w.owner)

/-- The order of `by_schedule_time`. -/
def scheduledBefore (v w : WitnessObject) : Bool :=
  v.virtualScheduledTime < w.virtualScheduledTime ||
    (v.virtualScheduledTime == w.virtualScheduledTime && v.id < w.id)

/-- The highest voted witnesses that have a signing key. -/
def topWitnesses (db : Db) : List WitnessObject :=
  ((orderBy countedBefore db.witnesses.rows).filter (·.signingKey ≠ 0)).take maxTopWitnesses

/-- The witnesses that the walk along the virtual schedule passes until the schedule is
full. -/
def passedWitnesses (selected : List Nat) : List WitnessObject → Nat → List WitnessObject
  | [], _ => []
  | w :: rest, count =>
    if maxWitnesses ≤ count then []
    else if w.signingKey = 0 ∨ w.id ∈ selected then w :: passedWitnesses selected rest count
    else w :: passedWitnesses selected rest (count + 1)

def setSchedule (kind : WitnessScheduleType) (db : Db) (w : WitnessObject) : Db :=
  db.modifyWitness w.owner fun w => { w with schedule := kind }

/-- The next turn of a witness in the virtual schedule. -/
def nextVirtualTime (now : Nat) (w : WitnessObject) : Result Nat := do
  let lap ← divUint128 virtualScheduleLapLength (toUint128 (wrapInt64 (w.countedVotes + 1)))
  return (now + lap) % 2 ^ 128

def resetVirtualTime (w : WitnessObject) : Result WitnessObject := do
  let lap ← divUint128 virtualScheduleLapLength (toUint128 (wrapInt64 (w.countedVotes + 1)))
  return { w with virtualPosition := 0, virtualLastUpdate := 0, virtualScheduledTime := lap }

/-- `reset_virtual_schedule_time` -/
def resetVirtualScheduleTime (db : Db) : Result Db := do
  let rows ← db.witnesses.rows.mapM resetVirtualTime
  return { db with
    witnessSchedule := { db.witnessSchedule with currentVirtualTime := 0 }
    witnesses := { db.witnesses with rows := rows } }

def setVirtualTime (now : Nat) (db : Db) (w : WitnessObject × Nat) : Db :=
  db.modifyWitness w.1.owner fun x =>
    { x with virtualPosition := 0, virtualLastUpdate := now, virtualScheduledTime := w.2 }

/-- The witnesses that were passed get their next turn; when the time overflows, the virtual
schedule starts anew. -/
def updateVirtualSchedule (db : Db) (now : Nat) (passed : List WitnessObject) :
    Result (Nat × Db) := do
  let times ← passed.mapM (nextVirtualTime now)
  if times.any (· < now) then
    let db ← db.resetVirtualScheduleTime
    return (0, db)
  else return (now, (passed.zip times).foldl (setVirtualTime now) db)

/-- The highest version that enough witnesses run, or a later one. -/
def majorityVersion (db : Db) (scheduled : List WitnessObject) : Version :=
  let versions := (orderBy (fun v w : Version => w < v) (scheduled.map (·.runningVersion)))
  (versions.find? fun v =>
    hardforkRequiredWitnesses ≤ scheduled.countP fun w => v ≤ w.runningVersion).getD
    db.witnessSchedule.majorityVersion

def voteBefore (v w : Version × TimePointSec) : Bool := v.1 < w.1 || (v.1 == w.1 && v.2 < w.2)

/-- The hardfork that enough witnesses vote for; without one there is no next hardfork. -/
def countHardforkVotes (db : Db) (scheduled : List WitnessObject) : Db :=
  let votes := scheduled.map fun w => (w.hardforkVersionVote, w.hardforkTimeVote)
  match (orderBy voteBefore votes).find? fun v => hardforkRequiredWitnesses ≤ votes.count v with
  | some (version, time) =>
    { db with
      hardforkProperty :=
        { db.hardforkProperty with nextHardfork := version, nextHardforkTime := time } }
  | none =>
    { db with
      hardforkProperty := { db.hardforkProperty with
        nextHardfork := db.hardforkProperty.currentHardforkVersion } }

/-- Top and support witnesses in turn. -/
def interleave : List AccountName → List AccountName → List AccountName
  | [], support => support
  | a :: active, [] => a :: active
  | a :: active, s :: support => a :: s :: interleave active support

/-- The median of a property over the scheduled witnesses. -/
def medianOf {β : Type} (lt : β → β → Bool) (field : ChainPropertiesHf9 → β)
    (scheduled : List WitnessObject) : β :=
  let values := orderBy lt (scheduled.map fun w => field w.props)
  values.getD (scheduled.length / 2) (field {})

def assetLt (a b : Asset) : Bool := a.amount < b.amount

def natLt (a b : Nat) : Bool := a < b

def intLt (a b : Int) : Bool := a < b

/-- The properties whose fields are the medians of the fields of the witnesses. -/
def medianPropsOf (scheduled : List WitnessObject) : ChainPropertiesHf9 where
  accountCreationFee := medianOf assetLt (·.accountCreationFee) scheduled
  maximumBlockSize := medianOf natLt (·.maximumBlockSize) scheduled
  createAccountDelegationRatio := medianOf natLt (·.createAccountDelegationRatio) scheduled
  createAccountDelegationTime := medianOf natLt (·.createAccountDelegationTime) scheduled
  minDelegation := medianOf assetLt (·.minDelegation) scheduled
  minCurationPercent := medianOf intLt (·.minCurationPercent) scheduled
  maxCurationPercent := medianOf intLt (·.maxCurationPercent) scheduled
  bandwidthReservePercent := medianOf intLt (·.bandwidthReservePercent) scheduled
  bandwidthReserveBelow := medianOf assetLt (·.bandwidthReserveBelow) scheduled
  flagEnergyAdditionalCost := medianOf intLt (·.flagEnergyAdditionalCost) scheduled
  voteAccountingMinRshares := medianOf natLt (·.voteAccountingMinRshares) scheduled
  committeeRequestApproveMinPercent :=
    medianOf intLt (·.committeeRequestApproveMinPercent) scheduled
  inflationWitnessPercent := medianOf intLt (·.inflationWitnessPercent) scheduled
  inflationRatioCommitteeVsRewardFund :=
    medianOf intLt (·.inflationRatioCommitteeVsRewardFund) scheduled
  inflationRecalcPeriod := medianOf natLt (·.inflationRecalcPeriod) scheduled
  dataOperationsCostAdditionalBandwidth :=
    medianOf natLt (·.dataOperationsCostAdditionalBandwidth) scheduled
  witnessMissPenaltyPercent := medianOf intLt (·.witnessMissPenaltyPercent) scheduled
  witnessMissPenaltyDuration := medianOf natLt (·.witnessMissPenaltyDuration) scheduled
  createInviteMinBalance := medianOf assetLt (·.createInviteMinBalance) scheduled
  committeeCreateRequestFee := medianOf assetLt (·.committeeCreateRequestFee) scheduled
  createPaidSubscriptionFee := medianOf assetLt (·.createPaidSubscriptionFee) scheduled
  accountOnSaleFee := medianOf assetLt (·.accountOnSaleFee) scheduled
  subaccountOnSaleFee := medianOf assetLt (·.subaccountOnSaleFee) scheduled
  witnessDeclarationFee := medianOf assetLt (·.witnessDeclarationFee) scheduled
  withdrawIntervals := medianOf natLt (·.withdrawIntervals) scheduled

/-- `update_median_witness_props` -/
def updateMedianWitnessProps (db : Db) : Result Db := do
  let scheduled ← db.scheduledNames.mapM db.getWitness
  let props := medianPropsOf scheduled
  let db := { db with witnessSchedule := { db.witnessSchedule with medianProps := props } }
  return db.modifyDgp fun p => { p with maximumBlockSize := props.maximumBlockSize }

/-- The new schedule of names. -/
def setScheduledWitnesses (db : Db) (names : List AccountName) (now : Nat) (majority : Version) :
    Db :=
  let num := max names.length 1
  { db with
    witnessSchedule := { db.witnessSchedule with
      currentShuffledWitnesses := names ++ List.replicate (maxWitnesses - names.length) ""
      numScheduledWitnesses := num
      currentVirtualTime := now
      nextShuffleBlockNum := (db.headBlockNum + num) % 2 ^ 32
      majorityVersion := majority } }

/-- The body of `update_witness_schedule`. -/
def scheduleWitnesses (db : Db) : Result Db := do
  let db ← db.expirePenalties
  let top := db.topWitnesses
  let selected := top.map (·.id)
  let passed := passedWitnesses selected (orderBy scheduledBefore db.witnesses.rows) top.length
  let support := passed.filter fun w => w.signingKey ≠ 0 && w.id ∉ selected
  let now := (passed.getLast?.map (·.virtualScheduledTime)).getD
    db.witnessSchedule.currentVirtualTime
  let db := top.foldl (setSchedule .top) db
  let db := support.foldl (setSchedule .support) db
  let (now, db) ← db.updateVirtualSchedule now passed
  fcAssert (top.length + support.length ≤ maxWitnesses)
    "Number of active witnesses does cannot be more CHAIN_MAX_WITNESSES"
  let scheduled ← db.scheduledNames.mapM db.getWitness
  let majority := db.majorityVersion scheduled
  let db := db.countHardforkVotes scheduled
  let names := interleave (top.map (·.owner)) (support.map (·.owner))
  (db.setScheduledWitnesses names now majority).updateMedianWitnessProps

/-- `update_witness_schedule` -/
def updateWitnessSchedule (db : Db) : Result Db :=
  if db.headBlockNum % maxWitnesses = 0 then db.scheduleWitnesses else .ok db

/-- `process_hardforks` where all hardforks are applied: a vote for another one cannot be
followed. -/
def processHardforks (db : Db) : Result Db := do
  let p := db.hardforkProperty
  require (¬ (p.currentHardforkVersion < p.nextHardfork ∧ p.nextHardforkTime ≤ db.headBlockTime))
    .unknownHardfork
  return db

/-! ## What the steps do to the ledger -/

variable {fc : Fc} {g : Prop} {env : Env} {skip : Skip} {b : SignedBlock} {db db' : Db}

theorem processHeaderExtension_ledger {name : AccountName} {e : HeaderExtension}
    (h : processHeaderExtension name db e = .ok db') : db'.ledger = db.ledger := by
  cases e with
  | void =>
    cases h
    rfl
  | version v =>
    simp only [processHeaderExtension, bind_eq_ok, pure_eq_ok] at h
    obtain ⟨_, -, rfl⟩ := h
    exact ledger_modifyWitness_of_same db name _ fun _ => rfl
  | hardforkVersionVote v t =>
    simp only [processHeaderExtension, bind_eq_ok, pure_eq_ok] at h
    obtain ⟨_, -, rfl⟩ := h
    exact ledger_modifyWitness_of_same db name _ fun _ => rfl

theorem processHeaderExtensions_ledger (h : db.processHeaderExtensions b = .ok db') :
    db'.ledger = db.ledger := by
  simp only [processHeaderExtensions, bind_eq_ok, pure_eq_ok] at h
  obtain ⟨db₁, hrun, _, -, _, -, rfl⟩ := h
  exact foldlM_invariant (fun s => s.ledger = db.ledger) _ _
    (fun _ _ _ _ hs hstep => (processHeaderExtension_ledger hstep).trans hs) db db₁ rfl hrun

theorem missSlot_ledger {producer : AccountName} {slotNum : Nat}
    (h : missSlot producer db slotNum = .ok db') : db'.ledger = db.ledger := by
  simp only [missSlot, bind_eq_ok] at h
  obtain ⟨w, -, h⟩ := h
  split at h
  · rw [pure_eq_ok] at h
    rw [← h]
    exact ledger_modifyWitness_of_same db _ _ fun _ => rfl
  · simp only [bind_eq_ok, pure_eq_ok] at h
    obtain ⟨counted, -, rfl⟩ := h
    exact ledger_modifyWitness_of_same db _ _ fun _ => rfl

theorem advanceHead_ledger (db : Db) (id : BlockId) (size missed : Nat) :
    (db.modifyDgp (advanceHead b id size missed)).ledger = db.ledger := by
  have hshift (filled : Bool) (p : DynamicGlobalPropertyObject) :
      (db.modifyDgp fun _ => shiftSlot filled p).ledger = (db.modifyDgp fun _ => p).ledger := rfl
  have hshifts (l : List Nat) (p : DynamicGlobalPropertyObject) :
      (db.modifyDgp fun _ => l.foldl (fun p _ => shiftSlot false p) p).ledger =
        (db.modifyDgp fun _ => p).ledger := by
    induction l generalizing p with
    | nil => rfl
    | cons x l ih => exact (ih (shiftSlot false p)).trans (hshift false p)
  have hslots := (hshifts (List.range missed) (shiftSlot true db.dgp)).trans
    (hshift true db.dgp)
  refine Eq.trans ?_ hslots
  simp only [advanceHead, modifyDgp]
  split <;> rfl

theorem updateGlobalDynamicData_ledger (h : db.updateGlobalDynamicData env skip b = .ok db') :
    db'.ledger = db.ledger := by
  simp only [updateGlobalDynamicData, bind_eq_ok, pure_eq_ok] at h
  obtain ⟨missed, -, db₁, hmiss, _, -, rfl⟩ := h
  rw [advanceHead_ledger]
  exact foldlM_invariant (fun s => s.ledger = db.ledger) _ _
    (fun _ _ _ _ hs hstep => (missSlot_ledger hstep).trans hs) db db₁ rfl hmiss

theorem updateSigningWitness_ledger (db : Db) : (db.updateSigningWitness b).ledger = db.ledger :=
  ledger_modifyWitness_of_same db b.witness _ fun _ => rfl

theorem createBlockSummary_ledger (h : createBlockSummary env b db = .ok db') :
    db'.ledger = db.ledger := by
  simp only [createBlockSummary, bind_eq_ok, pure_eq_ok] at h
  obtain ⟨_, -, rfl⟩ := h
  rfl

theorem expirePenalty_ledger {p : WitnessPenaltyExpireObject}
    (h : db.expirePenalty p = .ok db') : db'.ledger = db.ledger := by
  simp only [expirePenalty, bind_eq_ok, pure_eq_ok] at h
  obtain ⟨w, -, counted, -, rfl⟩ := h
  exact ledger_modifyWitness_of_same db p.witness _ fun _ => rfl

theorem expirePenalties_ledger (h : db.expirePenalties = .ok db') : db'.ledger = db.ledger :=
  foldlM_invariant (fun s => s.ledger = db.ledger) _ _
    (fun _ _ _ _ hs hstep => (expirePenalty_ledger hstep).trans hs) db db' rfl h

theorem setSchedule_ledger (kind : WitnessScheduleType) (db : Db) (w : WitnessObject) :
    (setSchedule kind db w).ledger = db.ledger :=
  ledger_modifyWitness_of_same db w.owner _ fun _ => rfl

theorem setVirtualTime_ledger (now : Nat) (db : Db) (w : WitnessObject × Nat) :
    (setVirtualTime now db w).ledger = db.ledger :=
  ledger_modifyWitness_of_same db w.1.owner _ fun _ => rfl

/-- A loop over witnesses that the ledger does not show. -/
theorem foldl_ledger {α : Type} (f : Db → α → Db) (hf : ∀ db a, (f db a).ledger = db.ledger)
    (l : List α) (db : Db) : (l.foldl f db).ledger = db.ledger := by
  induction l generalizing db with
  | nil => rfl
  | cons a l ih => exact (ih (f db a)).trans (hf db a)

theorem resetVirtualTime_props {l l' : List WitnessObject}
    (h : l.mapM resetVirtualTime = .ok l') : l'.map (·.props) = l.map (·.props) := by
  induction l generalizing l' with
  | nil =>
    rw [List.mapM_nil, pure_eq_ok] at h
    rw [← h]
  | cons w l ih =>
    simp only [List.mapM_cons, resetVirtualTime, bind_eq_ok, pure_eq_ok] at h
    obtain ⟨_, ⟨lap, -, rfl⟩, rest, hrest, rfl⟩ := h
    rw [List.map_cons, List.map_cons, ih hrest]

theorem resetVirtualScheduleTime_ledger (h : db.resetVirtualScheduleTime = .ok db') :
    db'.ledger = db.ledger := by
  simp only [resetVirtualScheduleTime, bind_eq_ok, pure_eq_ok] at h
  obtain ⟨rows, hrows, rfl⟩ := h
  have hprops := resetVirtualTime_props hrows
  show ({ db.ledger with terms := { db.terms with
    witnessProps := ⟨rows.map (·.props), db.witnesses.nextId⟩ } } : Ledger) = _
  rw [hprops]
  rfl

theorem updateVirtualSchedule_ledger {now now' : Nat} {passed : List WitnessObject}
    (h : db.updateVirtualSchedule now passed = .ok (now', db')) : db'.ledger = db.ledger := by
  simp only [updateVirtualSchedule, bind_eq_ok] at h
  obtain ⟨times, -, h⟩ := h
  split at h
  · simp only [bind_eq_ok, pure_eq_ok, Prod.mk.injEq] at h
    obtain ⟨db₁, hreset, -, rfl⟩ := h
    exact resetVirtualScheduleTime_ledger hreset
  · simp only [pure_eq_ok, Prod.mk.injEq] at h
    rw [← h.2]
    exact foldl_ledger _ (setVirtualTime_ledger now) _ db

theorem countHardforkVotes_ledger (db : Db) (scheduled : List WitnessObject) :
    (db.countHardforkVotes scheduled).ledger = db.ledger := by
  simp only [countHardforkVotes]
  split
  · rfl
  · rfl

/-! ### Medians -/

/-- A median is the value of one of the witnesses. -/
theorem medianOf_mem {β : Type} (lt : β → β → Bool) (field : ChainPropertiesHf9 → β)
    {scheduled : List WitnessObject} (h : scheduled ≠ []) :
    ∃ w ∈ scheduled, medianOf lt field scheduled = field w.props := by
  have hpos : 0 < scheduled.length := List.length_pos_of_ne_nil h
  have hlen : (orderBy lt (scheduled.map fun w => field w.props)).length = scheduled.length := by
    rw [(orderBy_perm lt _).length_eq, List.length_map]
  have hlt : scheduled.length / 2 < (orderBy lt (scheduled.map fun w => field w.props)).length := by
    omega
  have hmem := List.getElem_mem hlt
  rw [mem_orderBy, List.mem_map] at hmem
  obtain ⟨w, hw, heq⟩ := hmem
  refine ⟨w, hw, ?_⟩
  rw [heq, medianOf, List.getD_eq_getElem?_getD, List.getElem?_eq_getElem hlt]
  rfl

/-- **Medians** of sound properties are sound. -/
theorem medianProps_sound {scheduled : List WitnessObject} (hne : scheduled ≠ [])
    (h : ∀ w ∈ scheduled, PropsSound w.props) : PropsSound (medianPropsOf scheduled) := by
  have hmedian {β : Type} (lt : β → β → Bool) (field : ChainPropertiesHf9 → β) (P : β → Prop)
      (hP : ∀ p, PropsSound p → P (field p)) : P (medianOf lt field scheduled) := by
    obtain ⟨w, hw, heq⟩ := medianOf_mem lt field hne
    rw [heq]
    exact hP w.props (h w hw)
  constructor
  · exact hmedian assetLt _ (fun a => 0 ≤ a.amount) fun p hp => hp.request
  · exact hmedian assetLt _ (fun a => 0 ≤ a.amount) fun p hp => hp.subscription
  · exact hmedian assetLt _ (fun a => 0 ≤ a.amount) fun p hp => hp.sale
  · exact hmedian assetLt _ (fun a => 0 ≤ a.amount) fun p hp => hp.subaccountSale
  · exact hmedian assetLt _ (fun a => 0 ≤ a.amount) fun p hp => hp.witness
  · exact hmedian intLt _ (fun x => 0 ≤ x ∧ x ≤ 10000) fun p hp => hp.inflation
  · exact hmedian intLt _ (fun x => 0 ≤ x ∧ x ≤ 10000) fun p hp => hp.ratio

theorem scheduled_ne_nil {scheduled : List WitnessObject} (hne : db.scheduledNames ≠ [])
    (h : db.scheduledNames.mapM db.getWitness = .ok scheduled) : scheduled ≠ [] := by
  rintro rfl
  cases hnames : db.scheduledNames with
  | nil => exact hne hnames
  | cons name rest =>
    rw [hnames, List.mapM_cons] at h
    simp only [bind_eq_ok, pure_eq_ok] at h
    obtain ⟨_, -, _, -, hcons⟩ := h
    cases hcons

theorem updateMedianWitnessProps_flow (hne : db.scheduledNames ≠ [])
    (h : db.updateMedianWitnessProps = .ok db') : Flow fc g 0 0 db db' := by
  simp only [updateMedianWitnessProps, bind_eq_ok, pure_eq_ok] at h
  obtain ⟨scheduled, hscheduled, rfl⟩ := h
  have hmedian (hall : db.terms.witnessProps.All PropsSound) :
      PropsSound (medianPropsOf scheduled) := by
    refine medianProps_sound ?_ fun w hw => ?_
    · exact scheduled_ne_nil hne hscheduled
    · obtain ⟨name, -, hname⟩ := mem_of_mapM_eq_ok hscheduled hw
      rw [getWitness, getOrThrow_eq_ok] at hname
      exact hall w.props (List.mem_map_of_mem (Table.get_mem hname))
  exact .of_move (.terms db.ledger { db.terms with medianProps := medianPropsOf scheduled }
    (fun _ hL => { hL.terms with median := hmedian hL.terms.witnesses })
    fun hF => { hF with median := hmedian hF.witnesses })

theorem setScheduledWitnesses_names (db : Db) (names : List AccountName) (now : Nat)
    (majority : Version) : (db.setScheduledWitnesses names now majority).scheduledNames ≠ [] := by
  intro hnil
  have hlen := congrArg List.length hnil
  simp only [scheduledNames, setScheduledWitnesses, List.length_take, List.length_append,
    List.length_replicate, maxWitnesses, List.length_nil] at hlen
  omega

/-- **The schedule** does not move tokens; the new medians are sound. -/
theorem updateWitnessSchedule_flow (h : db.updateWitnessSchedule = .ok db') :
    Flow fc g 0 0 db db' := by
  unfold updateWitnessSchedule at h
  split at h
  · simp only [scheduleWitnesses, bind_eq_ok] at h
    obtain ⟨db₁, hpenalties, ⟨now, db₂⟩, hvirtual, h⟩ := h
    simp only at h
    obtain ⟨_, -, scheduled, -, hmedian⟩ := h
    have hledger : db₂.ledger = db.ledger := by
      rw [updateVirtualSchedule_ledger hvirtual, foldl_ledger _ (setSchedule_ledger .support),
        foldl_ledger _ (setSchedule_ledger .top), expirePenalties_ledger hpenalties]
    have hvotes := (countHardforkVotes_ledger db₂ scheduled).trans hledger
    refine Flow.after_same ?_
      (updateMedianWitnessProps_flow (setScheduledWitnesses_names _ _ _ _) hmedian)
    exact hvotes
  · cases h
    exact .refl _

end Db

end VizCore.Chain
