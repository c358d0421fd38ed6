import VizCore.Chain.Apply
import VizCore.Chain.Block.Steps
import VizCore.Chain.ForkDb

/-!
# The node's store and the application of blocks

The database with its undo stack, the fork database and the block log, the advance of
the last irreversible block, and `apply_block`.  What is written to the log or committed
is not taken back when a block fails, so an exception carries the store it leaves behind.

* `KeepsBlock`: what a property has to satisfy to be kept by every block;
* `applyBlock_recounts`, `applyBlocks_recounts`: a property of the state and of the events that
  led to it is kept by every run of blocks when the evaluators and the steps keep it;
* `applyBlocks_ensures`: this for a property of the state alone.
-/

namespace VizCore.Chain

open VizCore.Lib VizCore.Protocol

/-- `undoStack` holds, newest first, the revision of each session and the state before it. -/
structure Store where
  db : Db
  undoStack : List (Nat × Db) := []
  revision : Nat := 0
  forkDb : ForkDb := {}
  blockLog : List SignedBlock := []

/-- What may change the store and throw on its way. -/
abbrev StoreResult (α : Type) := Except (Exception × Store) α

abbrev StoreRun (α : Type) := Traced Event (Exception × Store) α

namespace Store

variable (s : Store)

/-- An exception leaves the store as it is. -/
def lift {α : Type} (r : Result α) : StoreResult α :=
  match r with
  | .ok a => .ok a
  | .error e => .error (e, s)

/-! ## Sessions

The sessions are those of chainbase, which is assumed to obey these laws: the start of a session
saves the state under the next revision; `undo` brings back the newest saved state, and with it
the revision (`undo_startUndoSession`); `squash` keeps the state and forgets the newest saved one
(`squash_startUndoSession`); `commit` forgets what is saved up to a revision, and nothing else. -/

/-- `start_undo_session` -/
def startUndoSession : Store :=
  { s with revision := s.revision + 1, undoStack := (s.revision + 1, s.db) :: s.undoStack }

/-- `undo`: without an undo state nothing happens. -/
def undo : Store :=
  match s.undoStack with
  | [] => s
  | (revision, db) :: rest => { s with db := db, undoStack := rest, revision := revision - 1 }

/-- `commit`: undo states up to the revision are dropped. -/
def commit (revision : Nat) : Store :=
  { s with undoStack := s.undoStack.filter fun u => revision < u.1 }

theorem undo_startUndoSession : s.startUndoSession.undo = s := by
  cases s
  rfl

/-! ## The block log -/

def logHeadNum : Nat := (s.blockLog.getLast?.map (·.blockNum)).getD 0

/-- `read_block_by_num` -/
def readBlockByNum (num : Nat) : Option SignedBlock :=
  if 0 < num then s.blockLog[num - 1]? else none

/-- `block_log::append` -/
def appendLog (b : SignedBlock) : StoreResult Store := do
  s.lift (fcAssert (b.blockNum = s.blockLog.length + 1)
    "Append to index file occuring at wrong position.")
  return { s with blockLog := s.blockLog ++ [b] }

/-- The main branch's block of the given number goes to the log. -/
def appendMain (num : Nat) : StoreResult Store := do
  let item ← s.lift (getOrThrow (s.forkDb.fetchBlockOnMainBranchByNumber num) (.assertion
    "Current fork in the fork database does not contain the last_irreversible_block"))
  s.appendLog item.data

/-- The log is brought up to the last irreversible block. -/
def writeLog : StoreResult Store :=
  (List.range' (s.logHeadNum + 1) (s.db.dgp.lastIrreversibleBlockNum - s.logHeadNum)).foldlM
    appendMain s

/-- `fetch_block_by_id` -/
def fetchBlockById (env : Env) (id : BlockId) : Option SignedBlock :=
  match s.forkDb.fetchBlock id with
  | some item => some item.data
  | none => (s.readBlockByNum id.num).filter fun b => Db.blockId env b = id

/-! ## The last irreversible block -/

/-- `CHAIN_IRREVERSIBLE_THRESHOLD` -/
def irreversibleThreshold : Nat := 7500

/-- `CHAIN_MAX_BLOCK_POST_VALIDATION_COUNT` -/
def maxBlockPostValidationCount : Nat := 20

def setIrreversible (num : Nat) : Store :=
  { s with db := s.db.modifyDgp fun p =>
    { p with lastIrreversibleBlockNum := num, lastIrreversibleBlockId := ⟨0, 0⟩ } }

/-- The id of the last irreversible block is taken from the log, if it is there. -/
def readIrreversibleId (env : Env) : Store :=
  match s.readBlockByNum s.db.dgp.lastIrreversibleBlockNum with
  | none => s
  | some b => { s with db := s.db.modifyDgp fun p =>
    { p with lastIrreversibleBlockId := Db.blockId env b } }

/-- The fork database keeps the reversible blocks. -/
def shrinkForkDb : Store :=
  let size := (s.db.dgp.headBlockNumber + 1 + 2 ^ 32 - s.db.dgp.lastIrreversibleBlockNum) % 2 ^ 32
  { s with forkDb := s.forkDb.setMaxSize size }

/-- The block that enough of the scheduled witnesses have built on. -/
def irreversibleCandidate (db : Db) : Result Nat := do
  let witnesses ← db.scheduledNames.mapM db.getWitness
  let offset := (percent100 - irreversibleThreshold) * witnesses.length / percent100
  let supported := orderBy (fun m n => decide (m < n)) (witnesses.map (·.lastSupportedBlockNum))
  let candidate ← getOrThrow supported[offset]? (.assertion "wit_objs[offset]")
  return candidate % 2 ^ 32

def writeLogUnless (skip : Bool) : StoreResult Store := if skip then .ok s else s.writeLog

/-- `update_last_irreversible_block` -/
def updateLastIrreversibleBlock (env : Env) (skip : Skip) : StoreResult Store := do
  let candidate ← s.lift (irreversibleCandidate s.db)
  let s := if s.db.dgp.lastIrreversibleBlockNum < candidate then s.setIrreversible candidate else s
  let s := s.commit s.db.dgp.lastIrreversibleBlockNum
  let s ← s.writeLogUnless skip.blockLog
  let s := if candidate = s.db.dgp.lastIrreversibleBlockNum then s.readIrreversibleId env else s
  return s.shrinkForkDb

/-! ## Post-validation -/

/-- The validations that make a block irreversible. -/
def enoughValidations (db : Db) (v : BlockPostValidationObject) : Prop :=
  db.witnessSchedule.numScheduledWitnesses * irreversibleThreshold / percent100 ≤
    v.currentShuffledWitnessesValidations.count true

instance (db : Db) (v : BlockPostValidationObject) : Decidable (enoughValidations db v) :=
  inferInstanceAs (Decidable (_ ≤ _))

/-- The next block becomes irreversible. -/
def advanceIrreversible (env : Env) (num : Nat) : StoreResult Store := do
  let s := (s.setIrreversible num).commit num
  let s ← s.writeLog
  return (s.readIrreversibleId env).shrinkForkDb

def checkPostValidation (env : Env) (v : BlockPostValidationObject) : StoreResult Store :=
  if 1 + s.db.dgp.lastIrreversibleBlockNum = v.blockNum ∧ enoughValidations s.db v then do
    let s ← s.advanceIrreversible env v.blockNum
    return { s with db := { s.db with
      blockPostValidations := s.db.blockPostValidations.erase (·.id) v.id } }
  else return s

/-- `check_block_post_validation_chain` -/
def checkBlockPostValidationChain (env : Env) : StoreResult Store :=
  s.db.blockPostValidations.rows.foldlM (fun s v => checkPostValidation s env v) s

/-- The validation of one witness is noted. -/
def markValidated (name : AccountName) (v : BlockPostValidationObject) :
    BlockPostValidationObject :=
  let marks := List.zipWith (fun w b => b || decide (w = name)) v.currentShuffledWitnesses
    v.currentShuffledWitnessesValidations
  { v with currentShuffledWitnessesValidations := marks }

/-- `apply_block_post_validation` -/
def applyBlockPostValidation (env : Env) (id : BlockId) (name : AccountName) :
    StoreResult Store :=
  match s.db.blockPostValidations.get (·.blockId) id with
  | none => .ok s
  | some v =>
    let table := s.db.blockPostValidations.update (·.blockId) id (markValidated name)
    let s : Store := { s with db := { s.db with blockPostValidations := table } }
    if name ∈ v.currentShuffledWitnesses ∧ 1 + s.db.dgp.lastIrreversibleBlockNum = v.blockNum ∧
        enoughValidations s.db (markValidated name v) then
      s.advanceIrreversible env v.blockNum
    else .ok s

/-- The witnesses of a new block's validation: an array of 21 names, unused places empty. -/
def padNames (names : List AccountName) : List AccountName :=
  names ++ List.replicate (21 - names.length) ""

/-- `create_block_post_validation`: irreversible blocks are dropped, and the oldest ones when
the list is full. -/
def createBlockPostValidation (num : Nat) (id : BlockId) (producer : AccountName) : Store :=
  let kept := s.db.blockPostValidations.rows.filter fun v =>
    s.db.dgp.lastIrreversibleBlockNum < v.blockNum
  let kept := kept.drop (kept.length - (maxBlockPostValidationCount - 1))
  let names := padNames (s.db.scheduledNames.filter (· ≠ producer))
  { s with db := { s.db with
    blockPostValidations := ({ s.db.blockPostValidations with rows := kept } : Table _).create
      fun row => ⟨row, num, id, names, List.replicate 21 false⟩ } }

/-! ## Blocks -/

/-- What a computation on the database does to the store. -/
def onDb (x : Run Db) : StoreRun Store :=
  Traced.mapBoth (fun e => (e, s)) (fun db => { s with db := db }) x

/-- A step of the block, reported before it is taken. -/
def step (env : Env) (skip : Skip) (b : SignedBlock) (st : BlockStep) : StoreRun Store :=
  s.onDb do
    Traced.report (.step s.db b st true)
    Traced.lift (st.run env skip b s.db)

/-- The steps after the expired proposals. -/
def closingSteps : List BlockStep :=
  [.clearExpiredTransactions, .clearExpiredDelegations, .clearUsedInvites,
    .clearClosedCommitteeRequests, .updateBandwidthReserveCandidates, .updateWitnessSchedule,
    .processInflationRecalc, .expireAwardSharesProcessing, .processFunds,
    .processVestingWithdrawals, .accountRecoveryProcessing, .expireEscrowRatification,
    .accountOnAuctionExpiration, .clearNullAccountBalance, .clearAnonymousAccountBalance,
    .claimCommitteeAccountBalance, .committeeProcessing, .paidSubscribeProcessing,
    .processHardforks]

/-- `_apply_block`; `fuel` bounds the nesting of proposals. -/
def applyBlock (env : Env) (fuel : Nat) (skip : Skip) (b : SignedBlock) : StoreRun Store := do
  let s ← s.step env skip b .openBlock
  let s ← s.onDb (b.transactions.foldlM (Db.applyTransaction env fuel skip) s.db)
  let s ← s.step env skip b .updateGlobalDynamicData
  let s ← s.step env skip b .updateSigningWitness
  let s ← Traced.lift (s.updateLastIrreversibleBlock env skip)
  let s ← s.step env skip b .createBlockSummary
  let s ← s.onDb (Db.clearExpiredProposals env fuel s.db)
  let s ← closingSteps.foldlM (fun s st => step s env skip b st) s
  let s ← Traced.lift (s.checkBlockPostValidationChain env)
  return s.createBlockPostValidation b.blockNum (Db.blockId env b) b.witness

/-- A run of blocks. -/
def applyBlocks (env : Env) (fuel : Nat) (skip : Skip) (bs : List SignedBlock) :
    StoreRun Store :=
  bs.foldlM (fun s b => applyBlock s env fuel skip b) s

end Store

/-! ## Properties that blocks keep -/

/-- A property that does not depend on the irreversible block and the post-validations. -/
structure KeepsFinality (I : Db → Prop) : Prop where
  irreversible : ∀ db num id, I db → I (db.modifyDgp fun p =>
    { p with lastIrreversibleBlockNum := num, lastIrreversibleBlockId := id })
  postValidations : ∀ db t, I db → I { db with blockPostValidations := t }

/-- A property that, besides the evaluators, the steps of a block keep, and that does not
depend on the irreversible block and the post-validations. -/
structure KeepsBlock (env : Env) (C : Event → Prop) (I : Db → Prop) : Prop extends
    Db.Keeps env C I, KeepsFinality I where
  step : ∀ skip b db (st : BlockStep) db', I db → C (.step db b st true) →
    st.run env skip b db = .ok db' → I db'

theorem KeepsBlock.mono {env : Env} {C D : Event → Prop} {I : Db → Prop} (hI : KeepsBlock env C I)
    (hCD : ∀ e, D e → C e) : KeepsBlock env D I where
  validated := hI.validated
  evaluate clock db op db' hdb hv hD h := hI.evaluate clock db op db' hdb hv (hCD _ hD) h
  proposals := hI.proposals
  opened := hI.opened
  step skip b db st db' hdb hD h := hI.step skip b db st db' hdb (hCD _ hD) h
  irreversible := hI.irreversible
  postValidations := hI.postValidations

/-- `KeepsBlock` for a property of the state and of the events that led to it. -/
structure RecountsBlock (env : Env) (C : Event → Prop) (H : List Event → Db → Prop) : Prop where
  applied : Db.Recounts env C H
  finality : ∀ l, KeepsFinality (H l)
  step : ∀ l skip b db (st : BlockStep) db', H l db → C (.step db b st true) →
    st.run env skip b db = .ok db' → H (l ++ [.step db b st true]) db'

theorem KeepsBlock.recounts {env : Env} {C : Event → Prop} {I : Db → Prop}
    (hI : KeepsBlock env C I) : RecountsBlock env C fun _ => I where
  applied := hI.toKeeps.valid.recounts
  finality _ := hI.toKeepsFinality
  step _ := hI.step

namespace Store

variable {env : Env} {C : Event → Prop} {I : Db → Prop} {H : List Event → Db → Prop}
  {l : List Event} {s s' : Store}

theorem lift_eq_ok {α : Type} {r : Result α} {a : α} : s.lift r = .ok a ↔ r = .ok a := by
  cases r with
  | ok b => simp [lift]
  | error e => simp [lift]

theorem lift_ends {α : Type} {P : Store → Prop} (hs : P s) (r : Result α) :
    Ends (fun e => P e.2) (fun _ => True) (s.lift r) := by
  cases r with
  | ok a => exact trivial
  | error e => exact hs

theorem appendMain_db {num : Nat} (h : s.appendMain num = .ok s') : s'.db = s.db := by
  simp only [appendMain, appendLog, bind_eq_ok, lift_eq_ok, pure_eq_ok] at h
  obtain ⟨_, -, _, -, rfl⟩ := h
  rfl

theorem writeLog_db (h : s.writeLog = .ok s') : s'.db = s.db :=
  foldlM_invariant (fun t => t.db = s.db) appendMain _
    (fun _ _ _ _ ht hstep => (appendMain_db hstep).trans ht) s s' rfl h

theorem writeLogUnless_db {skip : Bool} (h : s.writeLogUnless skip = .ok s') : s'.db = s.db := by
  unfold writeLogUnless at h
  split at h
  · cases h
    rfl
  · exact writeLog_db h

theorem readIrreversibleId_keeps (hI : KeepsFinality I) (hdb : I s.db) :
    I (s.readIrreversibleId env).db := by
  unfold readIrreversibleId
  split
  · exact hdb
  · exact hI.irreversible s.db s.db.dgp.lastIrreversibleBlockNum _ hdb

theorem updateLastIrreversibleBlock_keeps (hI : KeepsFinality I) {skip : Skip} (hdb : I s.db)
    (h : s.updateLastIrreversibleBlock env skip = .ok s') : I s'.db := by
  simp only [updateLastIrreversibleBlock, bind_eq_ok, lift_eq_ok, pure_eq_ok] at h
  obtain ⟨candidate, -, s₁, hlog, rfl⟩ := h
  have hset : I (if s.db.dgp.lastIrreversibleBlockNum < candidate then
      s.setIrreversible candidate else s).db := by
    split
    · exact hI.irreversible s.db candidate _ hdb
    · exact hdb
  have hs₁ : I s₁.db := by
    rw [writeLogUnless_db hlog]
    exact hset
  show I (if candidate = s₁.db.dgp.lastIrreversibleBlockNum then
    s₁.readIrreversibleId env else s₁).db
  split
  · exact readIrreversibleId_keeps hI hs₁
  · exact hs₁

theorem advanceIrreversible_keeps (hI : KeepsFinality I) {num : Nat} (hdb : I s.db)
    (h : s.advanceIrreversible env num = .ok s') : I s'.db := by
  simp only [advanceIrreversible, bind_eq_ok, pure_eq_ok] at h
  obtain ⟨s₁, hlog, rfl⟩ := h
  have hs₁ : I s₁.db := by
    rw [writeLog_db hlog]
    exact hI.irreversible s.db num _ hdb
  exact readIrreversibleId_keeps hI hs₁

theorem checkBlockPostValidationChain_keeps (hI : KeepsFinality I) (hdb : I s.db)
    (h : s.checkBlockPostValidationChain env = .ok s') : I s'.db := by
  refine foldlM_invariant (fun t => I t.db) _ _ (fun v _ t t' ht hstep => ?_) s s' hdb h
  unfold checkPostValidation at hstep
  split at hstep
  · simp only [bind_eq_ok, pure_eq_ok] at hstep
    obtain ⟨t₁, hadvance, rfl⟩ := hstep
    exact hI.postValidations t₁.db _ (advanceIrreversible_keeps hI ht hadvance)
  · rw [pure_eq_ok] at hstep
    exact hstep ▸ ht

theorem onDb_recounts {x : Run Db} (h : Traced.Recounts C l x H) :
    Traced.Recounts C l (s.onDb x) fun l t => H l t.db :=
  h.mapBoth fun _ _ ha => ha

theorem step_recounts (hH : RecountsBlock env C H) (skip : Skip) (b : SignedBlock) (st : BlockStep)
    (hdb : H l s.db) : Traced.Recounts C l (s.step env skip b st) fun l t => H l t.db := by
  refine onDb_recounts (Traced.Recounts.bind
    (H := fun l' _ => l' = l ++ [.step s.db b st true] ∧ C (.step s.db b st true))
    (.report fun hC => ⟨rfl, hC⟩) fun l' _ hl' => ?_)
  obtain ⟨rfl, hC⟩ := hl'
  exact .lift fun db' h => hH.step l skip b s.db st db' hdb hC h

/-- **Blocks.**  What the evaluators and the steps keep, a block keeps. -/
theorem applyBlock_recounts (hH : RecountsBlock env C H) (fuel : Nat) {skip : Skip}
    (hskip : skip.validateOperations = false) (b : SignedBlock) (hdb : H l s.db) :
    Traced.Recounts C l (s.applyBlock env fuel skip b) fun l t => H l t.db := by
  unfold applyBlock
  refine (step_recounts hH skip b .openBlock hdb).bind fun l s₁ h₁ => ?_
  refine (onDb_recounts (s := s₁) (.foldlM H _ b.transactions (fun trx _ l db hdb =>
    Db.applyTransaction_recounts hH.applied fuel hskip trx hdb) s₁.db h₁)).bind fun l s₂ h₂ => ?_
  refine (step_recounts hH skip b .updateGlobalDynamicData h₂).bind fun l s₃ h₃ => ?_
  refine (step_recounts hH skip b .updateSigningWitness h₃).bind fun l s₄ h₄ => ?_
  refine Traced.Recounts.bind (H := fun l (t : Store) => H l t.db)
    (.lift fun s₅ h => updateLastIrreversibleBlock_keeps (hH.finality l) h₄ h) fun l s₅ h₅ => ?_
  refine (step_recounts hH skip b .createBlockSummary h₅).bind fun l s₆ h₆ => ?_
  refine (onDb_recounts (s := s₆) (hH.applied.clearExpiredProposals fuel h₆)).bind
    fun l s₇ h₇ => ?_
  refine (Traced.Recounts.foldlM (fun l (t : Store) => H l t.db) _ closingSteps
    (fun st _ l t ht => step_recounts hH skip b st ht) s₇ h₇).bind fun l s₈ h₈ => ?_
  refine Traced.Recounts.bind (H := fun l (t : Store) => H l t.db)
    (.lift fun s₉ h => checkBlockPostValidationChain_keeps (hH.finality l) h₈ h) fun l s₉ h₉ => ?_
  exact .pure ((hH.finality l).postValidations s₉.db _ h₉)

/-- **Runs.** -/
theorem applyBlocks_recounts (hH : RecountsBlock env C H) (fuel : Nat) {skip : Skip}
    (hskip : skip.validateOperations = false) (bs : List SignedBlock) (hdb : H l s.db) :
    Traced.Recounts C l (s.applyBlocks env fuel skip bs) fun l t => H l t.db :=
  .foldlM (fun l (t : Store) => H l t.db) _ bs
    (fun b _ _ _ ht => applyBlock_recounts hH fuel hskip b ht) s hdb

theorem onDb_ensures {x : Run Db} (h : Traced.Ensures C x I) :
    Traced.Ensures C (s.onDb x) fun t => I t.db :=
  h.mapBoth fun _ ha => ha

theorem applyBlocks_ensures (hI : KeepsBlock env C I) (fuel : Nat) {skip : Skip}
    (hskip : skip.validateOperations = false) (bs : List SignedBlock) (hdb : I s.db) :
    Traced.Ensures C (s.applyBlocks env fuel skip bs) fun t => I t.db := by
  rw [Traced.ensures_iff []]
  exact applyBlocks_recounts hI.recounts fuel hskip bs hdb

end Store

/-! ## A small node -/

/-- A node whose ids and digests are simple numbers. -/
def smallEnv : Env where
  fc :=
    { isUtf8 := fun _ => true, jsonIsValid := fun _ => true, trim := id
      parsePublicKey := fun _ => none, wifToPublicKey := fun _ => none }
  clock := fun _ => 33
  trxId := fun t => t.expiration
  trxSize := fun _ => 100
  signatureKeys := fun t => .ok t.signatures
  headerHash := fun h => h.timestamp
  blockSize := fun _ => 200
  merkleDigest := fun _ => 1
  hashPair := fun a b => a + b
  checksum := id
  signee := fun h => .ok h.witnessSignature

/-- Three system accounts, the witness alice who holds all shares, and the accounts `others`;
all of them are controlled by the key 7. -/
def smallStore (others : List AccountObject) : Store :=
  let accounts : List AccountObject :=
    [{ id := 0, name := "null" }, { id := 1, name := "anonymous" }, { id := 2, name := "committee" },
      { id := 3, name := "alice", balance := 2000, vestingShares := 1000000 }] ++ others
  let key := Db.singleKey 7
  { db :=
      { dgp :=
          { headBlockNumber := 10, headBlockId := ⟨10, 30⟩, time := 30
            currentSupply := 3000 + (others.map (·.balance)).sum
            totalVestingFund := 1000, totalVestingShares := 1000000, maximumBlockSize := 65536 }
        witnessSchedule := { currentShuffledWitnesses := ["alice"], nextShuffleBlockNum := 21 }
        accounts := ⟨accounts, accounts.length⟩
        accountAuthorities := ⟨accounts.map fun a => ⟨a.id, a.name, key, key, key, 0⟩,
          accounts.length⟩
        witnesses := ⟨[{ id := 0, owner := "alice", signingKey := 7 }], 1⟩
        blockSummaries := ⟨[⟨10, ⟨10, 30⟩⟩, ⟨11, ⟨0, 0⟩⟩, ⟨12, ⟨0, 0⟩⟩], 65536⟩ } }

/-- The next block, with the operations `ops` in one transaction. -/
def smallBlock (ops : List Operation) : SignedBlock :=
  { previous := ⟨10, 30⟩, timestamp := 33, witness := "alice", transactionMerkleRoot := 1
    extensions := [], witnessSignature := 7
    transactions := [⟨⟨10, 30, 40, ops⟩, [7]⟩] }

/-- The same before block 3705111, one of those that may lack signatures.  As after
`init_genesis`, nobody can sign for the accounts of the system. -/
def lenientStore (others : List AccountObject) : Store :=
  let s := smallStore others
  let noKeys : Authority := { weightThreshold := 1 }
  { s with db := { s.db with
      dgp := { s.db.dgp with
        headBlockNumber := 3705110, headBlockId := ⟨3705110, 30⟩
        lastIrreversibleBlockNum := 3705109 }
      witnessSchedule := { s.db.witnessSchedule with nextShuffleBlockNum := 3705120 }
      accountAuthorities := ⟨s.db.accountAuthorities.rows.map fun a =>
        if a.account ∈ ["null", "anonymous", "committee"] then
          { a with master := noKeys, active := noKeys, regular := noKeys }
        else a, s.db.accountAuthorities.nextId⟩
      blockSummaries := ⟨[⟨35094, ⟨3705110, 30⟩⟩, ⟨35095, ⟨0, 0⟩⟩], 65536⟩ } }

/-- Block 3705111, with one transaction that is signed and one that is not. -/
def lenientBlock (signed unsigned : List Operation) : SignedBlock :=
  { smallBlock [] with
    previous := ⟨3705110, 30⟩
    transactions := [⟨⟨35094, 30, 40, signed⟩, [7]⟩, ⟨⟨35094, 30, 41, unsigned⟩, []⟩] }

/-- carol's account is for sale by auction, and bob has no tokens. -/
def auctionStore : Store :=
  smallStore [{ id := 4, name := "bob" },
    { id := 5, name := "carol", accountOnSale := true, accountSeller := "carol"
      accountOfferPrice := 100, accountOnSaleStartTime := 1000, accountOnAuction := true }]

/-- bob bids 200 tokens for carol's account. -/
def uncoveredBid : Operation :=
  .buyAccount { buyer := "bob", account := "carol", accountOfferPrice := ⟨200, tokenSymbol⟩
                accountAuthoritiesKey := 7, tokensToShares := ⟨1000, tokenSymbol⟩ }

end VizCore.Chain
