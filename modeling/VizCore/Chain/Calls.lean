import VizCore.Chain.Lookup

/-!
# Calls of a node at the end of its chain

A node between two calls stands at the end of its chain, with a session of pending transactions on
top of it or without.

* `Seated`: that state, over the store that the pending session is opened on;
* `Seated.pushTransaction`, `Seated.pushBlock`, `Seated.generateBlock`,
  `Seated.applyBlockPostValidation`: what the calls leave of it.
-/

namespace VizCore.Chain

open VizCore.Lib VizCore.Protocol

variable {env env' : Env} {fuel : Nat} {skip : Skip} {b : SignedBlock} {c : List SignedBlock}

namespace Db

variable {db db' : Db}

/-- What a database at the end of a chain holds up to the last operation. -/
def Marked (env : Env) (c : List SignedBlock) (k : Nat) (db : Db) : Prop :=
  At env c db ∧ db.dgp.lastIrreversibleBlockNum ≤ k

theorem Marked.of_holds {k : Nat} (h : Marked env c k db)
    (hdb : Holds env db.landmarks c db.dgp.lastIrreversibleBlockNum
      db.dgp.lastIrreversibleBlockNum db') : Marked env c k db' := by
  have hmark : db'.headMark = db.headMark := congrArg Prod.fst hdb.landmarks
  have hsummaries : db'.blockSummaries = db.blockSummaries := congrArg Prod.snd hdb.landmarks
  have hirreversible := le_antisymm hdb.ceiling hdb.floor
  obtain ⟨hat, hlogged⟩ := h
  refine ⟨⟨hmark.trans hat.mark, ?_, ?_, hdb.validations, hdb.backed, ?_, ?_⟩, ?_⟩
  · rw [hsummaries]
    exact hat.rows
  · rw [hsummaries]
    exact hat.ring
  · rw [hirreversible]
    exact hat.ceiling
  · rw [hirreversible]
    exact hat.reach
  · rw [hirreversible]
    exact hlogged

/-- Transactions leave it alone. -/
theorem Marked.applyTransaction {k n : Nat} {trx : SignedTransaction} (h : Marked env c k db)
    (hrun : (Db.applyTransaction env' fuel skip db trx n).2 = .ok db') : Marked env c k db' := by
  refine h.of_holds ?_
  have hstart : Holds env db.landmarks c db.dgp.lastIrreversibleBlockNum
      db.dgp.lastIrreversibleBlockNum db := ⟨rfl, h.1.validations, h.1.backed, le_rfl, le_rfl⟩
  exact Db.applyTransaction_framed (holds_framed env env' _ _ _ _) fuel skip trx hstart n
    (fun _ _ => trivial) db' hrun

end Db

namespace Node

variable {n n' : Node} {base : Store}

/-- The node stands at the end of its chain, with a pending session on top or without. -/
structure Seated (env : Env) (c : List SignedBlock) (base : Store) (n : Node) : Prop where
  along : base.Along env c c
  released : base.forkDb.held = []
  closed : n.pendingSession = false → n.toStore = base
  opened : n.pendingSession = true → n.toStore = { base.startUndoSession with db := n.db }
  marked : Db.Marked env c base.blockLog.length n.db

theorem Rested.seated (h : Rested env c n) : Seated env c n.toStore n where
  along := h.along
  released := h.released
  closed _ := rfl
  opened hopen := by
    rw [h.closed] at hopen
    cases hopen
  marked := ⟨h.along.stands, h.along.logged⟩

namespace Seated

theorem store (h : Seated env c base n) : n.blockLog = base.blockLog ∧ n.forkDb = base.forkDb := by
  cases hsession : n.pendingSession with
  | false =>
    rw [h.closed hsession]
    exact ⟨rfl, rfl⟩
  | true =>
    rw [h.opened hsession]
    exact ⟨rfl, rfl⟩

theorem readable (h : Seated env c base n) : n.toStore.Readable env c := by
  obtain ⟨hlog, hfork⟩ := h.store
  refine ⟨h.marked.1, ?_, ?_, ?_, ?_⟩
  · rw [hlog]
    exact h.marked.2
  · rw [hlog]
    exact h.along.log
  · rw [hfork, hlog]
    exact h.along.filed
  · rw [hfork]
    exact h.released

/-- The pending session is thrown away. -/
theorem reset (h : Seated env c base n) :
    n.resetPendingSession.toStore = base ∧ n.resetPendingSession.pendingSession = false := by
  unfold resetPendingSession
  split
  · rename_i hopen
    refine ⟨?_, rfl⟩
    show n.undo = base
    rw [h.opened hopen]
    exact base.undo_startUndoSession
  · rename_i hclosed
    exact ⟨h.closed (Bool.not_eq_true _ ▸ hclosed), Bool.not_eq_true _ ▸ hclosed⟩

theorem rested {m : Node} (h : Seated env c base n) (hstore : m.toStore = base)
    (hclosed : m.pendingSession = false) : Rested env c m := by
  refine ⟨?_, hclosed, ?_⟩
  · rw [hstore]
    exact h.along
  · rw [hstore]
    exact h.released

theorem openPendingSession (h : Seated env c base n) :
    Seated env c base n.openPendingSession ∧ n.openPendingSession.pendingSession = true := by
  unfold Node.openPendingSession
  split
  · rename_i hopen
    exact ⟨h, hopen⟩
  · rename_i hclosed
    have hstore := h.closed (Bool.not_eq_true _ ▸ hclosed)
    refine ⟨⟨h.along, h.released, fun hno => (by cases hno), fun _ => ?_, h.marked⟩, rfl⟩
    show n.startUndoSession = _
    rw [hstore]

/-! ## Transactions -/

theorem pushTransactionCore (h : Seated env c base n) {trx : SignedTransaction} :
    Ends (fun e => Seated env c base e.2) (Seated env c base)
      (n.pushTransactionCore env' fuel skip trx) := by
  obtain ⟨hseated, hopen⟩ := h.openPendingSession
  unfold Node.pushTransactionCore
  generalize n.openPendingSession = m at *
  have hstore := hseated.opened hopen
  dsimp only
  split
  · rename_i e he
    rw [Store.undo_startUndoSession]
    exact ⟨hseated.along, hseated.released, hseated.closed, hseated.opened, hseated.marked⟩
  · rename_i db hdb
    rw [Store.squash_startUndoSession]
    refine ⟨hseated.along, hseated.released, fun hno => ?_, fun _ => ?_,
      hseated.marked.applyTransaction hdb⟩
    · exact absurd (hopen.symm.trans hno) (by decide)
    · show ({ m.toStore with db := db } : Store) = _
      rw [hstore]

/-- **`push_transaction`**, whether it returns or throws. -/
theorem pushTransaction (h : Seated env c base n) {trx : SignedTransaction} :
    Ends (fun e => Seated env c base e.2) (Seated env c base)
      (n.pushTransaction env' fuel skip trx) := by
  unfold Node.pushTransaction
  exact (lift_ends (P := Seated env c base) h _).bind fun _ _ => h.pushTransactionCore

theorem restoreOne (h : Seated env c base n) (trx : SignedTransaction) :
    Seated env c base (n.restoreOne env' fuel skip trx) := by
  unfold Node.restoreOne
  split
  · exact h
  · have hpush := @pushTransactionCore env env' fuel skip c n base h trx
    split
    · rename_i m hm
      exact hpush.of_ok hm
    · rename_i e m hm
      exact hpush.of_error hm

theorem restorePending (h : Seated env c base n) (budget : Nat)
    (pending : List SignedTransaction) :
    Seated env c base (n.restorePending env' fuel skip budget pending) := by
  have hall : ∀ (w : List SignedTransaction) (m : Node), Seated env c base m →
      Seated env c base (w.foldl (fun m trx => m.restoreOne env' fuel skip trx) m) := by
    intro w
    induction w with
    | nil => exact fun m hm => hm
    | cons trx w ih => exact fun m hm => ih _ (hm.restoreOne trx)
  have hend := hall ((n.poppedTx ++ pending).take budget) n h
  exact ⟨hend.along, hend.released, hend.closed, hend.opened, hend.marked⟩

end Seated

/-! ## Blocks -/

/-- The clock plays no part in where a node stands. -/
theorem Rested.of_clock {clock : Nat → TimePointSec}
    (h : Rested { env with clock := clock } c n) : Rested env c n := by
  obtain ⟨low, hfiled, hlow⟩ := h.along.filed
  have hgrown : ForkDb.Grown env low n.forkDb :=
    ⟨hfiled.grown.nodup, hfiled.grown.addrs, hfiled.grown.fresh, hfiled.grown.named,
      hfiled.grown.above, hfiled.grown.prev, hfiled.grown.wired⟩
  have hat : ∀ (m : List SignedBlock) (db : Db), Db.At { env with clock := clock } m db →
      Db.At env m db := fun m db hdb =>
    ⟨hdb.mark, hdb.rows, hdb.ring, hdb.validations, hdb.backed, hdb.ceiling, hdb.reach⟩
  refine ⟨⟨⟨⟨h.along.log, h.along.stack.mono hat, h.along.revision, h.along.recent,
    h.along.within⟩, hat c _ h.along.stands, h.along.logged, h.along.past⟩, low, ?_, hlow⟩,
    h.closed, h.released⟩
  refine ⟨⟨hfiled.linked, hgrown, hfiled.low_pos, hfiled.low_le, hfiled.main⟩, hfiled.top,
    hfiled.start, fun x hx => ?_⟩
  rcases hfiled.head x hx with hon | hstray
  · exact .inl hon
  · exact .inr ⟨hstray.previous, hstray.low, hstray.high, hstray.alone⟩

/-- **`push_block`** with the checks that keep the node on its course: the fork database, the log
and the undo history are in use. -/
structure Unskipped (skip : Skip) : Prop where
  forkDb : skip.forkDb = false
  blockLog : skip.blockLog = false
  undoHistoryCheck : skip.undoHistoryCheck = false

/-- What the fork database takes is put where it has to be, and when the push fails there is no
switch and the head is where it was. -/
structure Sound (env : Env) (fuel : Nat) (skip : Skip) (budget : Nat) (n : Node) (b : SignedBlock) :
    Prop where
  unskipped : Unskipped skip
  placed : ∀ g, n.forkDb.pushBlock env b = .ok g → n.Placed env b
  thrown : ∀ e n', n.pushBlock env fuel skip budget b = .error (e, n') →
    ¬ n.Switches env b ∧ n'.db.headMark = n.db.headMark

instance (skip : Skip) : Decidable (Unskipped skip) :=
  decidable_of_iff (skip.forkDb = false ∧ skip.blockLog = false ∧ skip.undoHistoryCheck = false)
    ⟨fun ⟨h, h', h''⟩ => ⟨h, h', h''⟩, fun ⟨h, h', h''⟩ => ⟨h, h', h''⟩⟩

instance (budget : Nat) (b : SignedBlock) : Decidable (Sound env fuel skip budget n b) :=
  decidable_of_iff (Unskipped skip ∧ (∀ g, n.forkDb.pushBlock env b = .ok g → n.Placed env b) ∧
      ∀ r, n.pushBlock env fuel skip budget b = .error r →
        ¬ n.Switches env b ∧ r.2.db.headMark = n.db.headMark)
    ⟨fun ⟨h, h', h''⟩ => ⟨h, h', fun e n' => h'' (e, n')⟩,
      fun ⟨h, h', h''⟩ => ⟨h, h', fun r => h'' r.1 r.2⟩⟩

/-- What the witness has made of the chain `c`: the next block, at its turn and with its key. -/
structure Produces (env : Env) (c : List SignedBlock) (n : Node) (time : TimePointSec)
    (witnessOwner : AccountName) (key : SigningKey) (b : SignedBlock) : Prop where
  previous : b.previous = (links env).tip c
  timestamp : b.timestamp = time
  witness : b.witness = witnessOwner
  signature : ∃ header : SignedBlockHeader,
    b.toSignedBlockHeader = { header with witnessSignature := key.sign header }
  slot : 0 < n.db.getSlotAtTime time
  turn : n.db.getScheduledWitness (n.db.getSlotAtTime time) = witnessOwner
  signingKey : ∃ w, n.db.getWitness witnessOwner = .ok w ∧ w.signingKey = key.publicKey

section

variable {budget headerSize : Nat} {time : TimePointSec} {witnessOwner : AccountName}
  {key : SigningKey}

theorem signedBlock_previous (db : Db) (w : WitnessObject) (trxs : List SignedTransaction) :
    (signedBlock env skip db w time trxs key).previous = db.dgp.headBlockId := by
  unfold signedBlock
  dsimp only
  split
  · rfl
  · rfl

/-- What has been checked when a block is assembled, and which block it is. -/
theorem assembleBlock_eq_ok
    (h : n.assembleBlock env fuel skip headerSize time witnessOwner key = .ok (n', b)) :
    0 < n.db.getSlotAtTime time ∧
      n.db.getScheduledWitness (n.db.getSlotAtTime time) = witnessOwner ∧
      (∃ w, n.db.getWitness witnessOwner = .ok w ∧
        (skip.witnessSignature = false → w.signingKey = key.publicKey)) ∧
      ∃ w trxs, w.owner = witnessOwner ∧ b = signedBlock env skip n'.db w time trxs key := by
  obtain ⟨_, hslot, h⟩ := (bind_eq_ok _ _ _).1 h
  obtain ⟨_, hturn, h⟩ := (bind_eq_ok _ _ _).1 h
  obtain ⟨w, hw, h⟩ := (bind_eq_ok _ _ _).1 h
  obtain ⟨_, hkey, h⟩ := (bind_eq_ok _ _ _).1 h
  obtain ⟨w', hw', h⟩ := (bind_eq_ok _ _ _).1 h
  cases h
  refine ⟨(fcAssert_eq_ok _ _ _).1 (lift_eq_ok hslot), (fcAssert_eq_ok _ _ _).1 (lift_eq_ok hturn),
    ⟨w, lift_eq_ok hw, fun hsigned => ?_⟩, w', _, Db.getWitness_owner (lift_eq_ok hw'), rfl⟩
  have hkeys := lift_eq_ok hkey
  rw [hsigned] at hkeys
  exact (fcAssert_eq_ok _ _ _).1 hkeys

/-- A block that is generated is assembled and pushed; before the push only an exception ends it. -/
theorem generateBlock_cases (env : Env) (fuel : Nat) (skip : Skip) (budget headerSize : Nat)
    (time : TimePointSec) (witnessOwner : AccountName) (key : SigningKey) (n : Node) :
    (∃ e m, n.generateBlock env fuel skip budget headerSize time witnessOwner key = .error (e, m) ∧
      (n.assembleBlock env fuel skip headerSize time witnessOwner key = .error (e, m) ∨
        ∃ b, n.assembleBlock env fuel skip headerSize time witnessOwner key = .ok (m, b))) ∨
    ∃ m b, n.assembleBlock env fuel skip headerSize time witnessOwner key = .ok (m, b) ∧
      n.generateBlock env fuel skip budget headerSize time witnessOwner key =
        m.pushBlock env fuel skip budget b >>= fun r => pure (r.1, b) := by
  unfold Node.generateBlock
  cases n.assembleBlock env fuel skip headerSize time witnessOwner key with
  | error e => exact .inl ⟨e.1, e.2, rfl, .inl rfl⟩
  | ok r =>
    obtain ⟨m, b⟩ := r
    show (∃ e m', (m.lift (unlessSkipped skip.blockSizeCheck _) >>= _) = _ ∧ _) ∨
      ∃ m' b', _ ∧ (m.lift (unlessSkipped skip.blockSizeCheck _) >>= _) = _
    cases unlessSkipped skip.blockSizeCheck (fcAssert (env.blockSize b ≤ chainBlockSize)
        "fc::raw::pack_size(pending_block) <= CHAIN_BLOCK_SIZE") with
    | error e => exact .inl ⟨e, m, rfl, .inr ⟨b, rfl⟩⟩
    | ok u => exact .inr ⟨m, b, rfl, rfl⟩

end

namespace Seated

theorem clearPending (h : Seated env c base n) :
    Rested env c n.clearPending ∧ n.clearPending.toStore = base := by
  obtain ⟨hstore, hclosed⟩ := h.reset
  exact ⟨h.rested hstore hclosed, hstore⟩

theorem marks (h : Seated env c base n) : n.db.headMark = base.db.headMark :=
  h.marked.1.mark.trans h.along.stands.mark.symm

/-- **A pushed block.**  On the head it makes the chain longer. -/
theorem pushBlock {clock : Nat → TimePointSec} {budget : Nat} (h : Seated env c base n)
    (hsound : Sound { env with clock := clock } fuel skip budget n b) :
    ∃ c' base', Seated env c' base'
        (left (n.pushBlock { env with clock := clock } fuel skip budget b)) ∧
      base.blockLog <+: base'.blockLog ∧
      (∀ r, n.pushBlock { env with clock := clock } fuel skip budget b = .ok r →
        b.previous = (links env).tip c → c' = c ++ [b]) ∧
      ∀ e, n.pushBlock { env with clock := clock } fuel skip budget b = .error e → c' = c := by
  obtain ⟨hrested, hstore⟩ := h.clearPending
  have hrested' : Rested { env with clock := clock } c n.clearPending :=
    @Rested.of_clock { env with clock := clock } c n.clearPending env.clock hrested
  have hmark : n.clearPending.db.headMark = n.db.headMark := by
    rw [hstore]
    exact h.marks.symm
  have hid : n.clearPending.db.dgp.headBlockId = n.db.dgp.headBlockId := congrArg Prod.snd hmark
  have hheight : n.clearPending.db.dgp.headBlockNumber = n.db.dgp.headBlockNumber :=
    congrArg Prod.fst hmark
  have hfork : n.clearPending.forkDb = n.forkDb := by
    rw [hstore]
    exact h.store.2.symm
  have hplaced : ∀ g, n.clearPending.forkDb.pushBlock { env with clock := clock } b = .ok g →
      n.clearPending.Placed { env with clock := clock } b := by
    unfold Placed
    rw [hid, hheight, hfork]
    exact hsound.placed
  have hcore := @pushBlockCore_rested { env with clock := clock } fuel skip b c n.clearPending
    hrested' hplaced hsound.unskipped.forkDb hsound.unskipped.blockLog
    hsound.unskipped.undoHistoryCheck
  have hlog : n.clearPending.blockLog = base.blockLog := congrArg Store.blockLog hstore
  have hthrown := hsound.thrown
  unfold Node.pushBlock at hthrown ⊢
  cases hrun : n.clearPending.pushBlockCore { env with clock := clock } fuel skip b with
  | ok r =>
    obtain ⟨c', hend, hgrown, hnext⟩ := hcore.of_ok hrun
    refine ⟨c', r.1.toStore, hend.of_clock.seated.restorePending budget n.pendingTx, ?_,
      fun _ _ => hnext, fun e he => by cases he⟩
    rw [← hlog]
    exact hgrown
  | error e =>
    obtain ⟨hstays, hsame⟩ := hthrown e.1 _ (by rw [hrun])
    have hpushed : n.pushed { env with clock := clock } fuel skip b = e.2 := by
      unfold pushed
      rw [hrun]
      rfl
    obtain ⟨hclosed, htx⟩ := @pushed_closed { env with clock := clock } fuel skip n b
    rw [hpushed] at hclosed htx
    obtain ⟨l, hover⟩ := @restorePending_over { env with clock := clock } fuel skip e.2 budget
      n.pendingTx hclosed htx
    have hkept : e.2.db.headMark = n.clearPending.db.headMark := by
      rw [← hover.heads.2, hmark]
      exact hsame
    have hstays' : ¬ n.clearPending.Switches { env with clock := clock } b := by
      unfold Switches
      rw [hid, hheight, hfork]
      exact hstays
    obtain ⟨hend, hgrown⟩ := (hcore.of_error hrun hstays').resolve_right (not_not.2 hkept)
    refine ⟨c, e.2.toStore, hend.of_clock.seated.restorePending budget n.pendingTx, ?_,
      fun r hr => (by cases hr), fun _ _ => rfl⟩
    rw [← hlog]
    exact hgrown

/-- What is collected for a block is thrown away again. -/
theorem collectPending {time : TimePointSec} {headerSize : Nat} (h : Seated env c base n) :
    Seated env c base (n.collectPending env' fuel skip time headerSize).1 := by
  obtain ⟨hstore, hclosed⟩ := h.reset
  have hopen : Collecting base n.resetPendingSession.pendingTx
      n.resetPendingSession.openPendingSession := by
    unfold Node.openPendingSession
    rw [hclosed, if_neg (by decide)]
    refine ⟨rfl, ?_, rfl⟩
    rw [hstore]
  unfold Node.collectPending
  dsimp only
  generalize hstart : ({ node := n.resetPendingSession.openPendingSession, size := headerSize } :
    Collected) = start
  have hcollecting : Collecting base n.resetPendingSession.pendingTx start.node := by
    rw [← hstart]
    exact hopen
  obtain ⟨hend, hended, -⟩ := (@collect_collecting env' fuel skip base _ time
    n.db.dgp.maximumBlockSize n.pendingTx start hcollecting).reset
  have hrested := (h.rested hend hended).seated
  rw [hend] at hrested
  exact hrested

/-- Before a block is pushed, what is thrown leaves the node where it stands. -/
theorem assembleBlock {headerSize : Nat} {time : TimePointSec} {witnessOwner : AccountName}
    {key : SigningKey} (h : Seated env c base n) :
    Ends (fun e => Seated env c base e.2) (fun r => Seated env c base r.1)
      (n.assembleBlock env' fuel skip headerSize time witnessOwner key) := by
  have hcollected := @collectPending env env' fuel skip c n base time headerSize h
  unfold Node.assembleBlock
  refine (lift_ends (P := Seated env c base) h _).bind fun _ _ => ?_
  refine (lift_ends (P := Seated env c base) h _).bind fun _ _ => ?_
  refine (lift_ends (P := Seated env c base) h _).bind fun _ _ => ?_
  refine (lift_ends (P := Seated env c base) h _).bind fun _ _ => ?_
  exact (lift_ends (P := Seated env c base) hcollected _).bind fun _ _ => hcollected

theorem assembleBlock_produces {m : Node} {headerSize : Nat} {time : TimePointSec}
    {witnessOwner : AccountName} {key : SigningKey} (h : Seated env c base n)
    (hsigned : skip.witnessSignature = false)
    (hrun : n.assembleBlock env' fuel skip headerSize time witnessOwner key = .ok (m, b)) :
    Produces env c n time witnessOwner key b := by
  have hm : Seated env c base m :=
    (@assembleBlock env env' fuel skip c n base headerSize time witnessOwner key h).of_ok hrun
  obtain ⟨hslot, hturn, ⟨w, hw, hkey⟩, w', trxs, hown, rfl⟩ := assembleBlock_eq_ok hrun
  refine ⟨?_, ?_, ?_, ?_, hslot, hturn, w, hw, hkey hsigned⟩
  · rw [signedBlock_previous]
    exact congrArg Prod.snd hm.marked.1.mark
  · rw [signedBlock, hsigned]
    rfl
  · rw [signedBlock, hsigned]
    exact hown
  · rw [signedBlock, hsigned]
    exact ⟨_, rfl⟩

/-- **A generated block** is pushed on the head. -/
theorem generateBlock {clock : Nat → TimePointSec} {budget headerSize : Nat} {time : TimePointSec}
    {witnessOwner : AccountName} {key : SigningKey} (h : Seated env c base n)
    (hsound : ∀ m b, n.assembleBlock { env with clock := clock } fuel skip headerSize time
      witnessOwner key = .ok (m, b) → Sound { env with clock := clock } fuel skip budget m b) :
    ∃ c' base', Seated env c' base' (left (n.generateBlock { env with clock := clock } fuel skip
        budget headerSize time witnessOwner key)) ∧
      base.blockLog <+: base'.blockLog ∧
      (∀ m b, n.generateBlock { env with clock := clock } fuel skip budget headerSize time
        witnessOwner key = .ok (m, b) → skip.witnessSignature = false →
        c' = c ++ [b] ∧ Produces env c n time witnessOwner key b) ∧
      ∀ e, n.generateBlock { env with clock := clock } fuel skip budget headerSize time
        witnessOwner key = .error e → c' = c := by
  have hassemble := @assembleBlock env { env with clock := clock } fuel skip c n base headerSize
    time witnessOwner key h
  rcases generateBlock_cases { env with clock := clock } fuel skip budget headerSize time
    witnessOwner key n with ⟨e, m, hthrown, hleft⟩ | ⟨m, b, hrun, hpushed⟩
  · have hm : Seated env c base m := by
      rcases hleft with herror | ⟨b, hok⟩
      · exact hassemble.of_error herror
      · exact hassemble.of_ok hok
    rw [hthrown]
    exact ⟨c, base, hm, List.prefix_refl _, fun m' b' hmade => (by cases hmade), fun _ _ => rfl⟩
  · have hm : Seated env c base m := hassemble.of_ok hrun
    obtain ⟨c', base', hend, hgrown, hnext, hsame⟩ := hm.pushBlock (hsound m b hrun)
    rw [hpushed]
    cases hcase : m.pushBlock { env with clock := clock } fuel skip budget b with
    | ok r =>
      rw [hcase] at hend
      refine ⟨c', base', hend, hgrown, fun m' b' hmade hsigned => ?_, fun e he => by cases he⟩
      cases hmade
      have hproduces := h.assembleBlock_produces hsigned hrun
      exact ⟨hnext r hcase hproduces.previous, hproduces⟩
    | error e =>
      rw [hcase] at hend
      exact ⟨c', base', hend, hgrown, fun m' b' hmade => (by cases hmade), fun _ _ => hsame e hcase⟩

/-! ## Post-validations -/

/-- Nothing of the node but its database has changed. -/
theorem of_db (h : Seated env c base n) {db : Db} (hmarked : Db.Marked env c base.blockLog.length db) :
    ∃ base', Seated env c base' { n with db := db } ∧ base'.blockLog = base.blockLog := by
  cases hsession : n.pendingSession with
  | false =>
    have hstore := h.closed hsession
    have halong : ({ n.toStore with db := db } : Store).Along env c c := by
      rw [hstore]
      have htrails := h.along.toTrails
      exact ⟨⟨⟨htrails.log, htrails.stack, htrails.revision, htrails.recent, htrails.within⟩,
        hmarked.1, hmarked.2, h.along.past⟩, h.along.filed⟩
    refine ⟨{ n.toStore with db := db }, ⟨halong, ?_, fun _ => rfl, fun hopen => ?_, ?_⟩, ?_⟩
    · exact (congrArg (fun s : Store => s.forkDb.held) hstore).trans h.released
    · exact absurd hopen Bool.false_ne_true
    · show Db.Marked env c n.blockLog.length db
      rw [h.store.1]
      exact hmarked
    · exact h.store.1
  | true =>
    refine ⟨base, ⟨h.along, h.released, fun hclosed => ?_, fun _ => ?_, hmarked⟩, rfl⟩
    · exact absurd hclosed.symm Bool.false_ne_true
    · show ({ n.toStore with db := db } : Store) = _
      rw [h.opened hsession]

/-- The irreversible block moves up along the chain. -/
theorem advanceIrreversible {s : Store} {num : Nat} (h : Seated env c base n)
    (hlow : n.irreversible ≤ num) (hhigh : num ≤ c.length)
    (hrun : n.advanceIrreversible env num = .ok s) :
    ∃ base', Seated env c base' { n with toStore := s } ∧ base.blockLog <+: base'.blockLog := by
  obtain ⟨low, hfiled, -⟩ := h.along.filed
  have hheight : n.db.dgp.headBlockNumber = c.length := congrArg Prod.fst h.marked.1.mark
  have hhead : ∀ x, base.forkDb.head = some x → x.num ≤ n.db.dgp.headBlockNumber + 1 := by
    intro x hx
    rw [hheight]
    exact hfiled.head_num hx
  have hnum : n.db.dgp.headBlockNumber + 1 < num + 2 ^ 32 := by
    have hreach := h.marked.1.reach
    unfold Store.irreversible at hlow
    omega
  have hmarks : ∀ u, Store.Moved num n.toStore u → num ≤ u.blockLog.length →
      Db.Marked env c u.blockLog.length u.db := by
    intro u hu hlogged
    obtain ⟨id, hid⟩ := hu.db
    have hat := h.marked.1
    rw [hid]
    refine ⟨⟨hat.mark, hat.rows, hat.ring, hat.validations, hat.backed, hhigh, ?_⟩, hlogged⟩
    have hreach := hat.reach
    show c.length < num + 2 ^ 16
    unfold Store.irreversible at hlow
    omega
  cases hsession : n.pendingSession with
  | false =>
    have hstore := h.closed hsession
    have hsteady : Store.Steady env c c base n.toStore := by
      rw [hstore]
      exact .refl h.along.toStored
    obtain ⟨hs, hmoved, hlogged⟩ := (hsteady.advanceIrreversible hhigh hhead hnum).of_ok hrun
    have hmarked := hmarks s hmoved hlogged
    obtain ⟨cut, hcut⟩ := hs.trimmed
    refine ⟨s, ⟨⟨⟨hs.toTrails, hmarked.1, hmarked.2, fun u hu => ?_⟩, hs.filed⟩,
      hs.shrunk.held.trans h.released, fun _ => rfl, fun hopen => ?_, hmarked⟩, hs.grown⟩
    · rw [hcut] at hu
      exact (h.along.past u (List.mem_filter.1 hu).1).trans hs.grown.length_le
    · exact absurd hopen Bool.false_ne_true
  | true =>
    -- the pending session is the session of a block that has not come yet
    obtain ⟨b, hb⟩ : ∃ b : SignedBlock, b = ⟨⟨⟨0, 0⟩, 0, "", 0, [], 0⟩, []⟩ := ⟨_, rfl⟩
    have hlength : (c ++ [b]).length = c.length + 1 := by rw [List.length_append]; rfl
    have hsteady : Store.Steady env c (c ++ [b]) base.startUndoSession n.toStore := by
      rw [h.opened hsession]
      exact (Store.Steady.refl (h.along.startUndoSession b)).of_db n.db
    obtain ⟨hs, hmoved, hlogged⟩ :=
      (hsteady.advanceIrreversible (hlength ▸ Nat.le_succ_of_le hhigh) hhead hnum).of_ok hrun
    rcases h.along.undone hs with ⟨halong, hshrunk, hgrown, -, hsame⟩ | ⟨hnone, -⟩
    · have hlog : s.undo.blockLog = s.blockLog := (congrArg Store.blockLog hsame).symm
      refine ⟨s.undo, ⟨halong, hshrunk.held.trans h.released, fun hclosed => ?_, fun _ => hsame, ?_⟩,
        hgrown⟩
      · exact absurd hclosed.symm Bool.false_ne_true
      · rw [hlog]
        exact hmarks s hmoved hlogged
    · have hstack := hmoved.stack
      rw [h.opened hsession, hnone] at hstack
      have hkept : (base.revision + 1, base.db) ∈ ([] : List (Nat × Db)) := by
        rw [hstack]
        refine List.mem_filter.2 ⟨List.mem_cons_self, decide_eq_true ?_⟩
        have hrevision := h.along.revision
        show num < base.revision + 1
        omega
      exact absurd hkept List.not_mem_nil

/-- **A post-validation** that arrives: the irreversible block may move, and the log with it. -/
theorem applyBlockPostValidation {s : Store} {id : BlockId} {name : AccountName}
    (h : Seated env c base n) (hrun : n.applyBlockPostValidation env id name = .ok s) :
    ∃ base', Seated env c base' { n with toStore := s } ∧ base.blockLog <+: base'.blockLog := by
  unfold Store.applyBlockPostValidation at hrun
  split at hrun
  · cases hrun
    exact ⟨base, h, List.prefix_refl _⟩
  · rename_i v hv
    have hat := h.marked.1
    have hnum : v.blockNum ≤ c.length :=
      (hat.validations v (Table.get_mem hv)).le h.along.linked
    have hmarked : Db.Marked env c base.blockLog.length { n.db with
        blockPostValidations := n.db.blockPostValidations.update (·.blockId) id
          (Store.markValidated name) } :=
      ⟨⟨hat.mark, hat.rows, hat.ring, Table.all_update hat.validations fun _ _ hw => hw, hat.backed,
        hat.ceiling, hat.reach⟩, h.marked.2⟩
    obtain ⟨base', hseated, hlog⟩ := h.of_db hmarked
    rw [← hlog]
    dsimp only at hrun
    split at hrun
    · rename_i hnext
      have hlow : n.db.dgp.lastIrreversibleBlockNum ≤ v.blockNum := by omega
      have hadvanced := hseated.advanceIrreversible hlow hnum hrun
      exact hadvanced
    · cases hrun
      exact ⟨base', hseated, List.prefix_refl _⟩

end Seated

end Node

end VizCore.Chain
