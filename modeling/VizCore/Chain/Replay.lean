import VizCore.Chain.Genesis
import VizCore.Chain.Invariant

/-!
# Replay protection

A transaction is recorded when it is applied, and the record is dropped once the head time has
passed its expiration.  From then on the transaction does not pass validation any more, so along
a chain of blocks no transaction is applied twice.

* `Chronicle`: what the database knows of the transactions that have been applied;
* `applyBlock_chronicle`: a block adds its transactions;
* `replay_protection`: blocks and undone blocks in any order.
-/

namespace VizCore.Chain

open VizCore.Lib VizCore.Protocol

/-! ## Records -/

namespace RecordRest

/-- The head stays where it is, and no record is dropped. -/
structure Extends (r r' : RecordRest) : Prop where
  time : r'.time = r.time
  number : r'.number = r.number
  headId : r'.headId = r.headId
  rows : ∀ t ∈ r.transactions.rows, t ∈ r'.transactions.rows

theorem Extends.refl (r : RecordRest) : Extends r r := ⟨rfl, rfl, rfl, fun _ h => h⟩

theorem Extends.of_eq {r r' : RecordRest} (h : r' = r) : Extends r r' := h ▸ .refl r'

theorem Extends.trans {r r' r'' : RecordRest} (h : Extends r r') (h' : Extends r' r'') :
    Extends r r'' where
  time := h'.time.trans h.time
  number := h'.number.trans h.number
  headId := h'.headId.trans h.headId
  rows t ht := h'.rows t (h.rows t ht)

/-- The transaction is on record, or it has expired and that is checked. -/
def Remembers (env : Env) (r : RecordRest) (trx : SignedTransaction) : Prop :=
  (∃ t ∈ r.transactions.rows,
    t.trxId = env.trxId trx.toTransaction ∧ t.expiration = trx.expiration) ∨
      r.number ≠ 0 ∧ trx.expiration < r.time

theorem Remembers.carry {env : Env} {r r' : RecordRest} {trx : SignedTransaction}
    (h : r.Remembers env trx) (hr : Extends r r') : r'.Remembers env trx := by
  rcases h with ⟨t, ht, hid⟩ | ⟨hnumber, hexpired⟩
  · exact .inl ⟨t, hr.rows t ht, hid⟩
  · exact .inr ⟨hr.number.symm ▸ hnumber, hr.time.symm ▸ hexpired⟩

end RecordRest

namespace Db

variable {env : Env} {skip : Skip} {db db' : Db}

def records (db : Db) : RecordRest := (db.view .records).rest

theorem records_of_drift {g : Prop} (h : Drift .records g db db') : db'.records = db.records :=
  h.rest rfl (fun _ _ _ _ _ => rfl) fun _ _ => rfl

theorem evaluate_records {producing : Bool} {clock : TimePointSec} {op : Operation} {fc : Fc}
    (h : evaluate fc producing clock db op = .ok db') : db'.records = db.records := by
  refine records_of_drift (evaluate_drift ?_ h)
  cases op <;> rfl

theorem evaluate_time {producing : Bool} {clock : TimePointSec} {op : Operation} {fc : Fc}
    (h : evaluate fc producing clock db op = .ok db') : db'.headBlockTime = db.headBlockTime :=
  congrArg RecordRest.time (evaluate_records h)

theorem openTransaction_extends {trx : SignedTransaction}
    (h : db.openTransaction env skip trx = .ok db') : db.records.Extends db'.records := by
  have hcore := openTransaction_core h
  have htime := congrArg Core.time hcore
  have hnumber := congrArg Core.number hcore
  have hhead := congrArg Core.headId hcore
  refine ⟨htime, hnumber, hhead, ?_⟩
  intro t ht
  have hrows : db'.records.transactions = _ := congrArg Core.transactions hcore
  rw [hrows]
  split
  · exact ht
  · exact List.mem_append_left _ ht

/-- Operations drop no record. -/
theorem extends_keeps (env : Env) (r : RecordRest) :
    Keeps env (fun _ => True) fun d => d.Stored env.fc ∧ r.Extends d.records where
  validated db hdb := hdb.1
  evaluate clock db op db' hdb hv hC h := by
    refine ⟨(stored_keepsBlock env fun _ => True).evaluate clock db op db' hdb.1 hv hC h, ?_⟩
    rw [evaluate_records h]
    exact hdb.2
  proposals db t r' hdb ht := ⟨ht, hdb.2⟩
  opened skip db trx db' hdb h :=
    ⟨(stored_keepsBlock env fun _ => True).opened skip db trx db' hdb.1 h,
      hdb.2.trans (openTransaction_extends h)⟩

/-- What opening a transaction has checked; the expiration is not checked before block 1. -/
theorem openTransaction_checked {trx : SignedTransaction} (hskip : skip.transactionDupeCheck = false)
    (h : db.openTransaction env skip trx = .ok db') :
    (∀ t ∈ db.records.transactions.rows, t.trxId ≠ env.trxId trx.toTransaction) ∧
      (db.records.number ≠ 0 → db.records.time < trx.expiration) ∧
      db'.records.Remembers env trx := by
  have hcore := openTransaction_core h
  simp only [openTransaction, validateTransaction, bind_eq_ok, fcAssert_eq_ok, hskip,
    Bool.false_eq_true, false_or] at h
  obtain ⟨_, hfresh, _, ⟨_, -, _, -, hexpiration⟩, -⟩ := h
  refine ⟨?_, ?_, ?_⟩
  · intro t ht heq
    rw [Option.isNone_iff_eq_none] at hfresh
    exact List.find?_eq_none.1 hfresh t ht (decide_eq_true heq)
  · intro hnumber
    simp only [checkExpiration, unlessSkipped] at hexpiration
    have hhead : ¬ decide (db.headBlockNum = 0) = true := fun h => hnumber (of_decide_eq_true h)
    rw [if_neg hhead] at hexpiration
    simp only [bind_eq_ok, fcAssert_eq_ok] at hexpiration
    obtain ⟨_, -, _, -, hnow⟩ := hexpiration
    exact hnow
  · have hrows : db'.records.transactions = _ := congrArg Core.transactions hcore
    rw [hskip, if_neg (by decide)] at hrows
    have hnew : TransactionObject.mk db.core.transactions.nextId (env.trxId trx.toTransaction)
        trx.expiration ∈ db'.records.transactions.rows := by
      rw [hrows]
      exact List.mem_append_right _ (List.mem_singleton.2 rfl)
    exact .inl ⟨_, hnew, rfl, rfl⟩

end Db

/-! ## What has been applied -/

/-- The transactions `done` have been applied, each of them once, and each of them is remembered
until it has expired. -/
structure Chronicle (env : Env) (done : List SignedTransaction) (db : Db) : Prop where
  stored : db.Stored env.fc
  remembered : ∀ trx ∈ done, db.records.Remembers env trx
  distinct : (done.map fun trx => env.trxId trx.toTransaction).Nodup

/-- Two transactions with one id expire at the same time. -/
def NoCollision (env : Env) (trxs : List SignedTransaction) : Prop :=
  ∀ t ∈ trxs, ∀ u ∈ trxs, env.trxId t.toTransaction = env.trxId u.toTransaction →
    t.expiration = u.expiration

namespace Chronicle

variable {env : Env} {skip : Skip} {done : List SignedTransaction} {db db' : Db}

theorem carry (h : Chronicle env done db) (hstored : db'.Stored env.fc)
    (hr : db.records.Extends db'.records) : Chronicle env done db' where
  stored := hstored
  remembered trx htrx := (h.remembered trx htrx).carry hr
  distinct := h.distinct

/-- **A transaction** that passes is new. -/
theorem opened {trx : SignedTransaction} (hdb : Chronicle env done db)
    (hskip : skip.transactionDupeCheck = false)
    (hcollision : NoCollision env (done ++ [trx])) (h : db.openTransaction env skip trx = .ok db') :
    Chronicle env (done ++ [trx]) db' := by
  obtain ⟨hfresh, hnow, hrecorded⟩ := Db.openTransaction_checked hskip h
  have hr := Db.openTransaction_extends h
  have hstored : db'.Stored env.fc :=
    (stored_keepsBlock env fun _ => True).opened skip db trx db' hdb.stored h
  refine ⟨hstored, ?_, ?_⟩
  · intro t ht
    rcases List.mem_append.1 ht with ht | ht
    · exact (hdb.remembered t ht).carry hr
    · rw [List.mem_singleton.1 ht]
      exact hrecorded
  · rw [List.map_append, List.nodup_append]
    refine ⟨hdb.distinct, List.nodup_singleton _, ?_⟩
    intro x hx y hy heq
    obtain ⟨t, ht, rfl⟩ := List.mem_map.1 hx
    have hid : env.trxId t.toTransaction = env.trxId trx.toTransaction :=
      heq.trans (List.mem_singleton.1 hy)
    rcases hdb.remembered t ht with ⟨row, hrow, hrowId, -⟩ | ⟨hnumber, hexpired⟩
    · exact hfresh row hrow (hrowId.trans hid)
    · have hsame := hcollision t (List.mem_append_left _ ht) trx (by simp) hid
      rw [hsame] at hexpired
      exact absurd (hnow hnumber) (Nat.not_lt.2 hexpired.le)

theorem applyTransaction {trx : SignedTransaction} (fuel : Nat) (hdb : Chronicle env done db)
    (hskip : skip.transactionDupeCheck = false) (hvalidate : skip.validateOperations = false)
    (hcollision : NoCollision env (done ++ [trx])) :
    Traced.Ensures (fun _ => True) (Db.applyTransaction env fuel skip db trx) fun db' =>
      Chronicle env (done ++ [trx]) db' ∧ db.records.Extends db'.records ∧
        (db.records.number ≠ 0 → db.records.time < trx.expiration) := by
  unfold Db.applyTransaction Db.applyTransactionWith
  refine Traced.Ensures.bind (Q := fun d => Chronicle env (done ++ [trx]) d ∧
    db.records.Extends d.records ∧ (db.records.number ≠ 0 → db.records.time < trx.expiration) ∧
      validateAll env.fc trx.operations = .ok ()) (.lift fun d h => ?_) fun d hd => ?_
  · exact ⟨hdb.opened hskip hcollision h, Db.openTransaction_extends h,
      (Db.openTransaction_checked hskip h).2.1, Db.openTransaction_validated hvalidate h⟩
  · obtain ⟨hchronicle, hr, hnow, hv⟩ := hd
    have hkeeps := Db.extends_keeps env d.records
    refine ((Db.applyOperation_ensures hkeeps fuel {}).foldlM (fun _ hop => validateAll_mem hv hop)
      ⟨hchronicle.stored, .refl _⟩).mono fun db' hdb' => ?_
    exact ⟨hchronicle.carry hdb'.1 hdb'.2, hr.trans hdb'.2, hnow⟩

/-- **The transactions of a block**, one after the other. -/
theorem transactions (fuel : Nat) (trxs : List SignedTransaction) (hdb : Chronicle env done db)
    (hskip : skip.transactionDupeCheck = false) (hvalidate : skip.validateOperations = false)
    (hcollision : NoCollision env (done ++ trxs)) :
    Traced.Ensures (fun _ => True) (trxs.foldlM (Db.applyTransaction env fuel skip) db) fun db' =>
      Chronicle env (done ++ trxs) db' ∧ db.records.Extends db'.records ∧
        (db.records.number ≠ 0 → ∀ trx ∈ trxs, db.records.time < trx.expiration) := by
  induction trxs generalizing done db with
  | nil =>
    refine .pure ⟨?_, .refl _, fun _ _ h => (nomatch h)⟩
    rw [List.append_nil]
    exact hdb
  | cons trx rest ih =>
    rw [List.foldlM_cons]
    have hsplit : done ++ trx :: rest = done ++ [trx] ++ rest := by simp
    rw [hsplit] at hcollision ⊢
    have hfirst : NoCollision env (done ++ [trx]) := fun t ht u hu =>
      hcollision t (List.mem_append_left _ ht) u (List.mem_append_left _ hu)
    refine (hdb.applyTransaction fuel hskip hvalidate hfirst).bind fun d hd => ?_
    obtain ⟨hchronicle, hr, hnow⟩ := hd
    refine (ih hchronicle hcollision).mono fun db' hdb' => ?_
    obtain ⟨hchronicle', hr', hnow'⟩ := hdb'
    refine ⟨hchronicle', hr.trans hr', fun hnumber t ht => ?_⟩
    rcases List.mem_cons.1 ht with rfl | ht
    · exact hnow hnumber
    · rw [← hr.time]
      exact hnow' (hr.number.symm ▸ hnumber) t ht

end Chronicle

/-! ## Blocks -/

/-- The transactions have been applied, and `b` is the head. -/
structure Sealed (env : Env) (b : SignedBlock) (done : List SignedTransaction) (db : Db) : Prop where
  chronicle : Chronicle env done db
  time : db.records.time = b.timestamp
  number : db.records.number = b.blockNum
  headId : db.records.headId = Db.blockId env b
  pos : b.blockNum ≠ 0

namespace Sealed

variable {env : Env} {skip : Skip} {b : SignedBlock} {done : List SignedTransaction} {db db' : Db}

theorem carry (h : Sealed env b done db) (hstored : db'.Stored env.fc)
    (hr : db.records.Extends db'.records) : Sealed env b done db' where
  chronicle := h.chronicle.carry hstored hr
  time := hr.time.trans h.time
  number := hr.number.trans h.number
  headId := hr.headId.trans h.headId
  pos := h.pos

/-- The head moves on; what had expired stays expired. -/
theorem of_head (hdb : Chronicle env done db) (htime : db.records.time < b.timestamp)
    (hpos : b.blockNum ≠ 0) (h : db.updateGlobalDynamicData env skip b = .ok db') : Sealed env b done db' := by
  have hcore := Db.updateGlobalDynamicData_core h
  have htime' := congrArg Core.time hcore
  have hnumber' := congrArg Core.number hcore
  have hhead' := congrArg Core.headId hcore
  have hrows' := congrArg Core.transactions hcore
  have hrows : db'.records.transactions = db.records.transactions := hrows'
  have hstored := (stored_keepsBlock env fun _ => True).step skip b db .updateGlobalDynamicData
    db' hdb.stored trivial h
  refine ⟨⟨hstored, fun trx htrx => ?_, hdb.distinct⟩, htime', hnumber', hhead', hpos⟩
  rcases hdb.remembered trx htrx with ⟨t, ht, hid⟩ | ⟨-, hexpired⟩
  · exact .inl ⟨t, hrows.symm ▸ ht, hid⟩
  · have hnumber : db'.records.number = b.blockNum := hnumber'
    have hmoved : db'.records.time = b.timestamp := htime'
    refine .inr ⟨hnumber ▸ hpos, ?_⟩
    rw [hmoved]
    exact hexpired.trans htime

/-- What has expired may be dropped. -/
theorem clearExpired (h : Sealed env b done db) : Sealed env b done db.clearExpiredTransactions where
  chronicle :=
    { stored := h.chronicle.stored
      distinct := h.chronicle.distinct
      remembered := fun trx htrx => by
        rcases h.chronicle.remembered trx htrx with ⟨t, ht, hid, hexpiration⟩ | hexpired
        · by_cases hkept : db.headBlockTime ≤ t.expiration
          · exact .inl ⟨t, List.mem_filter.2 ⟨ht, decide_eq_true hkept⟩, hid, hexpiration⟩
          · refine .inr ⟨h.number.trans_ne h.pos, ?_⟩
            rw [← hexpiration]
            exact Nat.not_le.1 hkept
        · exact .inr hexpired }
  time := h.time
  number := h.number
  headId := h.headId
  pos := h.pos

/-- The step that moves the head. -/
def MovesHead : Event → Prop
  | .step _ _ .updateGlobalDynamicData _ => True
  | _ => False

/-- **After the head has moved** nothing is dropped before it has expired. -/
theorem keepsBlock (env : Env) (b : SignedBlock) (done : List SignedTransaction) :
    KeepsBlock env (fun e => ¬ MovesHead e) (Sealed env b done) where
  validated db hdb := hdb.chronicle.stored
  evaluate clock db op db' hdb hv hC h := by
    refine hdb.carry ?_ (.of_eq (Db.evaluate_records h))
    exact (stored_keepsBlock env fun _ => True).evaluate clock db op db' hdb.chronicle.stored hv
      trivial h
  proposals db t r hdb ht := by
    refine hdb.carry ?_ (.refl _)
    exact ht
  opened skip db trx db' hdb h := by
    refine hdb.carry ?_ (Db.openTransaction_extends h)
    exact (stored_keepsBlock env fun _ => True).opened skip db trx db' hdb.chronicle.stored h
  step skip b' db st db' hdb hC h := by
    have hstored : db'.Stored env.fc :=
      (stored_keepsBlock env fun _ => True).step skip b' db st db' hdb.chronicle.stored trivial h
    cases st with
    | updateGlobalDynamicData => exact absurd trivial hC
    | clearExpiredTransactions =>
      cases h
      exact hdb.clearExpired
    | _ => exact hdb.carry hstored (.of_eq (Db.records_of_drift (BlockStep.run_drift rfl h)))
  irreversible db num id hdb := by
    refine hdb.carry ?_ (.refl _)
    exact hdb.chronicle.stored
  postValidations db t hdb := by
    refine hdb.carry ?_ (.refl _)
    exact hdb.chronicle.stored

end Sealed

namespace Store

variable {env : Env} {skip : Skip} {b : SignedBlock} {s s' : Store}

theorem step_run {st : BlockStep} {Q : Db → Prop}
    (h : ∀ db', st.run env skip b s.db = .ok db' → Q db') :
    Traced.Ensures (fun _ => True) (s.step env skip b st) fun t => Q t.db := by
  refine onDb_ensures ?_
  refine (Traced.Ensures.report _).bind fun _ _ => ?_
  exact .lift h

theorem openBlock_checked {db db' : Db} (h : db.openBlock env skip b = .ok db') :
    db.headBlockId = b.previous ∧ db.headBlockTime < b.timestamp := by
  simp only [Db.openBlock, Db.validateBlockHeader, bind_eq_ok, fcAssert_eq_ok] at h
  obtain ⟨_, -, _, ⟨_, hprevious, _, htime, -⟩, -⟩ := h
  exact ⟨hprevious, htime⟩

/-- What a block does after its head has moved. -/
def closeBlock (env : Env) (fuel : Nat) (skip : Skip) (b : SignedBlock) (s : Store) :
    StoreRun Store := do
  let s ← s.step env skip b .updateSigningWitness
  let s ← Traced.lift (s.updateLastIrreversibleBlock env skip)
  let s ← s.step env skip b .createBlockSummary
  let s ← s.onDb (Db.clearExpiredProposals env fuel s.db)
  let s ← closingSteps.foldlM (fun s st => step s env skip b st) s
  let s ← Traced.lift (s.checkBlockPostValidationChain env)
  return s.createBlockPostValidation b.blockNum (Db.blockId env b) b.witness

theorem applyBlock_eq (s : Store) (env : Env) (fuel : Nat) (skip : Skip) (b : SignedBlock) :
    s.applyBlock env fuel skip b = (do
      let s ← s.step env skip b .openBlock
      let s ← s.onDb (b.transactions.foldlM (Db.applyTransaction env fuel skip) s.db)
      let s ← s.step env skip b .updateGlobalDynamicData
      closeBlock env fuel skip b s) := rfl

/-- What holds once the witness has signed and what the steps after that keep holds until the
block is closed. -/
theorem closeBlock_signed {J I : Db → Prop} {fuel : Nat} (hfinality : KeepsFinality I)
    (hsign : ∀ db, J db → I (db.updateSigningWitness b))
    (hstep : ∀ st db db', st ≠ .updateGlobalDynamicData → st ≠ .updateSigningWitness → I db →
      BlockStep.run env skip b db st = .ok db' → I db')
    (hproposals : ∀ db, I db →
      Traced.Ensures (fun _ => True) (Db.clearExpiredProposals env fuel db) I)
    (hs : J s.db) :
    Traced.Ensures (fun _ => True) (closeBlock env fuel skip b s) fun t => I t.db := by
  have hrun (st : BlockStep) (hst : st ≠ .updateGlobalDynamicData)
      (hst' : st ≠ .updateSigningWitness) (t : Store) (ht : I t.db) :
      Traced.Ensures (fun _ => True) (t.step env skip b st) fun t' => I t'.db :=
    step_run fun d h => hstep st t.db d hst hst' ht h
  unfold closeBlock
  have hsigned : Traced.Ensures (fun _ => True) (s.step env skip b .updateSigningWitness)
      fun t => I t.db := by
    refine step_run fun d h => ?_
    cases h
    exact hsign s.db hs
  refine hsigned.bind fun s₁ h₁ => ?_
  refine Traced.Ensures.bind (Q := fun t : Store => I t.db)
    (.lift fun s₂ h => updateLastIrreversibleBlock_keeps hfinality h₁ h) fun s₂ h₂ => ?_
  refine (hrun .createBlockSummary (by decide) (by decide) s₂ h₂).bind fun s₃ h₃ => ?_
  refine (onDb_ensures (s := s₃) (hproposals s₃.db h₃)).bind fun s₄ h₄ => ?_
  have hclosing : ∀ st ∈ closingSteps,
      st ≠ .updateGlobalDynamicData ∧ st ≠ .updateSigningWitness := by decide
  refine (Traced.Ensures.foldlM (fun t : Store => I t.db) _ closingSteps
    (fun st hst t ht => hrun st (hclosing st hst).1 (hclosing st hst).2 t ht) s₄ h₄).bind
    fun s₅ h₅ => ?_
  refine Traced.Ensures.bind (Q := fun t : Store => I t.db)
    (.lift fun s₆ h => checkBlockPostValidationChain_keeps hfinality h₅ h) fun s₆ h₆ => ?_
  exact .pure (hfinality.postValidations s₆.db _ h₆)

/-- What the steps other than the moving of the head and the expired proposals keep holds
until the block is closed. -/
theorem closeBlock_keeps {I : Db → Prop} {fuel : Nat} (hfinality : KeepsFinality I)
    (hstep : ∀ st db db', st ≠ .updateGlobalDynamicData → I db →
      BlockStep.run env skip b db st = .ok db' → I db')
    (hproposals : ∀ db, I db →
      Traced.Ensures (fun _ => True) (Db.clearExpiredProposals env fuel db) I)
    (hs : I s.db) :
    Traced.Ensures (fun _ => True) (closeBlock env fuel skip b s) fun t => I t.db :=
  closeBlock_signed hfinality
    (fun db hdb => hstep .updateSigningWitness db _ (by decide) hdb rfl)
    (fun st db db' hst _ => hstep st db db' hst) hproposals hs

/-- **A block** adds its transactions to those that have been applied. -/
theorem applyBlock_chronicle (fuel : Nat) {done : List SignedTransaction}
    (hdb : Chronicle env done s.db) (hskip : skip.transactionDupeCheck = false)
    (hvalidate : skip.validateOperations = false)
    (hpos : s.db.headBlockId = b.previous → s.db.headBlockTime < b.timestamp → b.blockNum ≠ 0)
    (hcollision : NoCollision env (done ++ b.transactions)) :
    Traced.Ensures (fun _ => True) (s.applyBlock env fuel skip b) fun t =>
      Sealed env b (done ++ b.transactions) t.db ∧ s.db.headBlockId = b.previous ∧
        s.db.headBlockTime < b.timestamp ∧
        (s.db.headBlockNum ≠ 0 → ∀ trx ∈ b.transactions,
          s.db.headBlockTime < trx.expiration) := by
  have hkeeps := Sealed.keepsBlock env b (done ++ b.transactions)
  rw [applyBlock_eq]
  refine (step_run (Q := fun d => Chronicle env done d ∧ d.records = s.db.records ∧
    s.db.headBlockId = b.previous ∧ s.db.headBlockTime < b.timestamp) fun d h => ?_).bind
    fun s₁ h₁ => ?_
  · have hr : d.records = s.db.records := Db.records_of_drift (BlockStep.run_drift rfl h)
    have hstored := (stored_keepsBlock env fun _ => True).step skip b s.db .openBlock d hdb.stored
      trivial h
    exact ⟨hdb.carry hstored (.of_eq hr), hr, openBlock_checked h⟩
  obtain ⟨hdb₁, hr₁, hprevious, htime⟩ := h₁
  refine (onDb_ensures (s := s₁) (hdb₁.transactions fuel b.transactions hskip hvalidate
    hcollision)).bind fun s₂ h₂ => ?_
  obtain ⟨hdb₂, hr₂, hnow⟩ := h₂
  rw [hr₁] at hr₂ hnow
  refine (step_run (Q := Sealed env b (done ++ b.transactions)) fun d h => ?_).bind fun s₃ h₃ => ?_
  · have hbefore : s₂.db.records.time < b.timestamp := hr₂.time.trans_lt htime
    exact .of_head hdb₂ hbefore (hpos hprevious htime) h
  refine Traced.Ensures.mono (Q := fun t : Store => Sealed env b (done ++ b.transactions) t.db) ?_
    fun t ht => ⟨ht, hprevious, htime, hnow⟩
  refine closeBlock_keeps hkeeps.toKeepsFinality ?_ ?_ h₃
  · intro st d d' hst hd h
    refine hkeeps.step skip b d st d' hd ?_ h
    cases st with
    | updateGlobalDynamicData => exact absurd rfl hst
    | _ => exact id
  · intro d hd
    refine (Db.clearExpiredProposals_ensures (Db.extends_keeps env d.records) fuel
      ⟨hd.chronicle.stored, .refl _⟩).mono fun d' hd' => ?_
    exact hd.carry hd'.1 hd'.2

/-! ## Sessions -/

/-- A property of the undo states that committing keeps. -/
def CommitClosed (Q : List (Nat × Db) → Prop) : Prop :=
  ∀ l (n : Nat), Q l → Q (l.filter fun u => n < u.1)

/-- The undo states that are left after commits. -/
def KeepsSessions (Q : List (Nat × Db) → Prop) (s s' : Store) : Prop :=
  s'.revision = s.revision ∧ (Q s.undoStack → Q s'.undoStack)

variable {Q : List (Nat × Db) → Prop}

theorem KeepsSessions.trans {s'' : Store} (h : KeepsSessions Q s s') (h' : KeepsSessions Q s' s'') :
    KeepsSessions Q s s'' :=
  ⟨h'.1.trans h.1, fun hs => h'.2 (h.2 hs)⟩

theorem commit_sessions (hQ : CommitClosed Q) (s : Store) (n : Nat) :
    KeepsSessions Q s (s.commit n) :=
  ⟨rfl, hQ s.undoStack n⟩

theorem appendMain_sessions {num : Nat} (h : s.appendMain num = .ok s') : KeepsSessions Q s s' := by
  simp only [appendMain, appendLog, bind_eq_ok, lift_eq_ok, pure_eq_ok] at h
  obtain ⟨_, -, _, -, rfl⟩ := h
  exact ⟨rfl, id⟩

theorem writeLog_sessions (h : s.writeLog = .ok s') : KeepsSessions Q s s' :=
  foldlM_invariant (fun t => KeepsSessions Q s t) appendMain _
    (fun _ _ _ _ ht hstep => ht.trans (appendMain_sessions hstep)) s s' ⟨rfl, id⟩ h

theorem readIrreversibleId_sessions (env : Env) (s : Store) :
    KeepsSessions Q s (s.readIrreversibleId env) := by
  unfold readIrreversibleId
  split
  · exact ⟨rfl, id⟩
  · exact ⟨rfl, id⟩

theorem updateLastIrreversibleBlock_sessions (hQ : CommitClosed Q)
    (h : s.updateLastIrreversibleBlock env skip = .ok s') : KeepsSessions Q s s' := by
  simp only [updateLastIrreversibleBlock, bind_eq_ok, lift_eq_ok, pure_eq_ok] at h
  obtain ⟨candidate, -, s₁, hlog, rfl⟩ := h
  generalize hset : (if s.db.dgp.lastIrreversibleBlockNum < candidate then
    s.setIrreversible candidate else s) = s₀ at hlog
  have h₀ : KeepsSessions Q s s₀ := by
    rw [← hset]
    split
    · exact ⟨rfl, id⟩
    · exact ⟨rfl, id⟩
  have hcommit := commit_sessions hQ s₀ s₀.db.dgp.lastIrreversibleBlockNum
  have h₁ : KeepsSessions Q s s₁ := by
    refine h₀.trans (hcommit.trans ?_)
    unfold writeLogUnless at hlog
    split at hlog
    · cases hlog
      exact ⟨rfl, id⟩
    · exact writeLog_sessions hlog
  have hread : KeepsSessions Q s₁ (if candidate = s₁.db.dgp.lastIrreversibleBlockNum then
      s₁.readIrreversibleId env else s₁) := by
    split
    · exact readIrreversibleId_sessions env s₁
    · exact ⟨rfl, id⟩
  exact h₁.trans (hread.trans ⟨rfl, id⟩)

theorem advanceIrreversible_sessions (hQ : CommitClosed Q) {num : Nat}
    (h : s.advanceIrreversible env num = .ok s') : KeepsSessions Q s s' := by
  simp only [advanceIrreversible, bind_eq_ok, pure_eq_ok] at h
  obtain ⟨s₁, hlog, rfl⟩ := h
  have hset : KeepsSessions Q s ((s.setIrreversible num).commit num) :=
    ⟨rfl, hQ s.undoStack num⟩
  refine hset.trans ((writeLog_sessions hlog).trans ?_)
  exact (readIrreversibleId_sessions env s₁).trans ⟨rfl, id⟩

theorem checkBlockPostValidationChain_sessions (hQ : CommitClosed Q)
    (h : s.checkBlockPostValidationChain env = .ok s') : KeepsSessions Q s s' := by
  refine foldlM_invariant (fun t => KeepsSessions Q s t) _ _ (fun v _ t t' ht hstep => ?_) s s'
    ⟨rfl, id⟩ h
  unfold checkPostValidation at hstep
  split at hstep
  · simp only [bind_eq_ok, pure_eq_ok] at hstep
    obtain ⟨t₁, hadvance, rfl⟩ := hstep
    exact ht.trans ((advanceIrreversible_sessions hQ hadvance).trans ⟨rfl, id⟩)
  · rw [pure_eq_ok] at hstep
    exact hstep ▸ ht

theorem onDb_sessions (s : Store) (x : Run Db) :
    Traced.Ensures (fun _ => True) (s.onDb x) fun t => KeepsSessions Q s t := by
  have htrue : Traced.Ensures (fun _ => True) x fun _ => True := fun _ _ _ _ => trivial
  exact htrue.mapBoth fun _ _ => ⟨rfl, id⟩

/-- **A block** opens no session and only commits the undo states that there are. -/
theorem applyBlock_sessions (hQ : CommitClosed Q) (env : Env) (fuel : Nat) (skip : Skip)
    (b : SignedBlock) (s : Store) :
    Traced.Ensures (fun _ => True) (s.applyBlock env fuel skip b) fun t => KeepsSessions Q s t := by
  unfold applyBlock
  refine (onDb_sessions (Q := Q) s _).bind fun s₁ h₁ => ?_
  refine (onDb_sessions (Q := Q) s₁ _).bind fun s₂ h₂ => ?_
  refine (onDb_sessions (Q := Q) s₂ _).bind fun s₃ h₃ => ?_
  refine (onDb_sessions (Q := Q) s₃ _).bind fun s₄ h₄ => ?_
  refine Traced.Ensures.bind (Q := fun t => KeepsSessions Q s₄ t)
    (.lift fun s₅ h => updateLastIrreversibleBlock_sessions hQ h) fun s₅ h₅ => ?_
  refine (onDb_sessions (Q := Q) s₅ _).bind fun s₆ h₆ => ?_
  refine (onDb_sessions (Q := Q) s₆ _).bind fun s₇ h₇ => ?_
  refine (Traced.Ensures.foldlM (fun t => KeepsSessions Q s₇ t) _ closingSteps
    (fun st _ t ht => (onDb_sessions (Q := Q) t _).mono fun _ h => ht.trans h) s₇ ⟨rfl, id⟩).bind
    fun s₈ h₈ => ?_
  refine Traced.Ensures.bind (Q := fun t => KeepsSessions Q s₈ t)
    (.lift fun s₉ h => checkBlockPostValidationChain_sessions hQ h) fun s₉ h₉ => ?_
  refine .pure ?_
  have hstart := h₁.trans (h₂.trans (h₃.trans (h₄.trans h₅)))
  have hend := h₆.trans (h₇.trans (h₈.trans h₉))
  exact (hstart.trans hend).trans ⟨rfl, id⟩

end Store

/-! ## Blocks and undone blocks -/

/-- The store after blocks have been applied, each in a session of its own, and undone, in any
order, while blocks come and go in the fork database; the list holds the blocks that are in
effect. -/
inductive Branch (env : Env) (fuel : Nat) (s₀ : Store) : Store → List SignedBlock → Prop
  | start : Branch env fuel s₀ s₀ []
  | apply {s s' : Store} {chain : List SignedBlock} (b : SignedBlock) (n : Nat)
      (hs : Branch env fuel s₀ s chain)
      (h : (s.startUndoSession.applyBlock env fuel {} b n).2 = .ok s') :
      Branch env fuel s₀ s' (chain ++ [b])
  | pop {s : Store} {chain : List SignedBlock} (hs : Branch env fuel s₀ s chain) :
      Branch env fuel s₀ s.undo (if s.undoStack = [] then chain else chain.dropLast)
  | linked {s : Store} {chain : List SignedBlock} (f : ForkDb) (hs : Branch env fuel s₀ s chain) :
      Branch env fuel s₀ { s with forkDb := f } chain

/-- The transactions of a chain. -/
def chainTransactions (chain : List SignedBlock) : List SignedTransaction :=
  chain.flatMap (·.transactions)

/-- The time of the head after a chain that starts at the time `t`. -/
def timeAfter (t : TimePointSec) (chain : List SignedBlock) : TimePointSec :=
  (chain.getLast?.map (·.timestamp)).getD t

/-- No two ids of transactions collide, and the times are values of their type. -/
structure ChainSane (env : Env) (chain : List SignedBlock) : Prop where
  collision : NoCollision env (chainTransactions chain)
  times : ∀ b ∈ chain, b.timestamp < 2 ^ 32

theorem ChainSane.init {env : Env} {chain : List SignedBlock} {b : SignedBlock}
    (h : ChainSane env (chain ++ [b])) : ChainSane env chain where
  collision := by
    intro t ht u hu
    have hmem (v : SignedTransaction) (hv : v ∈ chainTransactions chain) :
        v ∈ chainTransactions (chain ++ [b]) := by
      rw [chainTransactions, List.flatMap_append]
      exact List.mem_append_left _ hv
    exact h.collision t (hmem t ht) u (hmem u hu)
  times c hc := h.times c (List.mem_append_left _ hc)

/-- No more blocks than seconds have passed. -/
structure Db.HeadSane (db : Db) : Prop where
  le : db.headBlockNum ≤ db.headBlockTime
  id : db.headBlockId.num = db.headBlockNum

/-- What holds of the database after a chain that starts at the time `t`, before block 1 if
`first`. -/
structure Applied (env : Env) (t : TimePointSec) (first : Prop) (chain : List SignedBlock)
    (db : Db) : Prop where
  chronicle : Chronicle env (chainTransactions chain) db
  head : db.HeadSane
  numbered : (first → chain ≠ []) → db.headBlockNum ≠ 0
  time : db.headBlockTime = timeAfter t chain
  alive : ∀ pre b post, chain = pre ++ b :: post → (first → pre ≠ []) →
    ∀ trx ∈ b.transactions, timeAfter t pre < trx.expiration

namespace Applied

variable {env : Env} {t : TimePointSec} {first : Prop} {chain : List SignedBlock}

theorem blockNum_next {db : Db} {b : SignedBlock} (hs : db.HeadSane) (hrange : b.timestamp < 2 ^ 32)
    (hprevious : db.headBlockId = b.previous) (htime : db.headBlockTime < b.timestamp) :
    b.blockNum = db.headBlockNum + 1 := by
  have hle : db.headBlockNum + 1 ≤ b.timestamp :=
    Nat.succ_le_of_lt (Nat.lt_of_le_of_lt hs.le htime)
  unfold SignedBlockHeader.blockNum
  rw [← hprevious, hs.id]
  exact Nat.mod_eq_of_lt (Nat.lt_of_le_of_lt hle hrange)

/-- **The next block.** -/
theorem next {s s' : Store} {b : SignedBlock} {fuel n : Nat}
    (hs : Applied env t first chain s.db) (hsane : ChainSane env (chain ++ [b]))
    (h : (s.applyBlock env fuel {} b n).2 = .ok s') :
    Applied env t first (chain ++ [b]) s'.db := by
  have hsplit : chainTransactions (chain ++ [b]) = chainTransactions chain ++ b.transactions := by
    simp [chainTransactions]
  have hcollision := hsane.collision
  rw [hsplit] at hcollision
  have hrange := hsane.times b (by simp)
  have hpos (hprevious : s.db.headBlockId = b.previous) (htime : s.db.headBlockTime < b.timestamp) :
      b.blockNum ≠ 0 := by
    rw [blockNum_next hs.head hrange hprevious htime]
    exact Nat.succ_ne_zero _
  obtain ⟨hsealed, hprevious, htime, halive⟩ := Store.applyBlock_chronicle fuel hs.chronicle rfl rfl
    hpos hcollision n (fun _ _ => trivial) s' h
  have hafter : timeAfter t (chain ++ [b]) = b.timestamp := by simp [timeAfter]
  have hnum := blockNum_next hs.head hrange hprevious htime
  have hnumber' : s'.db.headBlockNum = b.blockNum := hsealed.number
  refine ⟨hsplit ▸ hsealed.chronicle, ⟨?_, ?_⟩, fun _ => ?_, hsealed.time.trans hafter.symm, ?_⟩
  · have htime' : s'.db.headBlockTime = b.timestamp := hsealed.time
    rw [hnumber', hnum, htime']
    exact Nat.succ_le_of_lt (Nat.lt_of_le_of_lt hs.head.le htime)
  · have hhead' : s'.db.headBlockId = Db.blockId env b := hsealed.headId
    rw [hhead', hnumber']
    rfl
  · rw [hnumber']
    exact hsealed.pos
  · intro pre c post heq hfirst trx htrx
    rcases List.eq_nil_or_concat post with rfl | ⟨post', last, rfl⟩
    · obtain ⟨rfl, hlast⟩ := List.append_inj' heq rfl
      obtain rfl := List.head_eq_of_cons_eq hlast
      rw [← hs.time]
      exact halive (hs.numbered hfirst) trx htrx
    · have hconcat : chain ++ [b] = (pre ++ c :: post') ++ [last] := by simpa using heq
      obtain ⟨hchain, -⟩ := List.append_inj' hconcat rfl
      exact hs.alive pre c post' hchain hfirst trx htrx

end Applied

/-- Every undo state has what holds after the blocks before its session. -/
def Aligned (P : List SignedBlock → Db → Prop) : List (Nat × Db) → List SignedBlock → Prop
  | [], _ => True
  | (revision, db) :: rest, chain => chain ≠ [] ∧ P chain.dropLast db ∧
      (∀ u ∈ rest, u.1 < revision) ∧ Aligned P rest chain.dropLast

theorem Aligned.commitClosed (P : List SignedBlock → Db → Prop) (chain : List SignedBlock) :
    Store.CommitClosed fun l => Aligned P l chain := by
  intro l n hl
  induction l generalizing chain with
  | nil => exact hl
  | cons u rest ih =>
    obtain ⟨revision, db⟩ := u
    obtain ⟨hne, happlied, hbelow, hrest⟩ := hl
    rw [List.filter_cons]
    split
    · refine ⟨hne, happlied, fun v hv => hbelow v (List.mem_filter.1 hv).1, ih _ hrest⟩
    · rename_i hdropped
      have hnone : rest.filter (fun u => decide (n < u.1)) = [] := by
        refine List.filter_eq_nil_iff.2 fun v hv hkept => hdropped ?_
        have hv' := hbelow v hv
        have hn := of_decide_eq_true hkept
        exact decide_eq_true (by omega)
      rw [hnone]
      trivial

theorem Aligned.pushed {P : List SignedBlock → Db → Prop} {s : Store} {chain : List SignedBlock}
    (b : SignedBlock) (hs : P chain s.db) (halign : Aligned P s.undoStack chain)
    (hbelow : ∀ u ∈ s.undoStack, u.1 ≤ s.revision) :
    Aligned P s.startUndoSession.undoStack (chain ++ [b]) := by
  refine ⟨by simp, ?_, fun u hu => Nat.lt_succ_of_le (hbelow u hu), ?_⟩
  · rw [List.dropLast_concat]
    exact hs
  · rw [List.dropLast_concat]
    exact halign

/-- **Whatever is applied and undone**: what holds at the start and what a block carries on holds
of the chain in effect, and of the parts of it that the undo states are for. -/
theorem Branch.aligned {env : Env} {fuel : Nat} {s₀ s : Store} {P : List SignedBlock → Db → Prop}
    {chain : List SignedBlock} (hempty : s₀.undoStack = []) (hstart : P [] s₀.db)
    (hnext : ∀ (s s' : Store) chain b n, P chain s.db →
      (s.applyBlock env fuel {} b n).2 = .ok s' → P (chain ++ [b]) s'.db)
    (h : Branch env fuel s₀ s chain) :
    P chain s.db ∧ Aligned P s.undoStack chain ∧ ∀ u ∈ s.undoStack, u.1 ≤ s.revision := by
  induction h with
  | start =>
    rw [hempty]
    exact ⟨hstart, trivial, fun _ h => (nomatch h)⟩
  | @apply s s' chain b n _ hrun ih =>
    obtain ⟨hs, halign, hbelow⟩ := ih
    refine ⟨hnext s.startUndoSession s' chain b n hs hrun, ?_⟩
    have hclosed : Store.CommitClosed fun l => Aligned P l (chain ++ [b]) ∧
        ∀ u ∈ l, u.1 ≤ s.revision + 1 := fun l m hl =>
      ⟨Aligned.commitClosed P _ l m hl.1, fun u hu => hl.2 u (List.mem_filter.1 hu).1⟩
    obtain ⟨hrevision, hkept⟩ := Store.applyBlock_sessions hclosed env fuel {} b
      s.startUndoSession n (fun _ _ => trivial) s' hrun
    have hpushed : ∀ u ∈ s.startUndoSession.undoStack, u.1 ≤ s.revision + 1 := by
      intro u hu
      rcases List.mem_cons.1 hu with rfl | hu
      · exact le_rfl
      · exact Nat.le_succ_of_le (hbelow u hu)
    have hdone := hkept ⟨halign.pushed b hs hbelow, hpushed⟩
    rw [hrevision]
    exact hdone
  | @pop s chain _ ih =>
    obtain ⟨hs, halign, hbelow⟩ := ih
    cases hstack : s.undoStack with
    | nil =>
      have hundo : s.undo = s := by
        unfold Store.undo
        rw [hstack]
      rw [if_pos rfl, hundo]
      exact ⟨hs, halign, hbelow⟩
    | cons u rest =>
      obtain ⟨revision, db⟩ := u
      have hundo : s.undo = { s with db := db, undoStack := rest, revision := revision - 1 } := by
        unfold Store.undo
        rw [hstack]
      rw [hstack] at halign
      obtain ⟨-, happlied, hlower, hrest⟩ := halign
      rw [if_neg (List.cons_ne_nil _ _), hundo]
      exact ⟨happlied, hrest, fun u hu => Nat.le_sub_one_of_lt (hlower u hu)⟩
  | linked f _ ih => exact ih

/-- The database is the one after the chain in effect. -/
theorem Branch.applied {env : Env} {fuel : Nat} {s₀ s : Store} {t : TimePointSec} {first : Prop}
    {chain : List SignedBlock} (hempty : s₀.undoStack = [])
    (hstart : Applied env t first [] s₀.db) (h : Branch env fuel s₀ s chain)
    (hsane : ChainSane env chain) : Applied env t first chain s.db :=
  (h.aligned (P := fun chain db => ChainSane env chain → Applied env t first chain db) hempty
    (fun _ => hstart) fun _ _ _ _ _ hs hrun hsane => (hs hsane.init).next hsane hrun).1 hsane

/-- Every transaction was applied before it expired: at the time of the block before its own. -/
def AliveAlong (t : TimePointSec) (chain : List SignedBlock) : Prop :=
  ∀ pre b post, chain = pre ++ b :: post → ∀ trx ∈ b.transactions, timeAfter t pre < trx.expiration

/-- A record is only dropped when its transaction does not pass validation any more. -/
theorem clearExpiredTransactions_forgets {env : Env} {skip : Skip} {db : Db}
    {trx : SignedTransaction} (hpos : 0 < db.headBlockNum) {t : TransactionObject}
    (ht : t ∈ db.transactions.rows) (hdropped : t ∉ db.clearExpiredTransactions.transactions.rows)
    (hsame : trx.expiration = t.expiration) :
    db.clearExpiredTransactions.validateTransaction env skip trx ≠ .ok () := by
  intro h
  have hexpired : t.expiration < db.headBlockTime := by
    by_contra hkept
    exact hdropped (List.mem_filter.2 ⟨ht, decide_eq_true (Nat.not_lt.1 hkept)⟩)
  simp only [Db.validateTransaction, Db.checkExpiration, unlessSkipped, bind_eq_ok] at h
  obtain ⟨_, -, _, -, hexpiration⟩ := h
  have hnumber : ¬ decide (db.clearExpiredTransactions.headBlockNum = 0) = true :=
    fun h => hpos.ne' (of_decide_eq_true h)
  rw [if_neg hnumber] at hexpiration
  simp only [bind_eq_ok, fcAssert_eq_ok] at hexpiration
  obtain ⟨_, -, _, -, hnow⟩ := hexpiration
  rw [hsame] at hnow
  exact Nat.lt_asymm hexpired hnow

/-- **Replay protection.**  However blocks are applied and undone, along the chain in effect no
transaction id occurs twice; and no transaction had expired at the time of the block before its
own if and only if none of block 1 had.  A record is only dropped when its transaction does not
pass validation any more. -/
theorem replay_protection (env : Env) (fuel : Nat) (s₀ : Store) (hempty : s₀.undoStack = [])
    (hstored : s₀.db.Stored env.fc) (hhead : s₀.db.HeadSane) :
    (∀ s chain, Branch env fuel s₀ s chain → ChainSane env chain →
      ((chainTransactions chain).map fun trx => env.trxId trx.toTransaction).Nodup ∧
        (AliveAlong s₀.db.headBlockTime chain ↔ (s₀.db.headBlockNum = 0 →
          ∀ b ∈ chain.head?, ∀ trx ∈ b.transactions, s₀.db.headBlockTime < trx.expiration))) ∧
      ∀ (db : Db) (skip : Skip) (trx : SignedTransaction), 0 < db.headBlockNum →
        ∀ t ∈ db.transactions.rows, t ∉ db.clearExpiredTransactions.transactions.rows →
          trx.expiration = t.expiration →
          db.clearExpiredTransactions.validateTransaction env skip trx ≠ .ok () := by
  constructor
  · intro s chain hbranch hsane
    have hstart : Applied env s₀.db.headBlockTime (s₀.db.headBlockNum = 0) [] s₀.db :=
      { chronicle := ⟨hstored, fun _ h => (nomatch h), List.nodup_nil⟩
        head := hhead
        numbered := fun h hzero => h hzero rfl
        time := rfl
        alive := fun pre b post heq => by simp at heq }
    have happlied := hbranch.applied hempty hstart hsane
    refine ⟨happlied.chronicle.distinct, fun halive _ b hb => ?_, fun hfirst => ?_⟩
    · obtain ⟨rest, rfl⟩ := List.head?_eq_some_iff.1 hb
      exact halive [] b rest rfl
    · intro pre b post heq trx htrx
      by_cases hpre : s₀.db.headBlockNum = 0 → pre ≠ []
      · exact happlied.alive pre b post heq hpre trx htrx
      · obtain ⟨hzero, hnil⟩ := Classical.not_imp.1 hpre
        rw [not_not] at hnil
        subst hnil
        exact hfirst hzero b (by rw [heq]; rfl) trx htrx
  · exact fun db skip trx hpos t ht hdropped hsame =>
      clearExpiredTransactions_forgets hpos ht hdropped hsame

/-- Block 1 on the genesis, in which viz pays alice before the time `expiration`. -/
def paymentBlock (expiration : TimePointSec) : SignedBlock :=
  { previous := ⟨0, 0⟩, timestamp := 3, witness := "committee", transactionMerkleRoot := 1
    extensions := [], witnessSignature := 7
    transactions :=
      [⟨⟨0, 0, expiration, [.transfer ⟨"viz", "alice", ⟨5, tokenSymbol⟩, ""⟩]⟩, [3]⟩] }

/-- Block 2, in which viz pays once more. -/
def secondPaymentBlock (expiration : TimePointSec) : SignedBlock :=
  { paymentBlock expiration with previous := ⟨1, 3⟩, timestamp := 6 }

theorem genesisDb_start : genesisDb.Stored smallEnv.fc ∧ genesisDb.HeadSane :=
  ⟨fun _ hp => (nomatch hp), by decide, by decide⟩

/-- A node at the genesis that has received the blocks. -/
def genesisNode (bs : List SignedBlock) : Store :=
  { db := genesisDb
    forkDb := bs.foldl (fun f b => ((f.pushBlock smallEnv b).toOption).getD f) {} }

/-- Two payments in two blocks; the second block is undone and applied anew. -/
theorem replay_protection_payments :
    ∃ s, Branch smallEnv 2 (genesisNode [paymentBlock 40, secondPaymentBlock 41]) s
        [paymentBlock 40, secondPaymentBlock 41] ∧
      ((chainTransactions [paymentBlock 40, secondPaymentBlock 41]).map fun trx =>
        smallEnv.trxId trx.toTransaction).Nodup ∧
      AliveAlong 0 [paymentBlock 40, secondPaymentBlock 41] := by
  have hrun : returns ((genesisNode [paymentBlock 40, secondPaymentBlock 41]).startUndoSession
      |>.applyBlock smallEnv 2 {} (paymentBlock 40) 0).2 (fun s₁ =>
        returns (s₁.startUndoSession.applyBlock smallEnv 2 {} (secondPaymentBlock 41) 0).2 fun s₂ =>
          returns (s₂.undo.startUndoSession.applyBlock smallEnv 2 {} (secondPaymentBlock 41) 0).2
            fun _ => !s₂.undoStack.isEmpty) = true := by
    decide +kernel
  obtain ⟨s₁, hs₁, hrest⟩ := returns_eq_true hrun
  obtain ⟨s₂, hs₂, hrest⟩ := returns_eq_true hrest
  obtain ⟨s₃, hs₃, hstack⟩ := returns_eq_true hrest
  have hpopped := ((Branch.start.apply (paymentBlock 40) 0 hs₁).apply (secondPaymentBlock 41) 0
    hs₂).pop
  rw [Bool.not_eq_true', List.isEmpty_eq_false_iff] at hstack
  rw [if_neg hstack] at hpopped
  have hbranch := hpopped.apply (secondPaymentBlock 41) 0 hs₃
  have hsane : ChainSane smallEnv [paymentBlock 40, secondPaymentBlock 41] :=
    ⟨fun t _ u _ hid => hid, by decide⟩
  obtain ⟨hstored, hhead⟩ := genesisDb_start
  obtain ⟨hdistinct, halive⟩ := (replay_protection smallEnv 2
    (genesisNode [paymentBlock 40, secondPaymentBlock 41]) rfl hstored hhead).1 s₃ _ hbranch hsane
  refine ⟨s₃, hbranch, hdistinct, halive.2 fun _ b hb => ?_⟩
  cases hb
  decide

/-- **An expired transaction** is applied in block 1, whatever its expiration is. -/
theorem expired_in_first_block :
    ∃ s, Branch smallEnv 2 (genesisNode [paymentBlock 0]) s [paymentBlock 0] ∧
      s.db.accounts.field (·.name) (·.balance) "alice" = 5 ∧ ¬ AliveAlong 0 [paymentBlock 0] := by
  have hrun : returns ((genesisNode [paymentBlock 0]).startUndoSession.applyBlock smallEnv 2 {}
      (paymentBlock 0) 0).2 (fun s =>
        decide (s.db.accounts.field (·.name) (·.balance) "alice" = 5)) = true := by
    decide +kernel
  obtain ⟨s, hs, hpaid⟩ := returns_eq_true hrun
  refine ⟨s, .apply (paymentBlock 0) 0 .start hs, of_decide_eq_true hpaid, fun halive => ?_⟩
  exact absurd (halive [] _ [] rfl _ (List.mem_singleton.2 rfl)) (by decide)

end VizCore.Chain
