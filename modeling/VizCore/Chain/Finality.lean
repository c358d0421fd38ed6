import VizCore.Chain.Replay

/-!
# Finality

What a block does to the irreversible block, the post-validations and the head, and what it
does to the store around the database.  Operations and steps leave all of that alone; the two
places that advance the irreversible block are between them.

* `finality_of_drift`, `run_finality`: operations and steps leave the irreversible block alone;
* `headMark_framed`, `run_headMark`: and the head, but for the step that sets it;
* `Shadows.updateLastIrreversibleBlock`: a store with the same database and the same log advances
  in step.
-/

namespace VizCore.Chain

open VizCore.Lib VizCore.Protocol

namespace Db

variable {env : Env} {skip : Skip} {db db' : Db}

def finality (db : Db) : FinalityRest := (db.view .finality).rest

theorem finality_of_drift {g : Prop} (h : Drift .finality g db db') :
    db'.finality = db.finality :=
  h.rest rfl (fun _ _ _ _ _ => rfl) fun _ _ => rfl

theorem run_finality {b : SignedBlock} {st : BlockStep} (h : st.run env skip b db = .ok db') :
    db'.finality = db.finality := by
  refine finality_of_drift (BlockStep.run_drift ?_ h)
  cases st <;> rfl

/-! ## The head -/

/-- The number and the id of the head block. -/
def headMark (db : Db) : Nat × BlockId := (db.dgp.headBlockNumber, db.dgp.headBlockId)

theorem headMark_of_records (h : db.records.Extends db'.records) : db'.headMark = db.headMark :=
  Prod.ext h.number h.headId

theorem headMark_framed (env : Env) (m : Nat × BlockId) : Framed env fun d => d.headMark = m where
  evaluate clock db op db' hdb h :=
    (headMark_of_records (.of_eq (evaluate_records h))).trans hdb
  proposals db t r hdb := hdb
  opened skip db trx db' hdb h := (headMark_of_records (openTransaction_extends h)).trans hdb

theorem run_headMark {b : SignedBlock} {st : BlockStep} (hst : st ≠ .updateGlobalDynamicData)
    (h : st.run env skip b db = .ok db') : db'.headMark = db.headMark := by
  cases st with
  | updateGlobalDynamicData => exact absurd rfl hst
  | clearExpiredTransactions =>
    cases h
    rfl
  | _ => exact headMark_of_records (.of_eq (records_of_drift (BlockStep.run_drift rfl h)))

theorem updateGlobalDynamicData_headMark {b : SignedBlock}
    (h : db.updateGlobalDynamicData env skip b = .ok db') :
    db'.headMark = (b.blockNum, blockId env b) := by
  have hcore := updateGlobalDynamicData_core h
  have hnumber := congrArg Core.number hcore
  have hhead := congrArg Core.headId hcore
  exact Prod.ext hnumber hhead

end Db

theorem ForkDb.setMaxSize_nil {f : ForkDb} (h : f.index = []) (size : Nat) :
    (f.setMaxSize size).index = [] := by
  unfold setMaxSize
  cases f.head with
  | none => exact h
  | some item => simp only [h, List.filter_nil]

namespace Store

variable {env : Env} {skip : Skip} {b : SignedBlock} {s s' : Store}

/-! ## The irreversible block -/

def irreversible (s : Store) : Nat := s.db.dgp.lastIrreversibleBlockNum

/-- The log has nothing to catch up with. -/
theorem writeLog_of_le (h : s.irreversible ≤ s.logHeadNum) : s.writeLog = .ok s := by
  unfold irreversible at h
  unfold writeLog
  rw [Nat.sub_eq_zero_of_le h]
  rfl

/-- Without a fork database nothing can be written. -/
theorem writeLog_of_empty (hindex : s.forkDb.index = []) (h : s.writeLog = .ok s') :
    s.irreversible ≤ s.logHeadNum := by
  by_contra hlt
  obtain ⟨k, hk⟩ : ∃ k, s.db.dgp.lastIrreversibleBlockNum - s.logHeadNum = k + 1 :=
    ⟨s.irreversible - s.logHeadNum - 1, by unfold irreversible at hlt ⊢; omega⟩
  unfold writeLog at h
  rw [hk, List.range'_succ, List.foldlM_cons, bind_eq_ok] at h
  obtain ⟨s₁, hfirst, -⟩ := h
  simp only [appendMain, bind_eq_ok, lift_eq_ok, getOrThrow_eq_ok] at hfirst
  obtain ⟨item, hitem, -⟩ := hfirst
  simp only [ForkDb.fetchBlockOnMainBranchByNumber, ForkDb.fetchBlockByNumber, hindex,
    List.filter_nil] at hitem
  cases hitem

/-- Two stores with the same database and log.  The first one has no fork database, so that
nothing can be written to its log. -/
structure Alike (a t : Store) : Prop where
  db : t.db = a.db
  log : t.blockLog = a.blockLog
  index : a.forkDb.index = []

namespace Alike

variable {a a' t : Store}

theorem setIrreversible (h : Alike a t) (num : Nat) :
    Alike (a.setIrreversible num) (t.setIrreversible num) := by
  have hdb : (t.setIrreversible num).db = (a.setIrreversible num).db := by
    simp only [Store.setIrreversible, h.db]
  exact ⟨hdb, h.log, h.index⟩

theorem readIrreversibleId (h : Alike a t) (env : Env) :
    Alike (a.readIrreversibleId env) (t.readIrreversibleId env) := by
  have hread : t.readBlockByNum t.db.dgp.lastIrreversibleBlockNum =
      a.readBlockByNum a.db.dgp.lastIrreversibleBlockNum := by
    unfold readBlockByNum
    rw [h.db, h.log]
  unfold Store.readIrreversibleId
  rw [hread]
  split
  · exact h
  · refine ⟨?_, h.log, h.index⟩
    dsimp only
    rw [h.db]

theorem shrinkForkDb (h : Alike a t) : Alike a.shrinkForkDb t.shrinkForkDb where
  db := h.db
  log := h.log
  index := ForkDb.setMaxSize_nil h.index _

/-- What could be written without a fork database was nothing. -/
theorem writeLog (h : Alike a t) (hrun : a.writeLog = .ok a') :
    a' = a ∧ t.writeLog = .ok t := by
  have hle := writeLog_of_empty h.index hrun
  have ha := (writeLog_of_le hle).symm.trans hrun
  have ht : t.irreversible ≤ t.logHeadNum := by
    unfold irreversible logHeadNum
    rw [h.db, h.log]
    exact hle
  exact ⟨(Except.ok.inj ha).symm, writeLog_of_le ht⟩

theorem writeLogUnless (h : Alike a t) {skip : Bool} (hrun : a.writeLogUnless skip = .ok a') :
    a' = a ∧ t.writeLogUnless skip = .ok t := by
  unfold Store.writeLogUnless at hrun ⊢
  split
  · rw [if_pos ‹_›] at hrun
    exact ⟨(Except.ok.inj hrun).symm, rfl⟩
  · rw [if_neg ‹_›] at hrun
    exact h.writeLog hrun

theorem commit (h : Alike a t) (num : Nat) : Alike (a.commit num) (t.commit num) :=
  ⟨h.db, h.log, h.index⟩

end Alike

/-- Only the id of the irreversible block is read. -/
theorem readIrreversibleId_eq (env : Env) (s : Store) :
    ∃ id, s.readIrreversibleId env = { s with db := s.db.modifyDgp fun p =>
      { p with lastIrreversibleBlockId := id } } := by
  unfold readIrreversibleId
  split
  · exact ⟨s.db.dgp.lastIrreversibleBlockId, rfl⟩
  · rename_i block _
    exact ⟨Db.blockId env block, rfl⟩

/-- `t` next to a store without a fork database, in the block that follows `s`: as long as the
irreversible block is where it was, the undo states above it are there, and the fork database
has shrunk to the blocks above it. -/
structure Shadows (env : Env) (s : Store) (b : SignedBlock) (a t : Store) : Prop
    extends Alike a t where
  revision : t.revision = s.revision
  monotone : s.irreversible ≤ a.irreversible
  steady : a.irreversible = s.irreversible →
    t.undoStack = s.undoStack.filter (fun u => s.irreversible < u.1) ∧
      t.forkDb = s.forkDb.setMaxSize ((b.blockNum + 1 + 2 ^ 32 - s.irreversible) % 2 ^ 32)
  head : a.db.headMark = (b.blockNum, Db.blockId env b)

/-- The same before the fork database has shrunk. -/
structure Committed (env : Env) (s : Store) (b : SignedBlock) (a t : Store) : Prop
    extends Alike a t where
  revision : t.revision = s.revision
  monotone : s.irreversible ≤ a.irreversible
  undoStack : t.undoStack = s.undoStack.filter fun u => a.irreversible < u.1
  forkDb : t.forkDb = s.forkDb
  head : a.db.headMark = (b.blockNum, Db.blockId env b)

namespace Committed

variable {a t : Store}

theorem readIrreversibleId (h : Committed env s b a t) :
    Committed env s b (a.readIrreversibleId env) (t.readIrreversibleId env) := by
  have halike := h.toAlike.readIrreversibleId env
  obtain ⟨i, hi⟩ := readIrreversibleId_eq env a
  obtain ⟨j, hj⟩ := readIrreversibleId_eq env t
  rw [hi, hj] at halike ⊢
  exact ⟨halike, h.revision, h.monotone, h.undoStack, h.forkDb, h.head⟩

theorem shrinkForkDb (h : Committed env s b a t) :
    Shadows env s b a.shrinkForkDb t.shrinkForkDb := by
  refine ⟨h.toAlike.shrinkForkDb, h.revision, h.monotone, fun hsame => ?_, h.head⟩
  have hirr : a.irreversible = s.irreversible := hsame
  have hnum : a.db.dgp.headBlockNumber = b.blockNum := congrArg Prod.fst h.head
  refine ⟨?_, ?_⟩
  · rw [← hirr]
    exact h.undoStack
  · show t.forkDb.setMaxSize _ = _
    rw [h.db, h.forkDb, hnum, ← hirr]
    rfl

end Committed

namespace Shadows

variable {a a' t : Store}

theorem updateLastIrreversibleBlock (halike : Alike a t) (hsame : t = { s with db := a.db })
    (hirr : a.irreversible = s.irreversible) (hhead : a.db.headMark = (b.blockNum, Db.blockId env b))
    (h : a.updateLastIrreversibleBlock env skip = .ok a') :
    ∃ t', t.updateLastIrreversibleBlock env skip = .ok t' ∧ Shadows env s b a' t' := by
  simp only [Store.updateLastIrreversibleBlock, bind_eq_ok, lift_eq_ok, pure_eq_ok] at h ⊢
  obtain ⟨candidate, hcandidate, a₁, hlog, rfl⟩ := h
  rw [halike.db]
  generalize ha₀ : (if a.db.dgp.lastIrreversibleBlockNum < candidate then
    a.setIrreversible candidate else a) = a₀ at hlog
  obtain ⟨t₀, ht₀⟩ : ∃ t₀, (if a.db.dgp.lastIrreversibleBlockNum < candidate then
    t.setIrreversible candidate else t) = t₀ := ⟨_, rfl⟩
  have h₀ : Alike a₀ t₀ := by
    rw [← ha₀, ← ht₀]
    split
    · exact halike.setIrreversible candidate
    · exact halike
  have hmono : s.irreversible ≤ a₀.irreversible := by
    rw [← ha₀, ← hirr]
    split
    · exact Nat.le_of_lt ‹_›
    · exact le_rfl
  have hhead₀ : a₀.db.headMark = (b.blockNum, Db.blockId env b) := by
    rw [← hhead, ← ha₀]
    split
    · rfl
    · rfl
  have hrest : t₀.undoStack = s.undoStack ∧ t₀.forkDb = s.forkDb ∧ t₀.revision = s.revision := by
    rw [← ht₀, hsame]
    split
    · exact ⟨rfl, rfl, rfl⟩
    · exact ⟨rfl, rfl, rfl⟩
  obtain ⟨rfl, htlog⟩ := (h₀.commit a₀.db.dgp.lastIrreversibleBlockNum).writeLogUnless hlog
  have h₁ : Committed env s b (a₀.commit a₀.db.dgp.lastIrreversibleBlockNum)
      (t₀.commit a₀.db.dgp.lastIrreversibleBlockNum) := by
    refine ⟨h₀.commit _, hrest.2.2, hmono, ?_, hrest.2.1, hhead₀⟩
    show t₀.undoStack.filter _ = _
    rw [hrest.1]
    rfl
  refine ⟨_, ⟨candidate, hcandidate, t₀.commit a₀.db.dgp.lastIrreversibleBlockNum, ?_, rfl⟩, ?_⟩
  · rw [ht₀, h₀.db]
    exact htlog
  rw [h₁.db]
  split
  · exact h₁.readIrreversibleId.shrinkForkDb
  · exact h₁.shrinkForkDb

end Shadows

end Store

end VizCore.Chain
