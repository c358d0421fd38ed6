import VizCore.Chain.Filing
import VizCore.Chain.Finality
import VizCore.Chain.Pending
import VizCore.Chain.Support

/-!
# The node along its chain

What the node's database, undo stack, fork database and block log have to do with the chain that
leads to its head, and what a block, a switch and a post-validation do to it.

* `At`: the database stands at the end of a chain;
* `Stored`: the undo stack, the fork database and the log follow a chain;
* `Holds.run`, `At.enter`: what the steps of a block and the block itself do to the database;
* `Steady.writeLog`, `Steady.shrinkForkDb`: what advancing the irreversible block does to the store.
-/

namespace VizCore.Chain

open VizCore.Lib VizCore.Protocol

namespace Db

variable {env : Env} {skip : Skip} {db db' : Db} {b : SignedBlock} {c : List SignedBlock}

/-! ## The database -/

/-- The head, and the ring of block ids. -/
def landmarks (db : Db) : (Nat × BlockId) × Table BlockSummaryObject :=
  (db.headMark, db.blockSummaries)

/-- No witness supports a block above the height. -/
def Backed (height : Nat) (db : Db) : Prop :=
  ∃ k : AccountName → Nat, Bounds db.supportRows k fun _ v => v ≤ height

/-- The post-validation is that of a block of the chain. -/
def Names (env : Env) (c : List SignedBlock) (v : BlockPostValidationObject) : Prop :=
  ∃ b ∈ c, v.blockNum = b.blockNum ∧ v.blockId = blockId env b

/-- The database stands at the end of the chain: its ring holds ids of blocks of the chain, and
those of the last ones all. -/
structure At (env : Env) (c : List SignedBlock) (db : Db) : Prop where
  mark : db.headMark = (c.length, (links env).tip c)
  rows : ∀ row ∈ db.blockSummaries.rows, row.blockId = ⟨0, 0⟩ ∨
    ∃ b ∈ c, row.blockId = blockId env b
  ring : ∀ b ∈ c, c.length < b.blockNum + 2 ^ 16 →
    ∃ row, db.blockSummaries.get (·.id) (b.blockNum % 2 ^ 16) = some row ∧
      row.blockId = blockId env b
  validations : db.blockPostValidations.All (Names env c)
  backed : Backed c.length db
  ceiling : db.dgp.lastIrreversibleBlockNum ≤ c.length
  reach : c.length < db.dgp.lastIrreversibleBlockNum + 2 ^ 16

/-- What the operations of a block leave alone. -/
structure Holds (env : Env) (l : (Nat × BlockId) × Table BlockSummaryObject)
    (d : List SignedBlock) (floor ceiling : Nat) (db : Db) : Prop where
  landmarks : db.landmarks = l
  validations : db.blockPostValidations.All (Names env d)
  backed : Backed d.length db
  floor : floor ≤ db.dgp.lastIrreversibleBlockNum
  ceiling : db.dgp.lastIrreversibleBlockNum ≤ ceiling

variable {l : (Nat × BlockId) × Table BlockSummaryObject} {d : List SignedBlock}
  {height floor ceiling : Nat}

theorem Names.append {v : BlockPostValidationObject} (h : Names env c v) (b : SignedBlock) :
    Names env (c ++ [b]) v := by
  obtain ⟨a, ha, hv⟩ := h
  exact ⟨a, List.mem_append_left [b] ha, hv⟩

theorem Names.le {v : BlockPostValidationObject} (h : Names env c v)
    (hlinked : (links env).Linked c) : v.blockNum ≤ c.length := by
  obtain ⟨a, ha, hnum, -⟩ := h
  rw [hnum]
  exact (ForkDb.get_of_mem hlinked ha).2.1

theorem summaries_of_drift {g : Prop} (h : Drift .summaries g db db') :
    db'.blockSummaries = db.blockSummaries :=
  h.rest rfl (fun _ _ _ _ _ => rfl) fun _ _ => rfl

theorem Backed.mono {height' : Nat} (h : Backed height db) (hle : height ≤ height') :
    Backed height' db := by
  obtain ⟨k, hk⟩ := h
  refine ⟨k, fun name w hw => ?_⟩
  obtain ⟨hrun, hsupported⟩ := hk name w hw
  exact ⟨hrun, hsupported.trans hle⟩

theorem Holds.of_finality {l' : (Nat × BlockId) × Table BlockSummaryObject}
    (h : Holds env l d floor ceiling db) (hfinality : db'.finality = db.finality)
    (hlandmarks : db'.landmarks = l') (hbacked : Backed d.length db') :
    Holds env l' d floor ceiling db' := by
  have hirreversible : db'.dgp.lastIrreversibleBlockNum = db.dgp.lastIrreversibleBlockNum :=
    congrArg FinalityRest.irreversible hfinality
  have hvalidations : db'.blockPostValidations = db.blockPostValidations :=
    congrArg FinalityRest.validations hfinality
  refine ⟨hlandmarks, ?_, hbacked, ?_, ?_⟩
  · rw [hvalidations]
    exact h.validations
  · rw [hirreversible]
    exact h.floor
  · rw [hirreversible]
    exact h.ceiling

theorem Holds.of_same (h : Holds env l d floor ceiling db) (hmark : db'.headMark = db.headMark)
    (hsummaries : db'.blockSummaries = db.blockSummaries) (hfinality : db'.finality = db.finality)
    (hbacked : Backed d.length db') : Holds env l d floor ceiling db' :=
  h.of_finality hfinality ((congrArg₂ Prod.mk hmark hsummaries).trans h.landmarks) hbacked

theorem Holds.run {st : BlockStep} (h : Holds env l d floor ceiling db)
    (hhead : st ≠ .updateGlobalDynamicData) (hsigning : st ≠ .updateSigningWitness)
    (hsummary : st ≠ .createBlockSummary) (hrun : st.run env skip b db = .ok db') :
    Holds env l d floor ceiling db' := by
  refine h.of_same (run_headMark hhead hrun) ?_ (run_finality hrun) ?_
  · refine summaries_of_drift (BlockStep.run_drift ?_ hrun)
    cases st with
    | createBlockSummary => exact absurd rfl hsummary
    | _ => rfl
  · obtain ⟨k, hk⟩ := h.backed
    exact ⟨k, run_bounds (fun _ => Nat.zero_le _) hhead hsigning hk hrun⟩

/-- Operations leave it alone. -/
theorem holds_framed (env env' : Env) (l : (Nat × BlockId) × Table BlockSummaryObject)
    (d : List SignedBlock) (floor ceiling : Nat) : Framed env' (Holds env l d floor ceiling) where
  evaluate clock db op db' hdb h := by
    have hbounds := fun k => (bounds_framed env' k (P := fun _ v => v ≤ d.length)
      fun _ => Nat.zero_le _).evaluate clock db op db'
    refine hdb.of_same ((headMark_framed env' _).evaluate clock db op db' rfl h) ?_ ?_ ?_
    · exact summaries_of_drift (evaluate_drift (by cases op <;> rfl) h)
    · exact finality_of_drift (evaluate_drift (by cases op <;> rfl) h)
    · obtain ⟨k, hk⟩ := hdb.backed
      exact ⟨k, hbounds k hk h⟩
  proposals db t r hdb := ⟨hdb.landmarks, hdb.validations, hdb.backed, hdb.floor, hdb.ceiling⟩
  opened skip db trx db' hdb h := by
    have hbounds := fun k => (bounds_framed env' k (P := fun _ v => v ≤ d.length)
      fun _ => Nat.zero_le _).opened skip db trx db'
    refine hdb.of_same ((headMark_framed env' _).opened skip db trx db' rfl h) ?_ ?_ ?_
    · exact congrArg Aspect.View.rest (openTransaction_view (x := .summaries) (by decide) h)
    · exact congrArg Aspect.View.rest (openTransaction_view (x := .finality) (by decide) h)
    · obtain ⟨k, hk⟩ := hdb.backed
      exact ⟨k, hbounds k hk h⟩

theorem At.holds (h : At env c db) (b : SignedBlock) :
    Holds env ((c.length, (links env).tip c), db.blockSummaries) (c ++ [b])
      db.dgp.lastIrreversibleBlockNum c.length db where
  landmarks := congrArg (·, db.blockSummaries) h.mark
  validations v hv := (h.validations v hv).append b
  backed := h.backed.mono (List.length_append ▸ Nat.le_add_right _ _)
  floor := le_rfl
  ceiling := h.ceiling

/-- Fewer than 2^16 blocks are reversible when the history is checked. -/
theorem updateGlobalDynamicData_reversible (h : db.updateGlobalDynamicData env skip b = .ok db')
    (hskip : skip.undoHistoryCheck = false) :
    b.blockNum < db'.dgp.lastIrreversibleBlockNum + 2 ^ 16 := by
  have hmark := congrArg Prod.fst (updateGlobalDynamicData_headMark h)
  change db'.dgp.headBlockNumber = b.blockNum at hmark
  simp only [updateGlobalDynamicData, bind_eq_ok, fcAssert_eq_ok, pure_eq_ok] at h
  obtain ⟨missed, -, db₁, -, _, hhistory, rfl⟩ := h
  rw [hskip, hmark] at hhistory
  have hlt := ForkDb.Tree.blockNum_lt b
  have hdepth := hhistory.resolve_left (by decide)
  unfold maxUndoHistory at hdepth
  omega

theorem Holds.updateGlobalDynamicData (h : Holds env l d floor ceiling db)
    (hrun : db.updateGlobalDynamicData env skip b = .ok db') :
    Holds env ((b.blockNum, blockId env b), l.2) d floor ceiling db' := by
  have hrun' : BlockStep.run env skip b db .updateGlobalDynamicData = .ok db' := hrun
  have hsummaries : db'.blockSummaries = db.blockSummaries :=
    summaries_of_drift (BlockStep.run_drift rfl hrun')
  refine h.of_finality (run_finality hrun') ?_ ?_
  · rw [← congrArg Prod.snd h.landmarks]
    exact congrArg₂ Prod.mk (updateGlobalDynamicData_headMark hrun) hsummaries
  · obtain ⟨k, hk⟩ := h.backed
    exact ⟨_, updateGlobalDynamicData_bounds hrun hk⟩

theorem Holds.updateSigningWitness (h : Holds env l d floor ceiling db) (hnum : b.blockNum ≤ d.length)
    (hrun : BlockStep.run env skip b db .updateSigningWitness = .ok db') :
    Holds env l d floor ceiling db' := by
  obtain rfl : db.updateSigningWitness b = db' := (pure_eq_ok _ _).1 hrun
  refine h.of_same (run_headMark (by decide) hrun) ?_ (run_finality hrun) ?_
  · exact summaries_of_drift (BlockStep.run_drift rfl hrun)
  · obtain ⟨k, hk⟩ := h.backed
    refine ⟨fun name => k name + 1, fun name w hw => ?_⟩
    rw [updateSigningWitness_supportRows] at hw
    by_cases hname : name = b.witness
    · rw [hname, Table.get_update_same db.supportRows (·.owner) b.witness
        (SupportRow.signed b.blockNum) fun _ => rfl] at hw
      obtain ⟨old, hold, rfl⟩ := Option.map_eq_some_iff.1 hw
      obtain ⟨hrun, hsupported⟩ := hk b.witness old hold
      rw [hname]
      refine ⟨Nat.succ_le_succ hrun, ?_⟩
      show (if irreversibleSupportMinRun ≤ old.run then b.blockNum else old.supported) ≤ d.length
      split
      · exact hnum
      · exact hsupported
    · rw [Table.get_update_ne db.supportRows (·.owner) (SupportRow.signed b.blockNum) hname
        fun _ => rfl] at hw
      obtain ⟨hrun, hsupported⟩ := hk name w hw
      exact ⟨hrun.trans (Nat.le_succ _), hsupported⟩

/-- The irreversible block moves up. -/
theorem Holds.moved {num : Nat} {id : BlockId} (h : Holds env l d floor ceiling db)
    (hfloor : floor ≤ num) (hceiling : num ≤ ceiling) :
    Holds env l d floor ceiling (db.modifyDgp fun p =>
      { p with lastIrreversibleBlockNum := num, lastIrreversibleBlockId := id }) where
  landmarks := h.landmarks
  validations := h.validations
  backed := h.backed
  floor := hfloor
  ceiling := hceiling

/-- Another bound for the irreversible block. -/
theorem Holds.under (h : Holds env l d floor ceiling db) {ceiling' : Nat}
    (hceiling : db.dgp.lastIrreversibleBlockNum ≤ ceiling') : Holds env l d floor ceiling' db :=
  ⟨h.landmarks, h.validations, h.backed, h.floor, hceiling⟩

/-- No block above the height becomes irreversible. -/
theorem Backed.candidate (h : Backed height db) {candidate : Nat}
    (hrun : Store.irreversibleCandidate db = .ok candidate) : candidate ≤ height := by
  simp only [Store.irreversibleCandidate, bind_eq_ok, getOrThrow_eq_ok, pure_eq_ok] at hrun
  obtain ⟨scheduled, hscheduled, v, hget, rfl⟩ := hrun
  refine (Nat.mod_le _ _).trans ?_
  have hmem := (orderBy_perm _ _).mem_iff.1 (List.mem_of_getElem? hget)
  obtain ⟨w, hw, rfl⟩ := List.mem_map.1 hmem
  obtain ⟨name, -, hname⟩ := mem_of_mapM_eq_ok hscheduled hw
  obtain ⟨k, hk⟩ := h
  have hfind : db.findWitness name = some w := (getOrThrow_eq_ok _ _ _).1 hname
  have hrow : db.supportRows.get (·.owner) name = some w.support := by
    rw [findWitness_support, hfind]
    rfl
  exact (hk name w.support hrow).2

/-- The ring with the id of a new block. -/
def enterRing (env : Env) (b : SignedBlock) (t : Table BlockSummaryObject) :
    Table BlockSummaryObject :=
  t.update (·.id) (b.blockNum % 2 ^ 16) fun s => { s with blockId := blockId env b }

theorem Holds.createBlockSummary (h : Holds env l d floor ceiling db)
    (hrun : db.createBlockSummary env b = .ok db') :
    Holds env (l.1, enterRing env b l.2) d floor ceiling db' ∧
      (l.2.get (·.id) (b.blockNum % 2 ^ 16)).isSome := by
  have hsummaries : db.blockSummaries = l.2 := congrArg Prod.snd h.landmarks
  simp only [Db.createBlockSummary, bind_eq_ok, getOrThrow_eq_ok, pure_eq_ok] at hrun
  obtain ⟨row, hrow, rfl⟩ := hrun
  refine ⟨⟨?_, h.validations, h.backed, h.floor, h.ceiling⟩, ?_⟩
  · show (db.headMark, enterRing env b db.blockSummaries) = _
    rw [hsummaries]
    exact congrArg (·, enterRing env b l.2) (congrArg Prod.fst h.landmarks)
  · rw [← hsummaries, hrow]
    rfl

/-- With the id of the next block in the ring, the database stands at the end of the longer
chain. -/
theorem At.enter {floor : Nat} {db₀ : Db} (h : At env c db₀)
    (hlinked : (links env).Linked (c ++ [b]))
    (hrow : (db₀.blockSummaries.get (·.id) (b.blockNum % 2 ^ 16)).isSome)
    (hdb : Holds env ((b.blockNum, blockId env b), enterRing env b db₀.blockSummaries) (c ++ [b])
      floor (c.length + 1) db) (hreach : b.blockNum < floor + 2 ^ 16) : At env (c ++ [b]) db := by
  have hlength : (c ++ [b]).length = c.length + 1 := by rw [List.length_append]; rfl
  have hnum : b.blockNum = c.length + 1 :=
    hlinked.height_of_get (List.getElem?_concat_length (l := c) (a := b))
  have hmark : db.headMark = (b.blockNum, blockId env b) := congrArg Prod.fst hdb.landmarks
  have hsummaries : db.blockSummaries = enterRing env b db₀.blockSummaries :=
    congrArg Prod.snd hdb.landmarks
  refine ⟨?_, ?_, ?_, hdb.validations, hdb.backed, hlength ▸ hdb.ceiling, ?_⟩
  · rw [hmark, hlength, Links.tip_snoc, hnum]
    rfl
  · intro row hmem
    rw [hsummaries] at hmem
    rcases Table.mem_update hmem with hold | ⟨old, -, rfl⟩
    · rcases h.rows row hold with hzero | ⟨a, ha, hid⟩
      · exact .inl hzero
      · exact .inr ⟨a, List.mem_append_left _ ha, hid⟩
    · exact .inr ⟨b, List.mem_append_right _ List.mem_cons_self, rfl⟩
  · intro a ha hrecent
    rw [hsummaries]
    unfold enterRing
    rcases List.mem_append.1 ha with ha | ha
    · have hle := (ForkDb.get_of_mem (hlinked.of_prefix (List.prefix_append c [b])) ha).2.1
      have hne : a.blockNum % 2 ^ 16 ≠ b.blockNum % 2 ^ 16 := by omega
      rw [Table.get_update_ne db₀.blockSummaries (·.id)
        (fun s => { s with blockId := blockId env b }) hne fun _ => rfl]
      exact h.ring a ha (by omega)
    · rw [List.mem_singleton.1 ha, Table.get_update_same db₀.blockSummaries (·.id)
        (b.blockNum % 2 ^ 16) (fun s => { s with blockId := blockId env b }) fun _ => rfl]
      obtain ⟨row, hget⟩ := Option.isSome_iff_exists.1 hrow
      rw [hget]
      exact ⟨_, rfl, rfl⟩
  · have hfloor := hdb.floor
    omega

end Db

/-- What a block leaves of a fork database. -/
structure ForkDb.Shrunk (f g : ForkDb) : Prop where
  head : g.head = f.head
  held : g.held = f.held
  index : ∀ i ∈ g.index, i ∈ f.index

theorem ForkDb.Shrunk.refl (f : ForkDb) : f.Shrunk f := ⟨rfl, rfl, fun _ hi => hi⟩

theorem ForkDb.Shrunk.setMaxSize {f g : ForkDb} (h : f.Shrunk g) (size : Nat) :
    f.Shrunk (g.setMaxSize size) := by
  unfold ForkDb.setMaxSize
  split
  · exact ⟨h.head, h.held, h.index⟩
  · exact ⟨h.head, h.held, fun i hi => h.index i (List.mem_filter.1 hi).1⟩

namespace Store

variable {env : Env} {t m : List SignedBlock} {s₀ s s' : Store}

/-! ## The store -/

/-- The log follows the chain `t` and the undo stack follows the chain `m`, and nothing that the log
holds can be undone. -/
structure Trails (env : Env) (t m : List SignedBlock) (s : Store) : Prop where
  log : s.blockLog <+: t
  stack : Stacked (Db.At env) m s.undoStack
  revision : s.revision = m.length
  recent : ∀ u ∈ s.undoStack, s.blockLog.length < u.1
  within : s.blockLog.length ≤ m.length

/-- The fork database follows the chain `t` as well. -/
structure Stored (env : Env) (t m : List SignedBlock) (s : Store) : Prop
    extends Trails env t m s where
  filed : ∃ low, ForkDb.Filed env t low s.forkDb ∧ low ≤ max 1 s.blockLog.length

/-- Since `s₀` the fork database has only shrunk and the log has only grown, and undo states have
only been committed. -/
structure Steady (env : Env) (t m : List SignedBlock) (s₀ s : Store) : Prop
    extends Stored env t m s where
  shrunk : s₀.forkDb.Shrunk s.forkDb
  grown : s₀.blockLog <+: s.blockLog
  trimmed : ∃ num, s.undoStack = s₀.undoStack.filter fun u => num < u.1

namespace Stored

theorem linked (h : Stored env t m s) : (links env).Linked t := by
  obtain ⟨low, hfiled, -⟩ := h.filed
  exact hfiled.linked

theorem logHeadNum (h : Stored env t m s) : s.logHeadNum = s.blockLog.length := by
  have hlog := h.linked.of_prefix h.log
  have hheight : ((links env).tip s.blockLog).num = s.blockLog.length := hlog.height_tip
  rw [← hheight]
  unfold Store.logHeadNum Links.tip
  cases s.blockLog.getLast? with
  | none => rfl
  | some b => rfl

/-- The log holds the blocks of the chain. -/
theorem readBlockByNum (h : Stored env t m s) {num : Nat} {b : SignedBlock}
    (hb : s.readBlockByNum num = some b) : 0 < num ∧ t[num - 1]? = some b := by
  unfold Store.readBlockByNum at hb
  split at hb
  · rename_i hpos
    refine ⟨hpos, ?_⟩
    obtain ⟨rest, hrest⟩ := h.log
    rw [← hrest]
    exact List.getElem?_append_left (List.getElem?_eq_some_iff.1 hb).1 ▸ hb
  · cases hb

end Stored

namespace Steady

theorem refl (h : Stored env t m s) : Steady env t m s s where
  toStored := h
  shrunk := .refl _
  grown := List.prefix_refl _
  trimmed := by
    refine ⟨s.blockLog.length, (List.filter_eq_self.2 ?_).symm⟩
    intro u hu
    exact decide_eq_true (h.recent u hu)

theorem of_db (h : Steady env t m s₀ s) (db : Db) : Steady env t m s₀ { s with db := db } :=
  ⟨⟨⟨h.log, h.stack, h.revision, h.recent, h.within⟩, h.filed⟩, h.shrunk, h.grown, h.trimmed⟩

theorem commit (h : Steady env t m s₀ s) (num : Nat) : Steady env t m s₀ (s.commit num) where
  filed := h.filed
  log := h.log
  stack := h.stack.drop_le num
  revision := h.revision
  recent u hu := h.recent u (List.mem_filter.1 hu).1
  within := h.within
  shrunk := h.shrunk
  grown := h.grown
  trimmed := by
    obtain ⟨old, hold⟩ := h.trimmed
    refine ⟨max old num, ?_⟩
    show s.undoStack.filter _ = _
    rw [hold, List.filter_filter]
    refine List.filter_congr fun u _ => ?_
    simp only [max_lt_iff, Bool.decide_and, Bool.and_comm]

/-- A block of the main branch goes to the log when no state before it can come back. -/
theorem appendMain (h : Steady env t m s₀ s)
    (hrecent : ∀ u ∈ s.undoStack, s.blockLog.length + 1 < u.1)
    (hwithin : s.blockLog.length + 1 ≤ m.length) (num : Nat) :
    Ends (fun e => e.2 = s)
      (fun s' => Steady env t m s₀ s' ∧ s'.db = s.db ∧ s'.undoStack = s.undoStack ∧
        s'.blockLog.length = s.blockLog.length + 1) (s.appendMain num) := by
  unfold Store.appendMain Store.appendLog
  obtain ⟨low, hfiled, hlow⟩ := h.filed
  cases hfetch : s.forkDb.fetchBlockOnMainBranchByNumber num with
  | none => exact rfl
  | some item =>
    obtain ⟨hindex, hdata, -⟩ := hfiled.mainBranch hfetch
    show Ends _ _ (s.lift (fcAssert (item.data.blockNum = s.blockLog.length + 1) _) >>= fun _ => _)
    by_cases hnum : item.data.blockNum = s.blockLog.length + 1
    · rw [(fcAssert_eq_ok _ _ ()).2 hnum]
      have hget := (ForkDb.get_of_mem hfiled.linked hdata).2.2
      rw [hnum, Nat.add_sub_cancel] at hget
      have hlength : (s.blockLog ++ [item.data]).length = s.blockLog.length + 1 := by
        rw [List.length_append]
        rfl
      refine ⟨⟨⟨⟨?_, h.stack, h.revision, ?_, hlength.trans_le hwithin⟩, low, hfiled, ?_⟩, h.shrunk,
        h.grown.trans (List.prefix_append _ _), h.trimmed⟩, rfl, rfl, hlength⟩
      · obtain ⟨rest, hrest⟩ := h.log
        rw [← hrest, List.getElem?_append_right le_rfl, Nat.sub_self] at hget
        cases rest with
        | nil => cases hget
        | cons b rest =>
          obtain rfl := Option.some.inj hget
          exact ⟨rest, by rw [List.append_assoc]; exact hrest⟩
      · intro u hu
        show (s.blockLog ++ [item.data]).length < u.1
        rw [hlength]
        exact hrecent u hu
      · show low ≤ max 1 (s.blockLog ++ [item.data]).length
        omega
    · unfold fcAssert require
      rw [if_neg hnum]
      exact rfl

theorem appendMains (nums : List Nat) (h : Steady env t m s₀ s)
    (hrecent : ∀ u ∈ s.undoStack, s.blockLog.length + nums.length < u.1)
    (hwithin : s.blockLog.length + nums.length ≤ m.length) :
    Ends (fun e => Steady env t m s₀ e.2 ∧ e.2.db = s.db ∧ e.2.undoStack = s.undoStack)
      (fun s' => Steady env t m s₀ s' ∧ s'.db = s.db ∧ s'.undoStack = s.undoStack ∧
        s'.blockLog.length = s.blockLog.length + nums.length) (nums.foldlM Store.appendMain s) := by
  induction nums generalizing s with
  | nil => exact ⟨h, rfl, rfl, rfl⟩
  | cons num nums ih =>
    rw [List.foldlM_cons]
    rw [List.length_cons] at hrecent hwithin
    have hfirst := h.appendMain (fun u hu => by have := hrecent u hu; omega) (by omega) num
    cases hrun : s.appendMain num with
    | error e =>
      have hsame : e.2 = s := hfirst.of_error hrun
      show Steady env t m s₀ e.2 ∧ e.2.db = s.db ∧ e.2.undoStack = s.undoStack
      rw [hsame]
      exact ⟨h, rfl, rfl⟩
    | ok s₁ =>
      obtain ⟨h₁, hdb, hstack, hlength⟩ := hfirst.of_ok hrun
      have hrest := ih h₁ (fun u hu => by
        rw [hstack] at hu
        have := hrecent u hu
        omega) (by omega)
      rw [hdb, hstack, hlength] at hrest
      rw [List.length_cons, Nat.add_comm nums.length 1, ← Nat.add_assoc]
      exact hrest

/-- **The log** is brought up to the irreversible block. -/
theorem writeLog (h : Steady env t m s₀ s) (hundo : ∀ u ∈ s.undoStack, s.irreversible < u.1)
    (hceiling : s.irreversible ≤ m.length) :
    Ends (fun e => Steady env t m s₀ e.2 ∧ e.2.db = s.db ∧ e.2.undoStack = s.undoStack)
      (fun s' => Steady env t m s₀ s' ∧ s'.db = s.db ∧ s'.undoStack = s.undoStack ∧
        s.irreversible ≤ s'.blockLog.length) s.writeLog := by
  unfold Store.writeLog
  rw [h.logHeadNum]
  have hmains := h.appendMains
    (List.range' (s.blockLog.length + 1) (s.irreversible - s.blockLog.length)) (fun u hu => by
      have hlog := h.recent u hu
      have hirr := hundo u hu
      rw [List.length_range']
      omega) (by
        have hwithin := h.within
        rw [List.length_range']
        omega)
  unfold irreversible at hmains ⊢
  cases hrun : (List.range' (s.blockLog.length + 1)
      (s.db.dgp.lastIrreversibleBlockNum - s.blockLog.length)).foldlM Store.appendMain s with
  | error e => exact hmains.of_error hrun
  | ok s' =>
    obtain ⟨hs', hdb, hstack, hlength⟩ := hmains.of_ok hrun
    rw [List.length_range'] at hlength
    exact ⟨hs', hdb, hstack, by omega⟩

theorem length_lt (h : Steady env t m s₀ s) : s.blockLog.length < 2 ^ 32 := by
  obtain ⟨low, hfiled, -⟩ := h.filed
  exact h.log.length_le.trans_lt hfiled.length_lt

/-- The fork database keeps what is not in the log. -/
theorem shrinkForkDb (h : Steady env t m s₀ s) (hlog : s.irreversible ≤ s.blockLog.length)
    (hhead : ∀ x, s₀.forkDb.head = some x → x.num ≤ s.db.dgp.headBlockNumber + 1)
    (hnum : s.db.dgp.headBlockNumber + 1 < s.irreversible + 2 ^ 32) :
    Steady env t m s₀ s.shrinkForkDb := by
  obtain ⟨low, hfiled, hlow⟩ := h.filed
  have hlength := h.log.length_le
  have hlt := h.length_lt
  have hcut : ∀ x, s.forkDb.head = some x → x.num - (s.db.dgp.headBlockNumber + 1 + 2 ^ 32 -
      s.db.dgp.lastIrreversibleBlockNum) % 2 ^ 32 ≤ s.blockLog.length := by
    intro x hx
    rw [h.shrunk.head] at hx
    have hle := hhead x hx
    unfold irreversible at hlog hnum
    omega
  obtain ⟨low', hlow', hfiled'⟩ := hfiled.setMaxSize hcut (by omega)
  exact ⟨⟨⟨h.log, h.stack, h.revision, h.recent, h.within⟩, low', hfiled',
    by show low' ≤ max 1 s.blockLog.length; omega⟩, h.shrunk.setMaxSize _, h.grown, h.trimmed⟩

theorem readIrreversibleId (h : Steady env t m s₀ s) : Steady env t m s₀ (s.readIrreversibleId env) := by
  obtain ⟨id, hid⟩ := readIrreversibleId_eq env s
  rw [hid]
  exact h.of_db _

end Steady

/-- The irreversible block has moved to `num`. -/
structure Moved (num : Nat) (s s' : Store) : Prop where
  db : ∃ id, s'.db = s.db.modifyDgp fun p =>
    { p with lastIrreversibleBlockNum := num, lastIrreversibleBlockId := id }
  stack : s'.undoStack = s.undoStack.filter fun u => num < u.1

/-- The irreversible block is `num`, and nothing up to it can be undone any more. -/
structure Fixed (num : Nat) (s : Store) : Prop where
  irreversible : s.irreversible = num
  undo : ∀ u ∈ s.undoStack, num < u.1

theorem Moved.refl {num : Nat} (h : Fixed num s) : Moved num s s where
  db := by
    refine ⟨s.db.dgp.lastIrreversibleBlockId, ?_⟩
    rw [← h.irreversible]
    rfl
  stack := by
    refine (List.filter_eq_self.2 fun u hu => ?_).symm
    exact decide_eq_true (h.undo u hu)

theorem Moved.trans {num : Nat} {s'' : Store} (h : Moved num s s') (h' : Moved num s' s'') :
    Moved num s s'' where
  db := by
    obtain ⟨id, hid⟩ := h.db
    obtain ⟨id', hid'⟩ := h'.db
    refine ⟨id', ?_⟩
    rw [hid', hid]
    rfl
  stack := by
    rw [h'.stack, h.stack, List.filter_filter]
    simp only [Bool.and_self]

theorem Moved.headBlockNumber {num : Nat} (h : Moved num s s') :
    s'.db.dgp.headBlockNumber = s.db.dgp.headBlockNumber := by
  obtain ⟨id, hid⟩ := h.db
  rw [hid]
  rfl

theorem Moved.fixed {num : Nat} (h : Moved num s s') : Fixed num s' where
  irreversible := by
    obtain ⟨id, hid⟩ := h.db
    unfold irreversible
    rw [hid]
    rfl
  undo u hu := by
    rw [h.stack] at hu
    exact of_decide_eq_true (List.mem_filter.1 hu).2

/-- The log is written and the fork database shrinks; in between, the id may be read. -/
theorem Steady.settle (h : Steady env t m s₀ s) {num : Nat} {g : Store → Store}
    (hg : ∀ u, g u = u ∨ g u = u.readIrreversibleId env) (hfixed : Fixed num s)
    (hceiling : num ≤ m.length)
    (hhead : ∀ x, s₀.forkDb.head = some x → x.num ≤ s.db.dgp.headBlockNumber + 1)
    (hnum : s.db.dgp.headBlockNumber + 1 < num + 2 ^ 32) :
    Ends (fun e => Steady env t m s₀ e.2 ∧ Moved num s e.2)
      (fun s' => Steady env t m s₀ s' ∧ Moved num s s' ∧ num ≤ s'.blockLog.length)
      (s.writeLog >>= fun u => pure (g u).shrinkForkDb) := by
  have hwrite := h.writeLog (fun u hu => by
    rw [hfixed.irreversible]
    exact hfixed.undo u hu) (by
      rw [hfixed.irreversible]
      exact hceiling)
  rw [hfixed.irreversible] at hwrite
  have hkept : ∀ u : Store, u.db = s.db → u.undoStack = s.undoStack → Moved num s u := by
    intro u hdb hstack
    obtain ⟨⟨id, hid⟩, hfilter⟩ := Moved.refl hfixed
    exact ⟨⟨id, hdb.trans hid⟩, hstack.trans hfilter⟩
  cases hrun : s.writeLog with
  | error e =>
    obtain ⟨hs, hdb, hstack⟩ := hwrite.of_error hrun
    exact ⟨hs, hkept e.2 hdb hstack⟩
  | ok u =>
    obtain ⟨hs, hdb, hstack, hlog⟩ := hwrite.of_ok hrun
    have hmoved : Steady env t m s₀ (g u) ∧ Moved num s (g u) ∧ num ≤ (g u).blockLog.length := by
      have hu := hkept u hdb hstack
      rcases hg u with hsame | hread
      · rw [hsame]
        exact ⟨hs, hu, hlog⟩
      · rw [hread]
        obtain ⟨id, hid⟩ := readIrreversibleId_eq env u
        refine ⟨hs.readIrreversibleId, ?_, ?_⟩
        · rw [hid]
          refine ⟨⟨id, ?_⟩, hu.stack⟩
          obtain ⟨old, hold⟩ := hu.db
          dsimp only
          rw [hold]
          rfl
        · rw [hid]
          exact hlog
    obtain ⟨hsteady, hnext, hlogged⟩ := hmoved
    have hirreversible := hnext.fixed.irreversible
    have hheight := hnext.headBlockNumber
    refine ⟨hsteady.shrinkForkDb ?_ ?_ ?_, ⟨hnext.db, hnext.stack⟩, hlogged⟩
    · rw [hirreversible]
      exact hlogged
    · rw [hheight]
      exact hhead
    · rw [hheight, hirreversible]
      exact hnum

theorem Steady.advanceIrreversible (h : Steady env t m s₀ s) {num : Nat}
    (hceiling : num ≤ m.length)
    (hhead : ∀ x, s₀.forkDb.head = some x → x.num ≤ s.db.dgp.headBlockNumber + 1)
    (hnum : s.db.dgp.headBlockNumber + 1 < num + 2 ^ 32) :
    Ends (fun e => Steady env t m s₀ e.2 ∧ Moved num s e.2)
      (fun s' => Steady env t m s₀ s' ∧ Moved num s s' ∧ num ≤ s'.blockLog.length)
      (s.advanceIrreversible env num) := by
  have hset : Steady env t m s₀ ((s.setIrreversible num).commit num) := (h.of_db _).commit num
  have hmoved : Moved num s ((s.setIrreversible num).commit num) := ⟨⟨⟨0, 0⟩, rfl⟩, rfl⟩
  have hsettle := hset.settle (g := fun u => u.readIrreversibleId env) (fun u => .inr rfl)
    hmoved.fixed hceiling hhead hnum
  exact Ends.mono hsettle (fun e he => ⟨he.1, hmoved.trans he.2⟩)
    fun s' hs' => ⟨hs'.1, hmoved.trans hs'.2.1, hs'.2.2⟩

end Store

end VizCore.Chain
