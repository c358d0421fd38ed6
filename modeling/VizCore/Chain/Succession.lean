import VizCore.Chain.Heads
import VizCore.Chain.Mainline

/-!
# A block at the end of the chain

The chain that a node is on its way along is `t`, and `m` is the part of it that has been applied.

* `Along`: a store that stands at the end of `m`;
* `Amid`: in the course of a block, after the head has been set;
* `Along.applyBlock`: a block either lengthens `m`, or what it leaves can be undone, or it has made
  itself irreversible before it failed.
-/

namespace VizCore.Chain

open VizCore.Lib VizCore.Protocol

namespace Store

variable {env : Env} {fuel : Nat} {skip : Skip} {b : SignedBlock} {t m : List SignedBlock}
  {ring : Table BlockSummaryObject} {floor : Nat} {s₀ s s' : Store}

/-- The database stands at the end of the chain `m`, and what is irreversible is in the log, which
follows the chain `t`. -/
structure Footing (env : Env) (t m : List SignedBlock) (s : Store) : Prop
    extends Trails env t m s where
  stands : Db.At env m s.db
  logged : s.irreversible ≤ s.blockLog.length
  past : ∀ u ∈ s.undoStack, u.2.dgp.lastIrreversibleBlockNum ≤ s.blockLog.length

/-- The fork database follows the chain `t` as well. -/
structure Along (env : Env) (t m : List SignedBlock) (s : Store) : Prop
    extends Footing env t m s, Stored env t m s

/-- The block `b` is the next one of the chain, and the head of the fork database is not far
above it. -/
structure Entry (t m : List SignedBlock) (b : SignedBlock) (floor : Nat) (s₀ : Store) : Prop where
  follows : m ++ [b] <+: t
  num : b.blockNum = m.length + 1
  recent : b.blockNum < floor + 2 ^ 16
  head : ∀ x, s₀.forkDb.head = some x → x.num ≤ b.blockNum + 1

/-- In the course of the block `b`, after the head has been set. -/
structure Amid (env : Env) (t m : List SignedBlock) (b : SignedBlock)
    (ring : Table BlockSummaryObject) (floor : Nat) (s₀ s : Store) : Prop
    extends Steady env t (m ++ [b]) s₀ s where
  holds : Db.Holds env ((b.blockNum, Db.blockId env b), ring) (m ++ [b]) floor (m.length + 1) s.db

/-- Amid a block, with the log up to the irreversible block. -/
structure Settled (env : Env) (t m : List SignedBlock) (b : SignedBlock)
    (ring : Table BlockSummaryObject) (floor : Nat) (s₀ s : Store) : Prop
    extends Amid env t m b ring floor s₀ s where
  logged : s.irreversible ≤ s.blockLog.length

/-- The block has not got to its head, or it is in its course. -/
def Begun (env : Env) (t m : List SignedBlock) (b : SignedBlock) (s₀ s : Store) : Prop :=
  (∃ db, s = { s₀ with db := db }) ∨ ∃ ring floor, Amid env t m b ring floor s₀ s

namespace Amid

theorem of_db (h : Amid env t m b ring floor s₀ s) {ring' : Table BlockSummaryObject} {db : Db}
    (hdb : Db.Holds env ((b.blockNum, Db.blockId env b), ring') (m ++ [b]) floor (m.length + 1) db) :
    Amid env t m b ring' floor s₀ { s with db := db } :=
  ⟨h.toSteady.of_db db, hdb⟩

theorem begun (h : Amid env t m b ring floor s₀ s) : Begun env t m b s₀ s := .inr ⟨ring, floor, h⟩

theorem moved (h : Amid env t m b ring floor s₀ s) {num : Nat}
    (hsteady : Steady env t (m ++ [b]) s₀ s') (hmoved : Moved num s s') (hfloor : floor ≤ num)
    (hceiling : num ≤ m.length + 1) : Amid env t m b ring floor s₀ s' := by
  refine ⟨hsteady, ?_⟩
  obtain ⟨id, hid⟩ := hmoved.db
  rw [hid]
  exact h.holds.moved hfloor hceiling

/-- The height of the head. -/
theorem height (h : Amid env t m b ring floor s₀ s) : s.db.dgp.headBlockNumber = b.blockNum :=
  congrArg (fun l => l.1.1) h.holds.landmarks

/-- What settling needs to know of the head. -/
theorem bounds (hentry : Entry t m b floor s₀) (h : Amid env t m b ring floor s₀ s) {num : Nat}
    (hfloor : floor ≤ num) :
    (∀ x, s₀.forkDb.head = some x → x.num ≤ s.db.dgp.headBlockNumber + 1) ∧
      s.db.dgp.headBlockNumber + 1 < num + 2 ^ 32 := by
  have hrecent := hentry.recent
  rw [h.height]
  exact ⟨hentry.head, by omega⟩

theorem advance (hentry : Entry t m b floor s₀) (h : Amid env t m b ring floor s₀ s) {num : Nat}
    (hfloor : floor ≤ num) (hceiling : num ≤ m.length + 1) :
    Ends (fun e => Amid env t m b ring floor s₀ e.2)
      (Settled env t m b ring floor s₀)
      (s.advanceIrreversible env num) := by
  have hlength : (m ++ [b]).length = m.length + 1 := by rw [List.length_append]; rfl
  obtain ⟨hhead, hnum⟩ := h.bounds hentry hfloor
  have hwithin : num ≤ (m ++ [b]).length := hceiling.trans_eq hlength.symm
  have hsettle := h.toSteady.advanceIrreversible hwithin hhead hnum
  refine hsettle.mono (fun e he => h.moved he.1 he.2 hfloor hceiling) fun s' hs' => ?_
  obtain ⟨hsteady, hmoved, hlogged⟩ := hs'
  refine ⟨h.moved hsteady hmoved hfloor hceiling, ?_⟩
  rw [hmoved.fixed.irreversible]
  exact hlogged

/-- **The last irreversible block** is updated. -/
theorem updateLastIrreversibleBlock (hentry : Entry t m b floor s₀)
    (h : Amid env t m b ring floor s₀ s) (hskip : skip.blockLog = false) :
    Ends (fun e => Amid env t m b ring floor s₀ e.2)
      (Settled env t m b ring floor s₀)
      (s.updateLastIrreversibleBlock env skip) := by
  have hlength : (m ++ [b]).length = m.length + 1 := by rw [List.length_append]; rfl
  unfold Store.updateLastIrreversibleBlock
  cases hcandidate : irreversibleCandidate s.db with
  | error e => exact h
  | ok candidate =>
    have hle : candidate ≤ m.length + 1 := hlength ▸ h.holds.backed.candidate hcandidate
    have hset : Amid env t m b ring floor s₀ (if s.db.dgp.lastIrreversibleBlockNum < candidate then
        s.setIrreversible candidate else s) := by
      have hfloor := h.holds.floor
      split
      · exact h.of_db (h.holds.moved (by omega) hle)
      · exact h
    show Ends _ _ ((((if s.db.dgp.lastIrreversibleBlockNum < candidate then
      s.setIrreversible candidate else s).commit _).writeLogUnless skip.blockLog) >>= fun s =>
        pure (if candidate = s.db.dgp.lastIrreversibleBlockNum then s.readIrreversibleId env
          else s).shrinkForkDb)
    generalize (if s.db.dgp.lastIrreversibleBlockNum < candidate then
      s.setIrreversible candidate else s) = u at *
    have hfixed : Fixed u.irreversible (u.commit u.irreversible) :=
      ⟨rfl, fun v hv => of_decide_eq_true (List.mem_filter.1 hv).2⟩
    have hcommit : Amid env t m b ring floor s₀ (u.commit u.irreversible) :=
      ⟨hset.toSteady.commit _, hset.holds⟩
    obtain ⟨hhead, hnum⟩ := hcommit.bounds hentry hset.holds.floor
    have hceiling := hset.holds.ceiling
    have hsettle := hcommit.toSteady.settle (g := fun s =>
      if candidate = s.db.dgp.lastIrreversibleBlockNum then s.readIrreversibleId env else s)
      (fun v => by
        split
        · exact .inr rfl
        · exact .inl rfl) hfixed (by unfold irreversible; omega) hhead hnum
    rw [hskip]
    refine hsettle.mono (fun e he => hcommit.moved he.1 he.2 hset.holds.floor hceiling)
      fun s' hs' => ?_
    obtain ⟨hsteady, hmoved, hlogged⟩ := hs'
    refine ⟨hcommit.moved hsteady hmoved hset.holds.floor hceiling, ?_⟩
    rw [hmoved.fixed.irreversible]
    exact hlogged

end Amid

/-! ## Post-validations -/

namespace Settled

theorem checkPostValidation (hentry : Entry t m b floor s₀) (h : Settled env t m b ring floor s₀ s)
    {v : BlockPostValidationObject}
    (hv : v.blockNum ≤ m.length + 1) :
    Ends (fun e => Amid env t m b ring floor s₀ e.2)
      (Settled env t m b ring floor s₀)
      (s.checkPostValidation env v) := by
  unfold Store.checkPostValidation
  split
  · rename_i hnext
    have hfloor := h.holds.floor
    have hnum : floor ≤ v.blockNum := by omega
    refine (h.toAmid.advance hentry hnum hv).bind fun s' hs' => ?_
    have hset := hs'.holds
    refine ⟨hs'.of_db ⟨hset.landmarks, ?_, hset.backed, hset.floor, hset.ceiling⟩, hs'.logged⟩
    exact Table.all_erase hset.validations
  · exact h

theorem checkPostValidations (hentry : Entry t m b floor s₀) (h : Settled env t m b ring floor s₀ s)
    (rows : List BlockPostValidationObject)
    (hrows : ∀ v ∈ rows, v.blockNum ≤ m.length + 1) :
    Ends (fun e => Amid env t m b ring floor s₀ e.2)
      (Settled env t m b ring floor s₀)
      (rows.foldlM (fun s v => s.checkPostValidation env v) s) := by
  induction rows generalizing s with
  | nil => exact h
  | cons v rows ih =>
    rw [List.foldlM_cons]
    have hfirst := h.checkPostValidation hentry (hrows v List.mem_cons_self)
    refine hfirst.bind fun s' hs' => ?_
    exact ih hs' fun w hw => hrows w (List.mem_cons_of_mem v hw)

/-- A new block waits for its post-validation. -/
theorem createBlockPostValidation (h : Settled env t m b ring floor s₀ s) {num : Nat} {id : BlockId}
    {producer : AccountName} (hnum : num = b.blockNum) (hid : id = Db.blockId env b) :
    Settled env t m b ring floor s₀ (s.createBlockPostValidation num id producer) := by
  refine ⟨h.of_db ⟨h.holds.landmarks, ?_, h.holds.backed, h.holds.floor, h.holds.ceiling⟩, h.logged⟩
  refine Table.all_create (fun v hv => ?_) ⟨b, List.mem_append_right m List.mem_cons_self, hnum, hid⟩
  have hkept := List.mem_of_mem_drop hv
  exact h.holds.validations v (List.mem_filter.1 hkept).1

/-! ## Steps -/

theorem onDb (h : Settled env t m b ring floor s₀ s) {x : Run Db}
    (hx : Traced.Ensures (fun _ => True) x
      (Db.Holds env ((b.blockNum, Db.blockId env b), ring) (m ++ [b]) floor s.blockLog.length)) :
    Traced.Settles (fun _ => True) (fun e => Begun env t m b s₀ e.2) (s.onDb x) (Settled env t m b ring floor s₀) := by
  refine (onDb_settles h hx fun db hdb => ?_).mono (fun e he => he.begun) fun s' hs' => hs'
  have hwithin := h.within
  have hceiling := hdb.ceiling
  rw [List.length_append, List.length_singleton] at hwithin
  exact ⟨h.of_db (hdb.under (by omega)), hceiling⟩

theorem step (h : Settled env t m b ring floor s₀ s) {st : BlockStep}
    (hhead : st ≠ .updateGlobalDynamicData) (hsigning : st ≠ .updateSigningWitness)
    (hsummary : st ≠ .createBlockSummary) :
    Traced.Settles (fun _ => True) (fun e => Begun env t m b s₀ e.2) (s.step env skip b st)
      (Settled env t m b ring floor s₀) := by
  refine h.onDb ((Traced.Ensures.report _).bind fun _ _ => .lift fun d hrun => ?_)
  exact (h.holds.under h.logged).run hhead hsigning hsummary hrun

end Settled

/-! ## Blocks -/

namespace Along

theorem linked_next (h : Along env t m s) (hfollows : m ++ [b] <+: t) :
    b.blockNum = m.length + 1 ∧ b.previous = (links env).tip m := by
  have hlinked : (links env).Linked (m ++ [b]) := h.toStored.linked.of_prefix hfollows
  have hget : (m ++ [b])[m.length]? = some b := List.getElem?_concat_length
  have hprevious := hlinked.previous_of_get hget
  rw [List.take_left' rfl] at hprevious
  exact ⟨hlinked.height_of_get hget, hprevious⟩

/-- A session is opened for the next block. -/
theorem startUndoSession (h : Along env t m s) (b : SignedBlock) :
    Stored env t (m ++ [b]) s.startUndoSession := by
  have hlength : (m ++ [b]).length = m.length + 1 := by rw [List.length_append]; rfl
  refine ⟨⟨h.log, ?_, ?_, ?_, ?_⟩, h.filed⟩
  · show Stacked (Db.At env) (m ++ [b]) ((s.revision + 1, s.db) :: s.undoStack)
    rw [h.revision]
    exact .cons h.stands h.stack
  · show s.revision + 1 = (m ++ [b]).length
    rw [hlength, h.revision]
  · intro u hu
    rcases List.mem_cons.1 hu with rfl | hu
    · exact Nat.lt_succ_of_le (h.within.trans_eq h.revision.symm)
    · exact h.recent u hu
  · rw [hlength]
    exact h.within.trans (Nat.le_succ _)

/-- After steady progress in the session of a next block the session is undone, unless its undo
state has been dropped. -/
theorem undone (h : Along env t m s) {u : Store} (hu : Steady env t (m ++ [b]) s.startUndoSession u) :
    (Along env t m u.undo ∧ s.forkDb.Shrunk u.undo.forkDb ∧ s.blockLog <+: u.undo.blockLog ∧
      u.undo.db = s.db ∧ u = { u.undo.startUndoSession with db := u.db }) ∨
      u.undoStack = [] ∧ u.undo = u := by
  have hlength : (m ++ [b]).length = m.length + 1 := by rw [List.length_append]; rfl
  have hrevision := h.revision
  obtain ⟨num, hnum⟩ := hu.trimmed
  have hstack : u.undoStack =
      ((s.revision + 1, s.db) :: s.undoStack).filter fun v => num < v.1 := hnum
  rw [List.filter_cons] at hstack
  split at hstack
  · have hundo : u.undo = { u with
        db := s.db
        undoStack := s.undoStack.filter fun v => num < v.1
        revision := s.revision } := by
      unfold Store.undo
      rw [hstack]
      rfl
    have hsession : u = { u.undo.startUndoSession with db := u.db } := by
      have hlast := hu.revision
      rw [hlength, ← hrevision] at hlast
      rw [hundo]
      unfold Store.startUndoSession
      dsimp only
      rw [← hstack, ← hlast]
    have hgrown : s.blockLog <+: u.blockLog := hu.grown
    have hrecent : ∀ v ∈ (s.revision + 1, s.db) :: s.undoStack.filter fun v => num < v.1,
        u.blockLog.length < v.1 := by
      rw [← hstack]
      exact hu.recent
    refine .inl ⟨?_, ?_, ?_, ?_, hsession⟩
    · rw [hundo]
      refine ⟨⟨⟨hu.log, h.stack.drop_le num, hrevision, ?_, ?_⟩, h.stands,
        h.logged.trans hgrown.length_le, ?_⟩, hu.filed⟩
      · intro v hv
        exact hrecent v (List.mem_cons_of_mem _ hv)
      · have hlt := hrecent _ List.mem_cons_self
        rw [hrevision] at hlt
        exact Nat.le_of_lt_succ hlt
      · intro v hv
        exact (h.past v (List.mem_filter.1 hv).1).trans hgrown.length_le
    · rw [hundo]
      exact hu.shrunk
    · rw [hundo]
      exact hgrown
    · rw [hundo]
  · rename_i hdropped
    have hnone : s.undoStack.filter (fun v => decide (num < v.1)) = [] := by
      refine List.filter_eq_nil_iff.2 fun v hv => ?_
      have hle := h.stack.le_length v hv
      simp only [decide_eq_true_eq] at hdropped ⊢
      omega
    rw [hnone] at hstack
    refine .inr ⟨hstack, ?_⟩
    unfold Store.undo
    rw [hstack]

/-- What a failed block leaves can be undone, unless the block has made itself irreversible. -/
theorem undo (h : Along env t m s) {u : Store} (hu : Begun env t m b s.startUndoSession u) :
    (Along env t m u.undo ∧ s.forkDb.Shrunk u.undo.forkDb ∧ s.blockLog <+: u.undo.blockLog ∧
      u.undo.db = s.db) ∨ u.undo.db.headMark = (b.blockNum, Db.blockId env b) := by
  rcases hu with ⟨db, rfl⟩ | ⟨ring, floor, hamid⟩
  · exact .inl ⟨h, .refl _, List.prefix_refl _, rfl⟩
  · rcases h.undone hamid.toSteady with ⟨halong, hshrunk, hgrown, hdb, -⟩ | ⟨-, hsame⟩
    · exact .inl ⟨halong, hshrunk, hgrown, hdb⟩
    · rw [hsame]
      exact .inr (congrArg Prod.fst hamid.holds.landmarks)

end Along

/-- Before the head is set, only the database moves. -/
structure Early (env : Env) (l : (Nat × BlockId) × Table BlockSummaryObject)
    (d : List SignedBlock) (floor : Nat) (s₀ s : Store) : Prop where
  same : s = { s₀ with db := s.db }
  holds : Db.Holds env l d floor d.length s.db

namespace Early

variable {l : (Nat × BlockId) × Table BlockSummaryObject} {d : List SignedBlock}

theorem begun (h : Early env l d floor s₀ s) : Begun env t m b s₀ s := .inl ⟨s.db, h.same⟩

theorem onDb (h : Early env l d floor s₀ s) {x : Run Db}
    (hx : Traced.Ensures (fun _ => True) x (Db.Holds env l d floor d.length)) :
    Traced.Settles (fun _ => True) (fun e => Begun env t m b s₀ e.2) (s.onDb x) (Early env l d floor s₀) := by
  refine (onDb_settles h hx fun db hdb => ?_).mono (fun e he => he.begun) fun s' hs' => hs'
  refine ⟨?_, hdb⟩
  rw [h.same]

theorem openBlock (h : Early env l d floor s₀ s) :
    Traced.Settles (fun _ => True) (fun e => Begun env t m b s₀ e.2) (s.step env skip b .openBlock)
      (Early env l d floor s₀) := by
  refine h.onDb ((Traced.Ensures.report _).bind fun _ _ => .lift fun d hrun => ?_)
  exact h.holds.run (by decide) (by decide) (by decide) hrun

theorem transactions (h : Early env l d floor s₀ s) (trxs : List SignedTransaction) :
    Traced.Settles (fun _ => True) (fun e => Begun env t m b s₀ e.2)
      (s.onDb (trxs.foldlM (Db.applyTransaction env fuel skip) s.db))
      (Early env l d floor s₀) :=
  h.onDb (.foldlM _ _ trxs (fun trx _ u hu =>
    Db.applyTransaction_framed (Db.holds_framed env env l d floor d.length) fuel skip trx hu) s.db h.holds)

/-- The head is set. -/
theorem updateGlobalDynamicData (h : Early env l (m ++ [b]) floor s₀ s)
    (hstored : Stored env t (m ++ [b]) s₀) (hhistory : skip.undoHistoryCheck = false) :
    Traced.Settles (fun _ => True) (fun e => Begun env t m b s₀ e.2) (s.step env skip b .updateGlobalDynamicData)
      fun s' => Amid env t m b l.2 s'.irreversible s₀ s' ∧
        b.blockNum < s'.irreversible + 2 ^ 16 := by
  have hsame : Steady env t (m ++ [b]) s₀ s := by
    rw [h.same]
    exact (Steady.refl hstored).of_db s.db
  have hrun : Ends (fun _ => True) (fun d => s.db.updateGlobalDynamicData env skip b = .ok d)
      (s.db.updateGlobalDynamicData env skip b) := by
    cases s.db.updateGlobalDynamicData env skip b with
    | ok d => exact rfl
    | error e => exact trivial
  refine Traced.Settles.mapBoth ((Traced.Settles.report trivial).bind fun _ _ => .lift hrun)
    (fun e _ => h.begun) fun d hd => ?_
  have hset := h.holds.updateGlobalDynamicData hd
  refine ⟨⟨hsame.of_db d, ?_⟩, Db.updateGlobalDynamicData_reversible hd hhistory⟩
  exact ⟨hset.landmarks, hset.validations, hset.backed, le_rfl,
    hset.ceiling.trans_eq List.length_append⟩

end Early

/-- The id of the block gets into the ring. -/
theorem Settled.createBlockSummary (h : Settled env t m b ring floor s₀ s) :
    Traced.Settles (fun _ => True) (fun e => Begun env t m b s₀ e.2) (s.step env skip b .createBlockSummary)
      fun s' => Settled env t m b (Db.enterRing env b ring) floor s₀ s' ∧
        (ring.get (·.id) (b.blockNum % 2 ^ 16)).isSome := by
  have hrun : Ends (fun _ => True) (fun d => s.db.createBlockSummary env b = .ok d)
      (s.db.createBlockSummary env b) := by
    cases s.db.createBlockSummary env b with
    | ok d => exact rfl
    | error e => exact trivial
  refine Traced.Settles.mapBoth ((Traced.Settles.report trivial).bind fun _ _ => .lift hrun)
    (fun e _ => h.begun) fun d hd => ?_
  obtain ⟨hset, hrow⟩ := (h.holds.under h.logged).createBlockSummary hd
  have hwithin := h.within
  have hceiling := hset.ceiling
  rw [List.length_append, List.length_singleton] at hwithin
  exact ⟨⟨h.of_db (hset.under (by omega)), hceiling⟩, hrow⟩

namespace Amid

theorem updateSigningWitness (hentry : Entry t m b floor s₀)
    (h : Amid env t m b ring floor s₀ s) :
    Traced.Settles (fun _ => True) (fun e => Begun env t m b s₀ e.2) (s.step env skip b .updateSigningWitness)
      (Amid env t m b ring floor s₀) := by
  refine (onDb_settles h (I := Db.Holds env ((b.blockNum, Db.blockId env b), ring) (m ++ [b]) floor
    (m.length + 1)) ?_ fun db hdb => h.of_db hdb).mono (fun e he => he.begun) fun s' hs' => hs'
  refine (Traced.Ensures.report _).bind fun _ _ => .lift fun d hrun => ?_
  have hheight : b.blockNum ≤ (m ++ [b]).length := by
    rw [hentry.num, List.length_append, List.length_singleton]
  exact h.holds.updateSigningWitness hheight hrun

/-- The rest of a block, after its head has been set. -/
theorem closeBlock (hentry : Entry t m b floor s₀) (h : Amid env t m b ring floor s₀ s)
    (hlog : skip.blockLog = false) :
    Traced.Settles (fun _ => True) (fun e => Begun env t m b s₀ e.2) (closeBlock env fuel skip b s)
      fun s' => Settled env t m b (Db.enterRing env b ring) floor s₀ s' ∧
        (ring.get (·.id) (b.blockNum % 2 ^ 16)).isSome := by
  have hlength : (m ++ [b]).length = m.length + 1 := by rw [List.length_append]; rfl
  unfold Store.closeBlock
  refine (h.updateSigningWitness hentry).bind fun s₁ h₁ => ?_
  refine (Traced.Settles.lift (h₁.updateLastIrreversibleBlock hentry hlog)).mono
    (fun e he => he.begun) (fun s' hs' => hs') |>.bind fun s₂ h₂ => ?_
  refine h₂.createBlockSummary.bind fun s₃ hs₃ => ?_
  obtain ⟨h₃, hrow⟩ := hs₃
  refine (h₃.onDb (Db.clearExpiredProposals_framed (Db.holds_framed env env _ _ _ _) fuel
    (h₃.holds.under h₃.logged))).bind fun s₄ h₄ => ?_
  have hsteps : Traced.Settles (fun _ => True) (fun e => Begun env t m b s₀ e.2)
      (closingSteps.foldlM (fun s st => s.step env skip b st) s₄)
      (Settled env t m b (Db.enterRing env b ring) floor s₀) :=
    .foldlM _ _ closingSteps (fun st hst u hu => hu.step (fun heq => absurd (heq ▸ hst) (by decide))
      (fun heq => absurd (heq ▸ hst) (by decide)) (fun heq => absurd (heq ▸ hst) (by decide))) s₄ h₄
  refine hsteps.bind fun s₅ h₅ => ?_
  have hvalidations := h₅.checkPostValidations hentry s₅.db.blockPostValidations.rows
    fun v hv => hlength ▸ (h₅.holds.validations v hv).le (h₅.linked.of_prefix hentry.follows)
  refine ((Traced.Settles.lift hvalidations).mono (fun e he => he.begun) fun s' hs' => hs').bind
    fun s₆ h₆ => ?_
  exact .pure ⟨h₆.createBlockPostValidation rfl rfl, hrow⟩

end Amid

/-- **A block** at the end of the chain: what it leaves when it throws, and when it does not. -/
theorem Along.applyBlock (h : Along env t m s) (hfollows : m ++ [b] <+: t)
    (hhead : ∀ x, s.forkDb.head = some x → x.num ≤ m.length + 2)
    (hlog : skip.blockLog = false) (hhistory : skip.undoHistoryCheck = false) :
    Traced.Settles (fun _ => True) (fun e => Begun env t m b s.startUndoSession e.2)
      (s.startUndoSession.applyBlock env fuel skip b)
      fun s' => Along env t (m ++ [b]) s' ∧ s.forkDb.Shrunk s'.forkDb ∧
        s.blockLog <+: s'.blockLog := by
  obtain ⟨hnum, -⟩ := h.linked_next hfollows
  have hstored := h.startUndoSession b
  have hearly : Early env ((m.length, (links env).tip m), s.db.blockSummaries) (m ++ [b])
      s.db.dgp.lastIrreversibleBlockNum s.startUndoSession s.startUndoSession := by
    refine ⟨rfl, (h.stands.holds b).under (h.stands.ceiling.trans ?_)⟩
    rw [List.length_append]
    exact Nat.le_add_right _ _
  rw [applyBlock_eq]
  refine hearly.openBlock.bind fun s₁ h₁ => ?_
  refine (h₁.transactions b.transactions).bind fun s₂ h₂ => ?_
  refine (h₂.updateGlobalDynamicData hstored hhistory).bind fun s₃ hs₃ => ?_
  obtain ⟨h₃, hrecent⟩ := hs₃
  have hentry : Entry t m b s₃.irreversible s.startUndoSession :=
    ⟨hfollows, hnum, hrecent, fun x hx => by have := hhead x hx; omega⟩
  refine (h₃.closeBlock hentry hlog).mono (fun e he => he) fun s' hs' => ?_
  obtain ⟨hsettled, hrow⟩ := hs'
  have hlinked : (links env).Linked (m ++ [b]) := h.toStored.linked.of_prefix hfollows
  have hgrown : s.blockLog <+: s'.blockLog := hsettled.grown
  refine ⟨⟨⟨hsettled.toTrails, h.stands.enter hlinked hrow hsettled.holds hrecent, hsettled.logged,
    fun u hu => ?_⟩, hsettled.filed⟩, hsettled.shrunk, hgrown⟩
  obtain ⟨num, hnum⟩ := hsettled.trimmed
  rw [hnum] at hu
  rcases List.mem_cons.1 (List.mem_filter.1 hu).1 with rfl | hold
  · exact h.logged.trans hgrown.length_le
  · exact (h.past u hold).trans hgrown.length_le

end Store

end VizCore.Chain
