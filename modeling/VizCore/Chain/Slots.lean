import VizCore.Chain.Finality

/-!
# Slots along a chain

The head's time, the absolute slot number and the window of the last 128 slots, as every
block moves them on.

* `applyBlock_moves`: only `update_global_dynamic_data` moves them;
* `Ticking`: what holds of them in every state of a chain, kept by each block;
* `getSlotAtTime_eq_iff`: slots are the intervals between slot times.
-/

namespace VizCore.Chain

open VizCore.Lib VizCore.Protocol

/-! ## One bits -/

/-- The number of one bits among the lowest `width` bits. -/
def oneBits (width n : Nat) : Nat := (List.range width).countP fun i => n.testBit i

theorem oneBits_le (width n : Nat) : oneBits width n ≤ width := by
  have hle := List.countP_le_length (p := fun i => n.testBit i) (l := List.range width)
  rwa [List.length_range] at hle

/-- A bit comes in at the low end and the highest bit goes out. -/
theorem oneBits_shift (width n : Nat) (c : Bool) :
    oneBits (width + 1) ((n * 2 + c.toNat) % 2 ^ (width + 1)) + (n.testBit width).toNat =
      oneBits (width + 1) n + c.toNat := by
  have hlow : ((n * 2 + c.toNat) % 2 ^ (width + 1)).testBit 0 = c := by
    rw [Nat.testBit_mod_two_pow]
    cases c <;> simp [Nat.testBit_zero]
  have hhigh : ∀ i, i < width →
      ((n * 2 + c.toNat) % 2 ^ (width + 1)).testBit (i + 1) = n.testBit i := by
    intro i hi
    have hhalf : (n * 2 + c.toNat) / 2 = n := by
      cases c <;> simp <;> omega
    rw [Nat.testBit_mod_two_pow, Nat.testBit_succ, hhalf]
    simp [hi]
  have hshifted : oneBits (width + 1) ((n * 2 + c.toNat) % 2 ^ (width + 1)) =
      c.toNat + oneBits width n := by
    unfold oneBits
    rw [List.range_succ_eq_map, List.countP_cons, List.countP_map, hlow]
    have hsame : (List.range width).countP ((fun i =>
        ((n * 2 + c.toNat) % 2 ^ (width + 1)).testBit i) ∘ Nat.succ) =
        (List.range width).countP fun i => n.testBit i := by
      apply List.countP_congr
      intro i hi
      rw [List.mem_range] at hi
      simp only [Function.comp, Nat.succ_eq_add_one, hhigh i hi]
    rw [hsame]
    cases c <;> simp <;> omega
  have hsplit : oneBits (width + 1) n = oneBits width n + (n.testBit width).toNat := by
    unfold oneBits
    rw [List.range_succ, List.countP_append, List.countP_singleton]
    cases n.testBit width <;> simp
  omega

/-! ## What moves the clock -/

/-- The head, the slots and the window of the last slots. -/
structure Clockwork where
  time : TimePointSec
  number : Nat
  headId : BlockId
  aslot : Nat
  recent : Nat
  participation : Nat

namespace Db

variable {env : Env} {skip : Skip} {b : SignedBlock} {db db' : Db}

def clockwork (db : Db) : Clockwork where
  time := db.dgp.time
  number := db.dgp.headBlockNumber
  headId := db.dgp.headBlockId
  aslot := db.dgp.currentAslot
  recent := db.dgp.recentSlotsFilled
  participation := db.dgp.participationCount

def slots (db : Db) : SlotRest := (db.view .slots).rest

theorem slots_of_drift {g : Prop} (h : Drift .slots g db db') : db'.slots = db.slots :=
  h.rest rfl (fun _ _ _ _ _ => rfl) fun _ _ => rfl

theorem clockwork_of_parts (hrecords : db.records.Extends db'.records)
    (hslots : db'.slots = db.slots) : db'.clockwork = db.clockwork := by
  have htime : db'.dgp.time = db.dgp.time := hrecords.time
  have hnumber : db'.dgp.headBlockNumber = db.dgp.headBlockNumber := hrecords.number
  have hheadId : db'.dgp.headBlockId = db.dgp.headBlockId := hrecords.headId
  have haslot : db'.dgp.currentAslot = db.dgp.currentAslot := congrArg SlotRest.aslot hslots
  have hrecent : db'.dgp.recentSlotsFilled = db.dgp.recentSlotsFilled :=
    congrArg SlotRest.recent hslots
  have hcount : db'.dgp.participationCount = db.dgp.participationCount :=
    congrArg SlotRest.participation hslots
  unfold clockwork
  rw [htime, hnumber, hheadId, haslot, hrecent, hcount]

theorem clockwork_framed (env : Env) (c : Clockwork) : Framed env fun d => d.clockwork = c where
  evaluate clock db op db' hdb h := by
    have hslots : db'.slots = db.slots := by
      refine slots_of_drift (evaluate_drift ?_ h)
      cases op <;> rfl
    exact (clockwork_of_parts (.of_eq (evaluate_records h)) hslots).trans hdb
  proposals db t r hdb := hdb
  opened skip db trx db' hdb h := by
    have hslots : db'.slots = db.slots :=
      congrArg Aspect.View.rest (openTransaction_view (x := .slots) (by decide) h)
    exact (clockwork_of_parts (openTransaction_extends h) hslots).trans hdb

theorem run_clockwork {st : BlockStep} (hst : st ≠ .updateGlobalDynamicData)
    (h : st.run env skip b db = .ok db') : db'.clockwork = db.clockwork := by
  cases st with
  | updateGlobalDynamicData => exact absurd rfl hst
  | clearExpiredTransactions =>
    cases h
    rfl
  | _ =>
    exact clockwork_of_parts (.of_eq (records_of_drift (BlockStep.run_drift rfl h)))
      (slots_of_drift (BlockStep.run_drift rfl h))

end Db

/-- What holds of the head's clock does not depend on the irreversible block. -/
theorem clockwork_keepsFinality (c : Clockwork) : KeepsFinality fun d => d.clockwork = c where
  irreversible _ _ _ hdb := hdb
  postValidations _ _ hdb := hdb

/-! ## The window of the last slots -/

/-- The count of the slots that were filled is the number of one bits of the window. -/
structure Windowed (p : DynamicGlobalPropertyObject) : Prop where
  recent : p.recentSlotsFilled < 2 ^ 128
  count : p.participationCount = oneBits 128 p.recentSlotsFilled

namespace Db

theorem testBit_top {n : Nat} (h : n < 2 ^ 128) : n.testBit 127 = decide (2 ^ 127 ≤ n) := by
  rw [Nat.testBit_eq_decide_div_mod_eq]
  congr 1
  rw [eq_iff_iff]
  omega

theorem shiftSlot_windowed (filled : Bool) {p : DynamicGlobalPropertyObject} (h : Windowed p) :
    Windowed (shiftSlot filled p) := by
  have hshift : oneBits 128 ((p.recentSlotsFilled * 2 + filled.toNat) % 2 ^ 128) +
      (p.recentSlotsFilled.testBit 127).toNat =
      oneBits 128 p.recentSlotsFilled + filled.toNat := oneBits_shift 127 p.recentSlotsFilled filled
  have holdest : (if 2 ^ 127 ≤ p.recentSlotsFilled then 1 else 0) =
      (p.recentSlotsFilled.testBit 127).toNat := by
    rw [testBit_top h.recent]
    by_cases htop : 2 ^ 127 ≤ p.recentSlotsFilled
    · rw [if_pos htop, decide_eq_true htop]
      rfl
    · rw [if_neg htop, decide_eq_false htop]
      rfl
  have hbit := Bool.toNat_le (p.recentSlotsFilled.testBit 127)
  have hle := oneBits_le 128 ((p.recentSlotsFilled * 2 + filled.toNat) % 2 ^ 128)
  have hcount : (p.participationCount + 2 ^ 8 - (p.recentSlotsFilled.testBit 127).toNat +
      filled.toNat) % 2 ^ 8 =
      oneBits 128 ((p.recentSlotsFilled * 2 + filled.toNat) % 2 ^ 128) := by
    have hold := h.count
    omega
  constructor
  · exact Nat.mod_lt _ (Nat.two_pow_pos 128)
  · rw [← holdest] at hcount
    cases filled with
    | false => exact hcount
    | true => exact hcount

variable {env : Env} {skip : Skip} {b : SignedBlock} {db db' : Db}

theorem shiftSlots_windowed (l : List Nat) {p : DynamicGlobalPropertyObject} (h : Windowed p) :
    Windowed (l.foldl (fun p _ => shiftSlot false p) p) := by
  induction l generalizing p with
  | nil => exact h
  | cons i l ih => exact ih (shiftSlot_windowed false h)

theorem advanceHead_windowed (id : BlockId) (size missed : Nat) {p : DynamicGlobalPropertyObject}
    (h : Windowed p) : Windowed (advanceHead b id size missed p) := by
  have hslots := shiftSlots_windowed (List.range missed) (shiftSlot_windowed true h)
  unfold advanceHead
  dsimp only
  split
  · exact ⟨hslots.recent, hslots.count⟩
  · exact ⟨hslots.recent, hslots.count⟩

theorem missSlot_dgp {producer : AccountName} {slotNum : Nat}
    (h : missSlot producer db slotNum = .ok db') : db'.dgp = db.dgp := by
  simp only [missSlot, bind_eq_ok] at h
  obtain ⟨w, -, h⟩ := h
  split at h
  · cases h
    rfl
  · simp only [bind_eq_ok, pure_eq_ok] at h
    obtain ⟨counted, -, rfl⟩ := h
    rfl

theorem shiftSlots_aslot (l : List Nat) (p : DynamicGlobalPropertyObject) :
    (l.foldl (fun p _ => shiftSlot false p) p).currentAslot = p.currentAslot := by
  induction l generalizing p with
  | nil => rfl
  | cons i l ih => exact ih (shiftSlot false p)

theorem advanceHead_aslot (id : BlockId) (size missed : Nat) (p : DynamicGlobalPropertyObject) :
    (advanceHead b id size missed p).currentAslot =
      (p.currentAslot + (missed + 1) % 2 ^ 32) % 2 ^ 64 := by
  have hslots := shiftSlots_aslot (List.range missed) (shiftSlot true p)
  unfold advanceHead
  dsimp only
  split
  · dsimp only
    rw [hslots]
    rfl
  · dsimp only
    rw [hslots]
    rfl

/-- How the clock moves to a block. -/
structure Moves (env : Env) (b : SignedBlock) (db db' : Db) : Prop where
  time : db'.dgp.time = b.timestamp
  number : db'.dgp.headBlockNumber = b.blockNum
  headId : db'.dgp.headBlockId = blockId env b
  window : Windowed db.dgp → Windowed db'.dgp
  aslot : ∃ missed, db.missedBlocks b = .ok missed ∧
    db'.dgp.currentAslot = (db.dgp.currentAslot + (missed + 1) % 2 ^ 32) % 2 ^ 64

theorem updateGlobalDynamicData_moves (h : db.updateGlobalDynamicData env skip b = .ok db') :
    Moves env b db db' := by
  have hcore := updateGlobalDynamicData_core h
  have htime := congrArg Core.time hcore
  have hnumber := congrArg Core.number hcore
  have hhead := congrArg Core.headId hcore
  simp only [updateGlobalDynamicData, bind_eq_ok, pure_eq_ok] at h
  obtain ⟨missed, hmissed, db₁, hmiss, _, -, rfl⟩ := h
  have hdgp : db₁.dgp = db.dgp :=
    foldlM_invariant (fun d => d.dgp = db.dgp) _ _
      (fun _ _ _ _ hd hstep => (missSlot_dgp hstep).trans hd) db db₁ rfl hmiss
  refine ⟨htime, hnumber, hhead, ?_, missed, hmissed, ?_⟩
  · intro hw
    rw [← hdgp] at hw
    exact advanceHead_windowed _ _ _ hw
  · rw [← hdgp]
    exact advanceHead_aslot _ _ _ _

theorem getSlotAtTime_of_clockwork (h : db'.clockwork = db.clockwork) (t : TimePointSec) :
    db'.getSlotAtTime t = db.getSlotAtTime t := by
  have htime : db'.headBlockTime = db.headBlockTime := congrArg Clockwork.time h
  have hnumber : db'.headBlockNum = db.headBlockNum := congrArg Clockwork.number h
  unfold getSlotAtTime getSlotTime
  rw [htime, hnumber]

theorem windowed_of_clockwork (h : db'.clockwork = db.clockwork) (hw : Windowed db.dgp) :
    Windowed db'.dgp := by
  have hrecent : db'.dgp.recentSlotsFilled = db.dgp.recentSlotsFilled := congrArg Clockwork.recent h
  have hcount : db'.dgp.participationCount = db.dgp.participationCount :=
    congrArg Clockwork.participation h
  constructor
  · rw [hrecent]
    exact hw.recent
  · rw [hrecent, hcount]
    exact hw.count

/-- The move is one of the clocks. -/
theorem Moves.congr {d d' : Db} (h : Moves env b d d') (hbefore : d.clockwork = db.clockwork)
    (hafter : db'.clockwork = d'.clockwork) : Moves env b db db' where
  time := (congrArg Clockwork.time hafter).trans h.time
  number := (congrArg Clockwork.number hafter).trans h.number
  headId := (congrArg Clockwork.headId hafter).trans h.headId
  window hw := windowed_of_clockwork hafter (h.window (windowed_of_clockwork hbefore hw))
  aslot := by
    obtain ⟨missed, hmissed, haslot⟩ := h.aslot
    have hold : d.dgp.currentAslot = db.dgp.currentAslot := congrArg Clockwork.aslot hbefore
    have hnew : db'.dgp.currentAslot = d'.dgp.currentAslot := congrArg Clockwork.aslot hafter
    have htime : d.headBlockTime = db.headBlockTime := congrArg Clockwork.time hbefore
    refine ⟨missed, ?_, ?_⟩
    · unfold missedBlocks at hmissed ⊢
      rw [← htime, ← getSlotAtTime_of_clockwork hbefore]
      exact hmissed
    · rw [hnew, haslot, hold]

end Db

namespace Store

variable {env : Env} {skip : Skip} {b : SignedBlock} {s : Store}

/-- **A block** moves the clock once, by `update_global_dynamic_data`, after its header was
checked in the state before it. -/
theorem applyBlock_moves (fuel : Nat) :
    Traced.Ensures (fun _ => True) (s.applyBlock env fuel skip b) fun t =>
      Db.validateBlockHeader env skip s.db b = .ok () ∧ Db.Moves env b s.db t.db := by
  rw [applyBlock_eq]
  refine (step_run (Q := fun d => Db.validateBlockHeader env skip s.db b = .ok () ∧
    d.clockwork = s.db.clockwork) fun d h => ?_).bind fun s₁ h₁ => ?_
  · refine ⟨?_, Db.run_clockwork (by decide) h⟩
    simp only [BlockStep.run, Db.openBlock, bind_eq_ok] at h
    obtain ⟨_, -, _, hheader, -⟩ := h
    exact hheader
  obtain ⟨hheader, hclock₁⟩ := h₁
  refine (onDb_ensures (s := s₁) (Traced.Ensures.foldlM (fun d => d.clockwork = s.db.clockwork) _
    b.transactions (fun trx _ d hd => Db.applyTransaction_framed
      (Db.clockwork_framed env s.db.clockwork) fuel skip trx hd) s₁.db hclock₁)).bind
    fun s₂ hclock₂ => ?_
  refine (step_run (Q := fun d => s₂.db.updateGlobalDynamicData env skip b = .ok d)
    fun d h => ?_).bind fun s₃ hhead => ?_
  · exact h
  refine Traced.Ensures.mono (Q := fun t : Store => t.db.clockwork = s₃.db.clockwork) ?_
    fun t ht => ⟨hheader, (Db.updateGlobalDynamicData_moves hhead).congr hclock₂ ht⟩
  refine closeBlock_keeps (clockwork_keepsFinality s₃.db.clockwork) ?_ ?_ rfl
  · intro st d d' hst hd h
    exact (Db.run_clockwork hst h).trans hd
  · intro d hd
    exact Db.clearExpiredProposals_framed (Db.clockwork_framed env s₃.db.clockwork) fuel hd

end Store

/-! ## Slot times -/

namespace Db

variable {env : Env} {skip : Skip} {b : SignedBlock} {db db' : Db}

/-- The time of a slot that begins in the range of `time_point_sec`. -/
theorem getSlotTime_eq (hnumber : db.headBlockNum ≠ 0) {slot : Nat} (hslot : 1 ≤ slot)
    (hrange : db.headBlockTime / 3 * 3 + 3 * slot < 2 ^ 32) :
    db.getSlotTime slot = db.headBlockTime / 3 * 3 + 3 * slot := by
  unfold getSlotTime blockInterval
  rw [if_neg (by omega), if_neg hnumber]
  delta TimePointSec at *
  omega

/-- The slot of a time that is not before the next slot. -/
theorem getSlotAtTime_eq (hnumber : db.headBlockNum ≠ 0) (hrange : db.headBlockTime + 3 < 2 ^ 32)
    (t : TimePointSec) : db.getSlotAtTime t = t / 3 - db.headBlockTime / 3 := by
  have hfirst : db.getSlotTime 1 = db.headBlockTime / 3 * 3 + 3 * 1 := by
    apply getSlotTime_eq hnumber (Nat.le_refl 1)
    delta TimePointSec at *
    omega
  unfold getSlotAtTime
  rw [hfirst]
  unfold blockInterval
  dsimp only
  delta TimePointSec at *
  split <;> omega

theorem getSlotAtTime_eq_iff (hnumber : db.headBlockNum ≠ 0) {t slot : Nat} (hslot : 1 ≤ slot)
    (hrange : db.headBlockTime / 3 * 3 + 3 * (slot + 1) < 2 ^ 32) :
    db.getSlotAtTime t = slot ↔ db.getSlotTime slot ≤ t ∧ t < db.getSlotTime (slot + 1) := by
  have hhead : db.headBlockTime + 3 < 2 ^ 32 := by
    delta TimePointSec at *
    omega
  have hthis : db.headBlockTime / 3 * 3 + 3 * slot < 2 ^ 32 := by
    delta TimePointSec at *
    omega
  rw [getSlotAtTime_eq hnumber hhead, getSlotTime_eq hnumber hslot hthis,
    getSlotTime_eq hnumber (by omega) hrange]
  delta TimePointSec at *
  omega

theorem getSlotAtTime_eq_zero_iff (t : TimePointSec) :
    db.getSlotAtTime t = 0 ↔ t < db.getSlotTime 1 := by
  unfold getSlotAtTime
  dsimp only
  split
  · exact iff_of_true rfl ‹_›
  · exact iff_of_false (Nat.succ_ne_zero _) ‹_›

/-! ## Ticking -/

/-- The clock of a chain whose head is in the range of `time_point_sec`. -/
structure Ticking (db : Db) : Prop where
  headId : db.dgp.headBlockId.num = db.dgp.headBlockNumber
  number : db.dgp.headBlockNumber ≤ db.dgp.time / 3 + 1
  aslot : db.dgp.currentAslot ≤ db.dgp.time / 3 + 1
  start : db.dgp.headBlockNumber = 0 → db.dgp.time = 0 ∧ db.dgp.currentAslot = 0
  running : db.dgp.headBlockNumber ≠ 0 → 0 < db.dgp.time

/-- What a block does to the slots: it comes in a later slot than the head, the absolute slot
moves on by the difference, and the block is signed by the witness that the schedule has
there. -/
structure SlotStep (b : SignedBlock) (db db' : Db) : Prop where
  later : db.headBlockTime / 3 < b.timestamp / 3
  aslot : db'.dgp.currentAslot = db.dgp.currentAslot + (b.timestamp / 3 - db.headBlockTime / 3)
  witness : b.witness = db.witnessSchedule.currentShuffledWitnesses.getD
    (db'.dgp.currentAslot % db.witnessSchedule.numScheduledWitnesses) ""

theorem getWitness_owner {name : AccountName} {w : WitnessObject}
    (h : db.getWitness name = .ok w) : w.owner = name :=
  Table.get_key ((getOrThrow_eq_ok _ _ _).1 h)

theorem validateBlockHeader_scheduled (hskip : skip.witnessScheduleCheck = false)
    (h : validateBlockHeader env skip db b = .ok ()) :
    db.headBlockId = b.previous ∧ db.headBlockTime < b.timestamp ∧
      0 < db.getSlotAtTime b.timestamp ∧
      b.witness = db.getScheduledWitness (db.getSlotAtTime b.timestamp) := by
  simp only [validateBlockHeader, bind_eq_ok, fcAssert_eq_ok, unlessSkipped, hskip,
    Bool.false_eq_true, if_false] at h
  obtain ⟨_, hprevious, _, htime, w, hw, _, -, _, hslot, hwitness⟩ := h
  refine ⟨hprevious, htime, hslot, ?_⟩
  rw [← hwitness, getWitness_owner hw]

/-- The slots that a block has skipped, once there is a head. -/
theorem missedBlocks_eq (htime : db.headBlockTime ≠ 0) {missed : Nat}
    (h : db.missedBlocks b = .ok missed) : missed + 1 = db.getSlotAtTime b.timestamp := by
  unfold missedBlocks at h
  rw [if_neg htime] at h
  simp only [fcAssert_bind_eq_ok, pure_eq_ok] at h
  omega

/-- The first block counts as one slot. -/
theorem missedBlocks_first (htime : db.headBlockTime = 0) {missed : Nat}
    (h : db.missedBlocks b = .ok missed) : missed = 0 := by
  unfold missedBlocks at h
  rw [if_pos htime] at h
  exact (Except.ok.inj h).symm

section Block

variable (hskip : skip.witnessScheduleCheck = false)
  (hheader : validateBlockHeader env skip db b = .ok ())
  (hmoves : Moves env b db db') (hrange : b.timestamp + 3 < 2 ^ 32)
include hskip hheader hmoves hrange

/-- **After the first block** a block takes a later slot. -/
theorem Ticking.slotStep (h : db.Ticking) (hnumber : db.headBlockNum ≠ 0) : SlotStep b db db' := by
  obtain ⟨-, hlater, hslot, hwitness⟩ := validateBlockHeader_scheduled hskip hheader
  obtain ⟨missed, hmissed, haslot⟩ := hmoves.aslot
  have htime : db.headBlockTime ≠ 0 := Nat.ne_of_gt (h.running hnumber)
  have hhere : db.headBlockTime + 3 < 2 ^ 32 := by
    delta TimePointSec at *
    omega
  have hmissed := missedBlocks_eq htime hmissed
  have hold := h.aslot
  rw [getSlotAtTime_eq hnumber hhere] at hslot hmissed hwitness
  have hlast : db.dgp.time = db.headBlockTime := rfl
  rw [hlast] at hold
  have hcount : db'.dgp.currentAslot =
      db.dgp.currentAslot + (b.timestamp / 3 - db.headBlockTime / 3) := by
    rw [haslot, hmissed]
    delta TimePointSec at *
    omega
  refine ⟨?_, hcount, ?_⟩
  · delta TimePointSec at *
    omega
  · have hindex : (db.dgp.currentAslot + (b.timestamp / 3 - db.headBlockTime / 3)) % 2 ^ 64 =
        db'.dgp.currentAslot := by
      rw [← hcount]
      rw [haslot]
      exact Nat.mod_eq_of_lt (Nat.mod_lt _ (Nat.two_pow_pos 64))
    rw [hwitness]
    unfold getScheduledWitness
    rw [hindex]

theorem Ticking.step (h : db.Ticking) : db'.Ticking := by
  obtain ⟨hprevious, hlater, -, -⟩ := validateBlockHeader_scheduled hskip hheader
  obtain ⟨missed, hmissed, haslot⟩ := hmoves.aslot
  have htime' := hmoves.time
  have hnumber' := hmoves.number
  have hnum : b.blockNum = (db.dgp.headBlockNumber + 1) % 2 ^ 32 := by
    rw [← h.headId]
    show (b.previous.num + 1) % 2 ^ 32 = _
    rw [← hprevious]
    rfl
  have hlast : db.dgp.time = db.headBlockTime := rfl
  have hnumber := h.number
  have hbound : db'.dgp.headBlockNumber ≤ b.timestamp / 3 + 1 ∧
      db'.dgp.headBlockNumber ≠ 0 ∧ db'.dgp.currentAslot ≤ b.timestamp / 3 + 1 := by
    by_cases hfirst : db.headBlockNum = 0
    · have hfirst' : db.dgp.headBlockNumber = 0 := hfirst
      obtain ⟨hzero, haslot₀⟩ := h.start hfirst
      rw [missedBlocks_first hzero hmissed, haslot₀] at haslot
      rw [hnumber', hnum, hfirst', haslot]
      delta TimePointSec at *
      omega
    · have hstep := h.slotStep hskip hheader hmoves hrange hfirst
      have hslot := hstep.later
      have hcount := hstep.aslot
      have hold := h.aslot
      have hsome : db.dgp.headBlockNumber ≠ 0 := hfirst
      rw [hnumber', hnum, hcount]
      rw [hlast] at hnumber hold
      delta TimePointSec at *
      omega
  refine ⟨?_, ?_, ?_, ?_, ?_⟩
  · rw [hmoves.headId, hnumber']
    rfl
  · rw [htime']
    exact hbound.1
  · rw [htime']
    exact hbound.2.2
  · intro hzero
    exact absurd hzero hbound.2.1
  · intro _
    rw [htime']
    delta TimePointSec at *
    omega

end Block

/-- What `init_genesis` sets the clock to. -/
structure AtGenesis (db : Db) : Prop where
  number : db.dgp.headBlockNumber = 0
  headId : db.dgp.headBlockId = ⟨0, 0⟩
  time : db.dgp.time = 0
  aslot : db.dgp.currentAslot = 0
  recent : db.dgp.recentSlotsFilled = 2 ^ 128 - 1
  participation : db.dgp.participationCount = 128

/-- What holds of the clock in every state of a chain. -/
structure Paced (db : Db) : Prop where
  window : Windowed db.dgp
  ticking : db.dgp.time + 3 < 2 ^ 32 → db.Ticking

theorem AtGenesis.paced (h : db.AtGenesis) : db.Paced where
  window := by
    have hall : oneBits 128 (2 ^ 128 - 1) = 128 := by
      unfold oneBits
      rw [List.countP_eq_length.2, List.length_range]
      intro i hi
      rw [List.mem_range] at hi
      rw [Nat.testBit_two_pow_sub_one]
      exact decide_eq_true hi
    constructor
    · rw [h.recent]
      exact Nat.sub_lt (Nat.two_pow_pos 128) (by omega)
    · rw [h.recent, h.participation, hall]
  ticking := by
    intro _
    refine ⟨?_, ?_, ?_, ?_, ?_⟩
    · rw [h.headId, h.number]
    · rw [h.number]
      exact Nat.zero_le _
    · rw [h.aslot]
      exact Nat.zero_le _
    · intro _
      exact ⟨h.time, h.aslot⟩
    · intro hne
      exact absurd h.number hne

/-- **A block** keeps the clock in order. -/
theorem Paced.step (h : db.Paced) (hskip : skip.witnessScheduleCheck = false)
    (hheader : validateBlockHeader env skip db b = .ok ()) (hmoves : Moves env b db db') :
    db'.Paced ∧ 0 < db'.dgp.time := by
  have hlater := (validateBlockHeader_scheduled hskip hheader).2.1
  refine ⟨⟨hmoves.window h.window, ?_⟩, ?_⟩
  · rw [hmoves.time]
    intro hrange
    have hbefore : db.dgp.time + 3 < 2 ^ 32 := Nat.lt_trans (Nat.add_lt_add_right hlater 3) hrange
    exact (h.ticking hbefore).step hskip hheader hmoves hrange
  · rw [hmoves.time]
    exact Nat.zero_lt_of_lt hlater

end Db

namespace Store

variable {env : Env} {skip : Skip} {b : SignedBlock} {s s₀ s₁ : Store}

theorem applyBlock_paced (fuel : Nat) (hskip : skip.witnessScheduleCheck = false)
    (h : s.db.Paced) :
    Traced.Ensures (fun _ => True) (s.applyBlock env fuel skip b) fun t =>
      t.db.Paced ∧ 0 < t.db.dgp.time :=
  (applyBlock_moves fuel).mono fun _ ht => h.step hskip ht.1 ht.2

theorem applyBlocks_paced (fuel : Nat) (hskip : skip.witnessScheduleCheck = false)
    (bs : List SignedBlock) (h : s.db.Paced) :
    Traced.Ensures (fun _ => True) (s.applyBlocks env fuel skip bs) fun t =>
      t.db.Paced ∧ (bs ≠ [] → 0 < t.db.dgp.time) := by
  cases bs with
  | nil => exact .pure ⟨h, fun hne => absurd rfl hne⟩
  | cons b bs =>
    unfold applyBlocks
    rw [List.foldlM_cons]
    refine (applyBlock_paced fuel hskip h).bind fun t ht => ?_
    refine (Traced.Ensures.foldlM (fun t : Store => t.db.Paced ∧ 0 < t.db.dgp.time) _ bs
      (fun b _ t ht => applyBlock_paced fuel hskip ht.1) t ht).mono ?_
    intro t' ht'
    exact ⟨ht'.1, fun _ => ht'.2⟩

/-- What holds of the slots in a state that a chain of blocks has reached, and of the next
block. -/
structure SlotsInOrder (env : Env) (fuel : Nat) (skip : Skip) (s : Store) : Prop where
  slot : ∀ t slot, 1 ≤ slot → s.db.headBlockTime / 3 * 3 + 3 * (slot + 1) < 2 ^ 32 →
    (s.db.getSlotAtTime t = slot ↔
      s.db.getSlotTime slot ≤ t ∧ t < s.db.getSlotTime (slot + 1))
  noSlot : ∀ t, s.db.getSlotAtTime t = 0 ↔ t < s.db.getSlotTime 1
  step : ∀ b n s', b.timestamp + 3 < 2 ^ 32 → (s.applyBlock env fuel skip b n).2 = .ok s' →
    Db.SlotStep b s.db s'.db

/-- **Slots.**  Along every chain of blocks that the schedule check accepts. -/
theorem chain_slots_inOrder (fuel : Nat) (hskip : skip.witnessScheduleCheck = false)
    (hstart : s₀.db.AtGenesis) (bs : List SignedBlock) (n : Nat)
    (hrun : (s₀.applyBlocks env fuel skip bs n).2 = .ok s₁) :
    (s₁.db.dgp.recentSlotsFilled < 2 ^ 128 ∧
      s₁.db.dgp.participationCount = oneBits 128 s₁.db.dgp.recentSlotsFilled) ∧
      (bs ≠ [] → SlotsInOrder env fuel skip s₁) := by
  obtain ⟨hpaced, hmoved⟩ := applyBlocks_paced fuel hskip bs hstart.paced n (fun _ _ => trivial)
    s₁ hrun
  refine ⟨⟨hpaced.window.recent, hpaced.window.count⟩, ?_⟩
  intro hne
  have hpos := hmoved hne
  have hnumber (hrange : s₁.db.dgp.time + 3 < 2 ^ 32) : s₁.db.headBlockNum ≠ 0 := by
    intro hzero
    have htime := ((hpaced.ticking hrange).start hzero).1
    rw [htime] at hpos
    exact Nat.lt_irrefl 0 hpos
  constructor
  · intro t slot hslot hrange
    refine Db.getSlotAtTime_eq_iff (hnumber ?_) hslot hrange
    show s₁.db.headBlockTime + 3 < 2 ^ 32
    delta TimePointSec at *
    omega
  · intro t
    exact Db.getSlotAtTime_eq_zero_iff t
  · intro b m s' hrange hblock
    obtain ⟨hheader, hmoves⟩ := applyBlock_moves fuel m (fun _ _ => trivial) s' hblock
    have hlater := (Db.validateBlockHeader_scheduled hskip hheader).2.1
    have hbefore : s₁.db.dgp.time + 3 < 2 ^ 32 :=
      Nat.lt_trans (Nat.add_lt_add_right hlater 3) hrange
    exact (hpaced.ticking hbefore).slotStep hskip hheader hmoves hrange (hnumber hbefore)

/-- A node before its first block. -/
def genesisStore : Store :=
  { smallStore [] with
    db := { (smallStore []).db with
      dgp := { (smallStore []).db.dgp with
        headBlockNumber := 0, headBlockId := ⟨0, 0⟩, time := 0
        recentSlotsFilled := 2 ^ 128 - 1, participationCount := 128 }
      blockSummaries := ⟨[⟨1, ⟨0, 0⟩⟩], 65536⟩ } }

def firstBlock : SignedBlock where
  previous := ⟨0, 0⟩
  timestamp := 3
  witness := "alice"
  transactionMerkleRoot := 1
  extensions := []
  witnessSignature := 7
  transactions := []

/-- The same with a second witness, who does not make blocks. -/
def idleStore : Store :=
  { genesisStore with
    db := { genesisStore.db with
      witnesses := ⟨[{ id := 0, owner := "alice", signingKey := 7 },
        { id := 1, owner := "bob", signingKey := 8 }], 2⟩
      witnessSchedule := { genesisStore.db.witnessSchedule with
        currentShuffledWitnesses := ["bob", "alice"], numScheduledWitnesses := 2 }
      blockSummaries := ⟨[⟨1, ⟨0, 0⟩⟩, ⟨2, ⟨0, 0⟩⟩], 65536⟩ } }

/-- alice's first two blocks, with a slot of bob's between them. -/
def aliceBlocks : List SignedBlock :=
  [{ firstBlock with timestamp := 6 }, { firstBlock with previous := ⟨1, 6⟩, timestamp := 12 }]

theorem aliceBlocks_slots_inOrder :
    ∃ s, (idleStore.applyBlocks smallEnv 1 { merkleCheck := true } aliceBlocks 0).2 = .ok s ∧
      oneBits 128 s.db.dgp.recentSlotsFilled = 127 ∧ s.db.dgp.participationCount = 127 ∧
      SlotsInOrder smallEnv 1 { merkleCheck := true } s := by
  have hrun : returns (idleStore.applyBlocks smallEnv 1 { merkleCheck := true } aliceBlocks 0).2
      (fun s => decide (s.db.dgp.participationCount = 127)) = true := by decide +kernel
  obtain ⟨s, hs, hcount⟩ := returns_eq_true hrun
  have hgenesis : idleStore.db.AtGenesis := ⟨rfl, rfl, rfl, rfl, rfl, rfl⟩
  obtain ⟨⟨-, hones⟩, hslots⟩ := chain_slots_inOrder 1 rfl hgenesis aliceBlocks 0 hs
  have hcount := of_decide_eq_true hcount
  exact ⟨s, hs, hones.symm.trans hcount, hcount, hslots (by simp [aliceBlocks])⟩

end Store

end VizCore.Chain
