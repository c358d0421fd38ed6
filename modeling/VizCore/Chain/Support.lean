import VizCore.Lib.Median
import VizCore.Chain.Capacity

/-!
# What makes a block irreversible

A witness that signs three times without missing a slot supports the block that it signed last,
and a block is irreversible when enough of the scheduled witnesses support it or a later one.

* `irreversibleCandidate_isGreatest`: the threshold that `update_last_irreversible_block` applies;
* `signedThrice_of_runOf`: what a run of two blocks says about the chain;
* `irreversible_support`: the threshold, and what supports it in every state of a chain.
-/

namespace VizCore.Chain

open VizCore.Lib VizCore.Protocol

/-! ## Runs of blocks -/

/-- A block of a chain and the witnesses that missed their slots before it. -/
structure Signing where
  block : SignedBlock
  missed : List AccountName

/-- How many blocks the witness has signed since it missed a slot; the newest comes first. -/
def runOf (name : AccountName) : List Signing → Nat
  | [] => 0
  | r :: older =>
    let kept := if name ∈ r.missed then 0 else runOf name older
    if r.block.witness = name then kept + 1 else kept

/-- The witness signed block `v` after it had signed two others, and missed no slot between the
first of the three and the last. -/
def SignedThrice (name : AccountName) (l : List Signing) (v : Nat) : Prop :=
  ∃ later third between second before first older,
    l = later ++ third :: (between ++ second :: (before ++ first :: older)) ∧
      third.block.witness = name ∧ second.block.witness = name ∧ first.block.witness = name ∧
      third.block.blockNum = v ∧ ∀ r ∈ third :: (between ++ second :: before), name ∉ r.missed

variable {name : AccountName} {l : List Signing} {r : Signing} {v : Nat}

theorem SignedThrice.cons (h : SignedThrice name l v) (r : Signing) :
    SignedThrice name (r :: l) v := by
  obtain ⟨later, third, between, second, before, first, older, heq, hsigned⟩ := h
  refine ⟨r :: later, third, between, second, before, first, older, ?_, hsigned⟩
  rw [heq]
  rfl

/-- The last block of a run. -/
theorem exists_of_runOf {k : Nat} (h : k + 1 ≤ runOf name l) :
    ∃ later r older, l = later ++ r :: older ∧ r.block.witness = name ∧
      (∀ s ∈ later, name ∉ s.missed) ∧ k ≤ runOf name older ∧ (0 < k → name ∉ r.missed) := by
  induction l with
  | nil => exact absurd h (Nat.not_succ_le_zero k)
  | cons r older ih =>
    simp only [runOf] at h
    by_cases hsigned : r.block.witness = name
    · rw [if_pos hsigned] at h
      refine ⟨[], r, older, rfl, hsigned, fun _ hs => absurd hs List.not_mem_nil, ?_, ?_⟩
      · split at h
        · omega
        · omega
      · intro hpos hmissed
        rw [if_pos hmissed] at h
        omega
    · rw [if_neg hsigned] at h
      have hkept : name ∉ r.missed := by
        intro hmissed
        rw [if_pos hmissed] at h
        omega
      rw [if_neg hkept] at h
      obtain ⟨later, s, rest, heq, hwitness, hlater, hrun⟩ := ih h
      refine ⟨r :: later, s, rest, ?_, hwitness, ?_, hrun⟩
      · rw [heq]
        rfl
      · intro s hs
        rcases List.mem_cons.1 hs with rfl | hs
        · exact hkept
        · exact hlater s hs

/-- **A third block** of a run of two. -/
theorem signedThrice_of_runOf (hsigned : r.block.witness = name) (hkept : name ∉ r.missed)
    (hrun : 2 ≤ runOf name l) : SignedThrice name (r :: l) r.block.blockNum := by
  obtain ⟨between, second, older, heq, hsecond, hbetween, hrest, hpos⟩ := exists_of_runOf hrun
  obtain ⟨before, first, oldest, heq', hfirst, hbefore, -, -⟩ := exists_of_runOf hrest
  refine ⟨[], r, between, second, before, first, oldest, ?_, hsigned, hsecond, hfirst, rfl, ?_⟩
  · rw [heq, heq']
    rfl
  · intro s hs
    simp only [List.mem_cons, List.mem_append] at hs
    rcases hs with rfl | hs | rfl | hs
    · exact hkept
    · exact hbetween s hs
    · exact hpos Nat.one_pos
    · exact hbefore s hs

/-! ## What the witnesses' objects say -/

/-- Every witness has a run of at most `k` blocks and supports a block with `P`. -/
def Bounds (t : Table SupportRow) (k : AccountName → Nat) (P : AccountName → Nat → Prop) : Prop :=
  ∀ name w, t.get (·.owner) name = some w → w.run ≤ k name ∧ P name w.supported

/-- The runs and the supported blocks are those of the chain. -/
def Vouched (l : List Signing) (t : Table SupportRow) : Prop :=
  Bounds t (fun name => runOf name l) fun name v => v = 0 ∨ SignedThrice name l v

/-- The witness missed a slot. -/
def SupportRow.missed (w : SupportRow) : SupportRow := { w with run := 0 }

/-- The witness signed block `num`. -/
def SupportRow.signed (num : Nat) (w : SupportRow) : SupportRow :=
  { w with
    run := w.run + 1
    supported := if irreversibleSupportMinRun ≤ w.run then num else w.supported }

variable {t : Table SupportRow} {k : AccountName → Nat} {P : AccountName → Nat → Prop}

/-- A missed slot ends the run. -/
theorem Bounds.missed (h : Bounds t k P) (name : AccountName) :
    Bounds (t.update (·.owner) name SupportRow.missed)
      (fun other => if other = name then 0 else k other) P := by
  intro other w hw
  by_cases hname : other = name
  · subst hname
    rw [Table.get_update_same t (·.owner) other SupportRow.missed fun _ => rfl] at hw
    obtain ⟨x, hx, rfl⟩ := Option.map_eq_some_iff.1 hw
    exact ⟨Nat.zero_le _, (h other x hx).2⟩
  · rw [Table.get_update_ne t (·.owner) SupportRow.missed hname fun _ => rfl] at hw
    dsimp only
    rw [if_neg hname]
    exact h other w hw

/-- A new witness has signed nothing. -/
theorem Bounds.create (h : Bounds t k P) (hzero : ∀ name, P name 0) {owner : AccountName}
    (hnew : t.get (·.owner) owner = none) :
    Bounds (t.create fun id => .fresh id owner) k P := by
  intro name w hw
  by_cases hname : name = owner
  · subst hname
    rw [Table.get_create_same hnew rfl] at hw
    cases hw
    exact ⟨Nat.zero_le _, hzero name⟩
  · have hne : (SupportRow.fresh t.nextId owner).owner ≠ name := fun heq => hname heq.symm
    rw [Table.get_create_ne t (·.owner) hne] at hw
    exact h name w hw

/-- **A block**: the missed slots end their runs, and the signature goes on with the run of the
witness. -/
theorem Vouched.next {b : SignedBlock} {missed : List AccountName}
    (h : Bounds t (fun name => if name ∈ missed then 0 else runOf name l)
      fun name v => v = 0 ∨ SignedThrice name l v) :
    Vouched (⟨b, missed⟩ :: l) (t.update (·.owner) b.witness (SupportRow.signed b.blockNum)) := by
  intro name w hw
  dsimp only [runOf]
  by_cases hname : name = b.witness
  · subst hname
    rw [Table.get_update_same t (·.owner) b.witness (SupportRow.signed b.blockNum) fun _ => rfl]
      at hw
    obtain ⟨x, hx, rfl⟩ := Option.map_eq_some_iff.1 hw
    obtain ⟨hrun, hsupported⟩ := h b.witness x hx
    dsimp only at hrun hsupported
    rw [if_pos rfl]
    refine ⟨Nat.succ_le_succ hrun, ?_⟩
    have hvalue : (SupportRow.signed b.blockNum x).supported =
      if irreversibleSupportMinRun ≤ x.run then b.blockNum else x.supported := rfl
    rw [hvalue]
    split
    · rename_i hlong
      have hlong : 2 ≤ x.run := hlong
      have hkept : b.witness ∉ missed := by
        intro hmissed
        rw [if_pos hmissed] at hrun
        omega
      rw [if_neg hkept] at hrun
      exact Or.inr (signedThrice_of_runOf (r := ⟨b, missed⟩) rfl hkept (hlong.trans hrun))
    · exact hsupported.imp_right fun hthrice => hthrice.cons _
  · rw [Table.get_update_ne t (·.owner) (SupportRow.signed b.blockNum) hname fun _ => rfl] at hw
    obtain ⟨hrun, hsupported⟩ := h name w hw
    rw [if_neg fun heq => hname heq.symm]
    exact ⟨hrun, hsupported.imp_right fun hthrice => hthrice.cons _⟩

namespace Db

variable {env : Env} {skip : Skip} {b : SignedBlock} {db db' : Db}

def supportRows (db : Db) : Table SupportRow := db.core.supports

/-- The witnesses whose slots a block skips. -/
def missedNames (db : Db) (b : SignedBlock) : List AccountName :=
  match db.missedBlocks b with
  | .ok missed => ((List.range missed).map (· + 1)).map db.getScheduledWitness
  | .error _ => []

theorem supportRows_modifyWitness (db : Db) (name : AccountName) (f : WitnessObject → WitnessObject)
    (φ : SupportRow → SupportRow) (h : ∀ w, (f w).support = φ w.support) :
    (db.modifyWitness name f).supportRows = db.supportRows.update (·.owner) name φ :=
  Table.image_update db.witnesses WitnessObject.support (·.owner) name f φ h

/-- What decides whose slot is next. -/
def turnOrder (db : Db) : Nat × List AccountName × Nat := (db.dgp.currentAslot, db.core.seats)

theorem getScheduledWitness_of_turnOrder (h : db'.turnOrder = db.turnOrder) (slot : Nat) :
    db'.getScheduledWitness slot = db.getScheduledWitness slot := by
  have haslot : db'.dgp.currentAslot = db.dgp.currentAslot := congrArg Prod.fst h
  have hnames : db'.witnessSchedule.currentShuffledWitnesses =
    db.witnessSchedule.currentShuffledWitnesses := congrArg (fun x => x.2.1) h
  have hcount : db'.witnessSchedule.numScheduledWitnesses =
    db.witnessSchedule.numScheduledWitnesses := congrArg (fun x => x.2.2) h
  unfold getScheduledWitness
  rw [haslot, hnames, hcount]

theorem missSlot_supportRows {producer : AccountName} {slot : Nat}
    (h : missSlot producer db slot = .ok db') :
    db'.supportRows = db.supportRows.update (·.owner) (db.getScheduledWitness slot) SupportRow.missed ∧
      db'.turnOrder = db.turnOrder := by
  simp only [missSlot, bind_eq_ok] at h
  obtain ⟨w, -, h⟩ := h
  split at h
  · rw [pure_eq_ok] at h
    rw [← h]
    exact ⟨supportRows_modifyWitness db _ _ SupportRow.missed fun _ => rfl, rfl⟩
  · simp only [bind_eq_ok, pure_eq_ok] at h
    obtain ⟨counted, -, rfl⟩ := h
    exact ⟨supportRows_modifyWitness db _ _ SupportRow.missed fun _ => rfl, rfl⟩

/-- **Missed slots** end the runs of their witnesses. -/
theorem missSlots_bounds {producer : AccountName} {slots : List Nat} {k : AccountName → Nat}
    {P : AccountName → Nat → Prop} (h : slots.foldlM (missSlot producer) db = .ok db')
    (hdb : Bounds db.supportRows k P) :
    Bounds db'.supportRows
      (fun name => if name ∈ slots.map db.getScheduledWitness then 0 else k name) P := by
  induction slots generalizing db k with
  | nil =>
    cases h
    exact hdb
  | cons slot slots ih =>
    rw [List.foldlM_cons, bind_eq_ok] at h
    obtain ⟨db₁, hslot, hrest⟩ := h
    obtain ⟨hsupports, horder⟩ := missSlot_supportRows hslot
    have hdb₁ : Bounds db₁.supportRows
        (fun name => if name = db.getScheduledWitness slot then 0 else k name) P := by
      rw [hsupports]
      exact hdb.missed (db.getScheduledWitness slot)
    have hnames : slots.map db₁.getScheduledWitness = slots.map db.getScheduledWitness :=
      List.map_congr_left fun slot _ => getScheduledWitness_of_turnOrder horder slot
    have hall := ih hrest hdb₁
    rw [hnames] at hall
    intro name w hw
    obtain ⟨hrun, hP⟩ := hall name w hw
    refine ⟨?_, hP⟩
    dsimp only at hrun ⊢
    rw [List.map_cons]
    by_cases hname : name = db.getScheduledWitness slot
    · rw [if_pos hname, ite_self] at hrun
      exact hrun.trans (Nat.zero_le _)
    · rw [if_neg hname] at hrun
      simp only [List.mem_cons, hname, false_or]
      exact hrun

theorem updateGlobalDynamicData_bounds {k : AccountName → Nat} {P : AccountName → Nat → Prop}
    (h : db.updateGlobalDynamicData env skip b = .ok db') (hdb : Bounds db.supportRows k P) :
    Bounds db'.supportRows (fun name => if name ∈ db.missedNames b then 0 else k name) P := by
  simp only [updateGlobalDynamicData, bind_eq_ok, pure_eq_ok] at h
  obtain ⟨missed, hmissed, db₁, hmiss, _, -, rfl⟩ := h
  have hnames : db.missedNames b =
      ((List.range missed).map (· + 1)).map db.getScheduledWitness := by
    unfold missedNames
    rw [hmissed]
  have hall := missSlots_bounds hmiss hdb
  rw [hnames]
  exact hall

theorem updateSigningWitness_supportRows (db : Db) (b : SignedBlock) :
    (db.updateSigningWitness b).supportRows =
      db.supportRows.update (·.owner) b.witness (SupportRow.signed b.blockNum) :=
  supportRows_modifyWitness db b.witness _ _ fun _ => rfl

/-! ## What leaves the runs alone -/

theorem findWitness_support (db : Db) (name : AccountName) :
    db.supportRows.get (·.owner) name = (db.findWitness name).map WitnessObject.support :=
  Table.get_image db.witnesses WitnessObject.support (·.owner) name

/-- New witnesses keep the bounds, and nothing else of a drift matters. -/
theorem bounds_of_drift {g : Prop} {k : AccountName → Nat} {P : AccountName → Nat → Prop}
    (hzero : ∀ name, P name 0) (h : Drift .supports g db db') (hdb : Bounds db.supportRows k P) :
    Bounds db'.supportRows k P := by
  refine h.invariant (I := fun d => Bounds d.supportRows k P) (fun d d' hglide hd => ?_) hdb
  cases hglide with
  | same h =>
    have hsame : d'.supportRows = d.supportRows := congrArg Aspect.View.rest h
    rw [hsame]
    exact hd
  | register name recovery memo auth hauth hnew h =>
    have hsame : d'.supportRows = d.supportRows := congrArg Aspect.View.rest h
    rw [hsame]
    exact hd
  | declare owner hnew h =>
    have hrows : d'.supportRows = d.supportRows.create fun id => .fresh id owner :=
      congrArg Aspect.View.rest h
    rw [hrows]
    apply hd.create hzero
    rw [findWitness_support, hnew]
    rfl
  | vest name tokens ok h =>
    have hsame : d'.supportRows = d.supportRows :=
      congrArg Aspect.View.rest (createVesting_view (x := .supports) rfl h)
    rw [hsame]
    exact hd

theorem bounds_framed (env : Env) (k : AccountName → Nat) {P : AccountName → Nat → Prop}
    (hzero : ∀ name, P name 0) : Framed env fun d => Bounds d.supportRows k P where
  evaluate clock db op db' hdb h := by
    refine bounds_of_drift hzero (evaluate_drift ?_ h) hdb
    cases op <;> rfl
  proposals db t r hdb := hdb
  opened skip db trx db' hdb h := by
    have hsame : db'.supportRows = db.supportRows :=
      congrArg Aspect.View.rest (openTransaction_view (x := .supports) (by decide) h)
    rw [hsame]
    exact hdb

theorem run_bounds {k : AccountName → Nat} {P : AccountName → Nat → Prop} {st : BlockStep}
    (hzero : ∀ name, P name 0) (hst : st ≠ .updateGlobalDynamicData)
    (hst' : st ≠ .updateSigningWitness) (hdb : Bounds db.supportRows k P)
    (h : st.run env skip b db = .ok db') : Bounds db'.supportRows k P := by
  cases st with
  | updateGlobalDynamicData => exact absurd rfl hst
  | updateSigningWitness => exact absurd rfl hst'
  | _ => exact bounds_of_drift hzero (BlockStep.run_drift rfl h) hdb

/-- Before the head moves, the slots and the schedule stay as they are. -/
theorem turnOrder_framed (env : Env) (o : Nat × List AccountName × Nat) :
    Framed env fun d => d.turnOrder = o where
  evaluate clock db op db' hdb h := by
    have hslots : db'.slots = db.slots := by
      refine slots_of_drift (evaluate_drift ?_ h)
      cases op <;> rfl
    have hseats : (db'.view .seats).rest = (db.view .seats).rest := by
      refine Drift.rest (evaluate_drift (x := .seats) ?_ h) rfl (fun _ _ _ _ _ => rfl)
        fun _ _ => rfl
      cases op <;> rfl
    have hsame : db'.turnOrder = db.turnOrder :=
      Prod.ext (congrArg SlotRest.aslot hslots) hseats
    exact hsame.trans hdb
  proposals db t r hdb := hdb
  opened skip db trx db' hdb h := by
    have hslots : db'.slots = db.slots :=
      congrArg Aspect.View.rest (openTransaction_view (x := .slots) (by decide) h)
    have hseats : (db'.view .seats).rest = (db.view .seats).rest :=
      congrArg Aspect.View.rest (openTransaction_view (x := .seats) (by decide) h)
    have hsame : db'.turnOrder = db.turnOrder :=
      Prod.ext (congrArg SlotRest.aslot hslots) hseats
    exact hsame.trans hdb

theorem missedNames_of_same (hclock : db'.clockwork = db.clockwork)
    (horder : db'.turnOrder = db.turnOrder) : db'.missedNames b = db.missedNames b := by
  have htime : db'.headBlockTime = db.headBlockTime := congrArg Clockwork.time hclock
  have hmissed : db'.missedBlocks b = db.missedBlocks b := by
    unfold missedBlocks
    rw [htime, getSlotAtTime_of_clockwork hclock]
  unfold missedNames
  rw [hmissed]
  cases db.missedBlocks b with
  | error e => rfl
  | ok missed =>
    exact List.map_congr_left fun slot _ => getScheduledWitness_of_turnOrder horder slot

end Db

/-- What holds of the runs does not depend on the irreversible block. -/
theorem bounds_keepsFinality (k : AccountName → Nat) (P : AccountName → Nat → Prop) :
    KeepsFinality fun d => Bounds d.supportRows k P where
  irreversible _ _ _ hdb := hdb
  postValidations _ _ hdb := hdb

namespace Store

variable {env : Env} {skip : Skip} {b : SignedBlock} {s s₀ : Store} {l : List Signing}

/-- **A block** goes on with the runs: the slots that it skips are those of the state before it. -/
theorem applyBlock_vouched (fuel : Nat) (h : Vouched l s.db.supportRows) :
    Traced.Ensures (fun _ => True) (s.applyBlock env fuel skip b) fun t =>
      Vouched (⟨b, s.db.missedNames b⟩ :: l) t.db.supportRows := by
  let kept : Db → Prop := fun d =>
    d.clockwork = s.db.clockwork ∧ d.turnOrder = s.db.turnOrder ∧ Vouched l d.supportRows
  have hzero : ∀ name, (fun name v => v = 0 ∨ SignedThrice name l v) name 0 :=
    fun _ => Or.inl rfl
  have hzero' : ∀ name, (fun name v => v = 0 ∨
      SignedThrice name (⟨b, s.db.missedNames b⟩ :: l) v) name 0 := fun _ => Or.inl rfl
  have hkept : Db.Framed env kept :=
    { evaluate := fun clock db op db' hdb h =>
        ⟨(Db.clockwork_framed env _).evaluate clock db op db' hdb.1 h,
          (Db.turnOrder_framed env _).evaluate clock db op db' hdb.2.1 h,
          (Db.bounds_framed env _ hzero).evaluate clock db op db' hdb.2.2 h⟩
      proposals := fun db t r hdb => hdb
      opened := fun skip db trx db' hdb h =>
        ⟨(Db.clockwork_framed env _).opened skip db trx db' hdb.1 h,
          (Db.turnOrder_framed env _).opened skip db trx db' hdb.2.1 h,
          (Db.bounds_framed env _ hzero).opened skip db trx db' hdb.2.2 h⟩ }
  rw [applyBlock_eq]
  refine (step_run (Q := kept) fun d hopen => ?_).bind fun s₁ h₁ => ?_
  · have hslots : d.slots = s.db.slots := Db.slots_of_drift (BlockStep.run_drift rfl hopen)
    have hseats : (d.view .seats).rest = (s.db.view .seats).rest :=
      Drift.rest (BlockStep.run_drift (x := .seats) rfl hopen) rfl (fun _ _ _ _ _ => rfl)
        fun _ _ => rfl
    exact ⟨Db.run_clockwork (by decide) hopen, Prod.ext (congrArg SlotRest.aslot hslots) hseats,
      Db.run_bounds hzero (by decide) (by decide) h hopen⟩
  refine (onDb_ensures (s := s₁) (Traced.Ensures.foldlM kept _ b.transactions
    (fun trx _ d hd => Db.applyTransaction_framed hkept fuel skip trx hd) s₁.db h₁)).bind
    fun s₂ h₂ => ?_
  obtain ⟨hclock, horder, hruns⟩ := h₂
  refine (step_run (Q := fun d => s₂.db.updateGlobalDynamicData env skip b = .ok d)
    fun d h => ?_).bind fun s₃ hhead => ?_
  · exact h
  have hmissed := Db.updateGlobalDynamicData_bounds hhead hruns
  rw [Db.missedNames_of_same hclock horder] at hmissed
  refine closeBlock_signed (J := fun d => Bounds d.supportRows
      (fun name => if name ∈ s.db.missedNames b then 0 else runOf name l)
      fun name v => v = 0 ∨ SignedThrice name l v)
    (I := fun d => Vouched (⟨b, s.db.missedNames b⟩ :: l) d.supportRows)
    (bounds_keepsFinality _ _) ?_ ?_ ?_ hmissed
  · intro d hd
    rw [Db.updateSigningWitness_supportRows]
    exact Vouched.next hd
  · intro st d d' hst hst' hd hrun
    exact Db.run_bounds hzero' hst hst' hd hrun
  · intro d hd
    exact Db.clearExpiredProposals_framed (Db.bounds_framed env _ hzero') fuel hd

end Store

/-! ## The threshold -/

namespace Store

variable {env : Env} {skip : Skip} {s : Store}

/-- **The candidate** is the greatest number that enough of the scheduled witnesses support. -/
theorem irreversibleCandidate_isGreatest {db : Db} {scheduled : List WitnessObject}
    (hscheduled : db.scheduledNames.mapM db.getWitness = .ok scheduled) (hne : scheduled ≠ [])
    (hrange : ∀ w ∈ scheduled, w.lastSupportedBlockNum < 2 ^ 32) :
    ∃ v, irreversibleCandidate db = .ok v ∧
      IsGreatest {v | scheduled.length - scheduled.length * 25 / 100 ≤
        scheduled.countP fun w => decide (v ≤ w.lastSupportedBlockNum)} v := by
  let values := scheduled.map (·.lastSupportedBlockNum)
  let offset := (percent100 - irreversibleThreshold) * scheduled.length / percent100
  have hoffset : offset = scheduled.length * 25 / 100 := by
    show (10000 - 7500) * scheduled.length / 10000 = _
    omega
  have hpos : 0 < scheduled.length := List.length_pos_iff.2 hne
  have hlt : offset < values.length := by
    rw [hoffset, List.length_map]
    omega
  obtain ⟨v, hv, hget, hrank⟩ :=
    (nthElement_orderBy (StrictWeakOrder.key fun v : Nat => v) offset values).isRank hlt
  obtain ⟨w, hw, rfl⟩ := List.mem_map.1 hv
  refine ⟨w.lastSupportedBlockNum, ?_, ?_⟩
  · simp only [irreversibleCandidate, bind_eq_ok, getOrThrow_eq_ok, pure_eq_ok]
    exact ⟨scheduled, hscheduled, w.lastSupportedBlockNum, hget, Nat.mod_eq_of_lt (hrange w hw)⟩
  · have hgreatest := (IsRank.of_map hrank).isGreatest
    rw [hoffset] at hgreatest
    exact hgreatest

theorem appendMain_ends (num : Nat) :
    Ends (fun e => e.2.db = s.db) (fun s' => s'.db = s.db) (s.appendMain num) := by
  unfold appendMain
  refine (lift_ends (P := fun t => t.db = s.db) rfl _).bind fun item _ => ?_
  unfold appendLog
  exact (lift_ends (P := fun t => t.db = s.db) rfl _).bind fun _ _ => rfl

theorem appendMains_ends (nums : List Nat) :
    Ends (fun e => e.2.db = s.db) (fun s' => s'.db = s.db) (nums.foldlM appendMain s) := by
  induction nums generalizing s with
  | nil => rfl
  | cons num nums ih =>
    rw [List.foldlM_cons]
    refine (appendMain_ends num).bind fun s₁ h₁ => ?_
    have hrest := ih (s := s₁)
    rw [h₁] at hrest
    exact hrest

/-- The log does not change the database, whether or not it can be written. -/
theorem writeLogUnless_ends (skip : Bool) :
    Ends (fun e => e.2.db = s.db) (fun s' => s'.db = s.db) (s.writeLogUnless skip) := by
  unfold writeLogUnless
  split
  · rfl
  · exact appendMains_ends _

/-- **The irreversible block** moves to the candidate if it is later, also where the log cannot
be written. -/
theorem updateLastIrreversibleBlock_ends {v : Nat} (hv : irreversibleCandidate s.db = .ok v) :
    Ends (fun e => e.2.irreversible = max s.irreversible v)
      (fun s' => s'.irreversible = max s.irreversible v)
      (s.updateLastIrreversibleBlock env skip) := by
  have hset : (if s.db.dgp.lastIrreversibleBlockNum < v then s.setIrreversible v
      else s).irreversible = max s.irreversible v := by
    unfold irreversible
    split
    · rename_i hlater
      exact (max_eq_right hlater.le).symm
    · rename_i hlater
      exact (max_eq_left (Nat.le_of_not_lt hlater)).symm
  have hcandidate : s.lift (irreversibleCandidate s.db) = .ok v := lift_eq_ok.2 hv
  unfold updateLastIrreversibleBlock
  rw [hcandidate]
  dsimp only [bind, Except.bind]
  generalize (if s.db.dgp.lastIrreversibleBlockNum < v then s.setIrreversible v else s) = s₁
    at hset ⊢
  have hlog := writeLogUnless_ends (s := s₁.commit s₁.db.dgp.lastIrreversibleBlockNum) skip.blockLog
  cases hrun : (s₁.commit s₁.db.dgp.lastIrreversibleBlockNum).writeLogUnless skip.blockLog with
  | error e =>
    have hdb : e.2.db = s₁.db := hlog.of_error hrun
    show e.2.db.dgp.lastIrreversibleBlockNum = _
    rw [hdb]
    exact hset
  | ok s₂ =>
    have hdb : s₂.db = s₁.db := hlog.of_ok hrun
    have hsame : s₂.irreversible = max s.irreversible v := by
      show s₂.db.dgp.lastIrreversibleBlockNum = _
      rw [hdb]
      exact hset
    obtain ⟨id, hid⟩ := readIrreversibleId_eq env s₂
    show (if v = s₂.db.dgp.lastIrreversibleBlockNum then s₂.readIrreversibleId env
      else s₂).shrinkForkDb.irreversible = _
    split
    · rw [hid]
      exact hsame
    · exact hsame

end Store

/-! ## Along a chain -/

/-- The blocks of a chain, the newest first, each with the witnesses whose slots it skipped in the
state before it. -/
inductive Signings (env : Env) (fuel : Nat) (db₀ : Db) : List SignedBlock → List Signing → Db → Prop
  | start : Signings env fuel db₀ [] [] db₀
  | next {chain : List SignedBlock} {l : List Signing} {s s' : Store} (b : SignedBlock) (n : Nat)
      (hs : Signings env fuel db₀ chain l s.db)
      (h : (s.applyBlock env fuel {} b n).2 = .ok s') :
      Signings env fuel db₀ (chain ++ [b]) (⟨b, s.db.missedNames b⟩ :: l) s'.db

theorem Signings.blocks {env : Env} {fuel : Nat} {db₀ db : Db} {chain : List SignedBlock}
    {l : List Signing} (h : Signings env fuel db₀ chain l db) : l.map (·.block) = chain.reverse := by
  induction h with
  | start => rfl
  | next b n _ _ ih =>
    rw [List.map_cons, ih, List.reverse_append]
    rfl

/-- No witness has signed a block. -/
def Db.Unsigned (db : Db) : Prop :=
  ∀ name w, db.findWitness name = some w → w.currentRun = 0 ∧ w.lastSupportedBlockNum = 0

theorem Db.Unsigned.vouched {db : Db} (h : db.Unsigned) : Vouched [] db.supportRows := by
  intro name row hrow
  rw [Db.findWitness_support, Option.map_eq_some_iff] at hrow
  obtain ⟨w, hw, rfl⟩ := hrow
  obtain ⟨hrun, hsupported⟩ := h name w hw
  exact ⟨hrun.le, Or.inl hsupported⟩

theorem Vouched.witness {db : Db} {l : List Signing} {name : AccountName} {w : WitnessObject}
    (h : Vouched l db.supportRows) (hw : db.findWitness name = some w) :
    w.lastSupportedBlockNum = 0 ∨ SignedThrice name l w.lastSupportedBlockNum := by
  refine (h name w.support ?_).2
  rw [Db.findWitness_support, hw]
  rfl

theorem Branch.vouched {env : Env} {fuel : Nat} {s₀ s : Store} {chain : List SignedBlock}
    (hempty : s₀.undoStack = []) (hstart : s₀.db.Unsigned) (h : Branch env fuel s₀ s chain) :
    ∃ l, Signings env fuel s₀.db chain l s.db ∧ Vouched l s.db.supportRows := by
  refine (h.aligned (P := fun chain db => ∃ l, Signings env fuel s₀.db chain l db ∧
    Vouched l db.supportRows) hempty ⟨[], .start, hstart.vouched⟩ ?_).1
  rintro t t' chain b n ⟨l, hsignings, hvouched⟩ hrun
  exact ⟨_, .next b n hsignings hrun,
    Store.applyBlock_vouched fuel hvouched n (fun _ _ => trivial) t' hrun⟩

/-- **Irreversibility.**  The irreversible block moves to the greatest number that enough of the
scheduled witnesses support.  However blocks are applied and undone and whatever transactions
wait on top of them, a witness supports no block, or one of the chain in effect that it signed
after two others without missing a slot in between. -/
theorem irreversible_support (env : Env) (fuel : Nat) :
    (∀ (s : Store) (skip : Skip) (scheduled : List WitnessObject),
      s.db.scheduledNames.mapM s.db.getWitness = .ok scheduled → scheduled ≠ [] →
      (∀ w ∈ scheduled, w.lastSupportedBlockNum < 2 ^ 32) →
      ∃ v, IsGreatest {v | scheduled.length - scheduled.length * 25 / 100 ≤
          scheduled.countP fun w => decide (v ≤ w.lastSupportedBlockNum)} v ∧
        Ends (fun e => e.2.irreversible = max s.irreversible v)
          (fun s' => s'.irreversible = max s.irreversible v)
          (s.updateLastIrreversibleBlock env skip)) ∧
      ∀ (s₀ s : Store) (chain : List SignedBlock), s₀.undoStack = [] → s₀.db.Unsigned →
        Branch env fuel s₀ s chain →
        ∃ l, Signings env fuel s₀.db chain l s.db ∧ l.map (·.block) = chain.reverse ∧
          ∀ (skip : Skip) (trxs : List SignedTransaction) (n : Nat) (db' : Db),
            (trxs.foldlM (Db.applyTransaction env fuel skip) s.db n).2 = .ok db' →
            ∀ name w, db'.findWitness name = some w →
              w.lastSupportedBlockNum = 0 ∨ SignedThrice name l w.lastSupportedBlockNum := by
  constructor
  · intro s skip scheduled hscheduled hne hrange
    obtain ⟨v, hv, hgreatest⟩ := Store.irreversibleCandidate_isGreatest hscheduled hne hrange
    exact ⟨v, hgreatest, Store.updateLastIrreversibleBlock_ends hv⟩
  · intro s₀ s chain hempty hstart hbranch
    obtain ⟨l, hsignings, hvouched⟩ := hbranch.vouched hempty hstart
    refine ⟨l, hsignings, hsignings.blocks, ?_⟩
    intro skip trxs n db' hrun name w hw
    have hpending : Traced.Ensures (fun _ => True)
        (trxs.foldlM (Db.applyTransaction env fuel skip) s.db) fun d => Vouched l d.supportRows :=
      Traced.Ensures.foldlM (fun d : Db => Vouched l d.supportRows) _ trxs
        (fun trx _ d hd => Db.applyTransaction_framed
          (Db.bounds_framed env _ fun _ => Or.inl rfl) fuel skip trx hd) s.db hvouched
    exact (hpending n (fun _ _ => trivial) db' hrun).witness hw

theorem unadjustedStore_unsigned : Store.unadjustedStore.db.Unsigned := by
  intro name w hw
  have hmem : w ∈ Store.unadjustedStore.db.witnesses.rows := Table.get_mem hw
  rcases List.mem_cons.1 hmem with rfl | hmem
  · exact ⟨rfl, rfl⟩
  · cases List.mem_singleton.1 hmem
    exact ⟨rfl, rfl⟩

/-- Three blocks of alice, whose slots alternate with those of bob. -/
def aliceBlock (number : Nat) (previous : BlockId) : SignedBlock where
  previous := previous
  timestamp := 6 * number
  witness := "alice"
  transactionMerkleRoot := 0
  extensions := []
  witnessSignature := 7
  transactions := []

/-- The third block of alice is the first one that it supports. -/
theorem irreversible_support_third :
    (∃ v, IsGreatest {v | 2 - 2 * 25 / 100 ≤ Store.unadjustedStore.db.witnesses.rows.reverse.countP
          fun w => decide (v ≤ w.lastSupportedBlockNum)} v ∧
        Ends (fun e => e.2.irreversible = max Store.unadjustedStore.irreversible v)
          (fun s' => s'.irreversible = max Store.unadjustedStore.irreversible v)
          (Store.unadjustedStore.updateLastIrreversibleBlock smallEnv {})) ∧
      ∃ (s : Store) (l : List Signing) (w : WitnessObject), s.db.findWitness "alice" = some w ∧ w.lastSupportedBlockNum = 3 ∧
        SignedThrice "alice" l 3 := by
  constructor
  · exact (irreversible_support smallEnv 1).1 Store.unadjustedStore {}
      Store.unadjustedStore.db.witnesses.rows.reverse rfl (by decide) (by decide)
  · let run : StoreResult Store := do
      let s₁ ← (Store.unadjustedStore.startUndoSession.applyBlock smallEnv 1 {}
        (aliceBlock 1 ⟨0, 0⟩) 0).2
      let s₂ ← (s₁.startUndoSession.applyBlock smallEnv 1 {} (aliceBlock 2 ⟨1, 6⟩) 0).2
      (s₂.startUndoSession.applyBlock smallEnv 1 {} (aliceBlock 3 ⟨2, 12⟩) 0).2
    have hrun : returns run (fun s => (s.db.findWitness "alice").any fun w =>
        decide (w.lastSupportedBlockNum = 3)) = true := by decide +kernel
    obtain ⟨s, hs, hsupported⟩ := returns_eq_true hrun
    simp only [run, bind_eq_ok] at hs
    obtain ⟨s₁, h₁, s₂, h₂, h₃⟩ := hs
    have hbranch := Branch.apply _ 0 (.apply _ 0 (.apply _ 0 .start h₁) h₂) h₃
    rw [Option.any_eq_true] at hsupported
    obtain ⟨w, hw, hthree⟩ := hsupported
    have hthree : w.lastSupportedBlockNum = 3 := of_decide_eq_true hthree
    obtain ⟨l, -, -, hall⟩ := (irreversible_support smallEnv 1).2 _ s _ rfl unadjustedStore_unsigned hbranch
    have halice := hall {} [] 0 s.db rfl "alice" w hw
    rw [hthree] at halice
    exact ⟨s, l, w, hw, hthree, halice.resolve_left (by decide)⟩

/-- The only witness supports the block with the given number. -/
def supportingStore (num : Nat) : Store :=
  { smallStore [] with
    db := { (smallStore []).db with
      witnesses := ⟨[{ id := 0, owner := "alice", signingKey := 7, lastSupportedBlockNum := num }],
        1⟩ } }

/-- The number is read into 32 bits. -/
theorem irreversible_support_wraps :
    ∃ s', (supportingStore (2 ^ 32)).updateLastIrreversibleBlock smallEnv {} = .ok s' ∧
      ∀ v, IsGreatest {v | 1 - 1 * 25 / 100 ≤ (supportingStore (2 ^ 32)).db.witnesses.rows.countP
        fun w => decide (v ≤ w.lastSupportedBlockNum)} v →
        s'.irreversible ≠ max (supportingStore (2 ^ 32)).irreversible v := by
  have hrun : returns ((supportingStore (2 ^ 32)).updateLastIrreversibleBlock smallEnv {})
      (fun s => decide (s.irreversible = 0)) = true := by decide +kernel
  obtain ⟨s', hs', hzero⟩ := returns_eq_true hrun
  refine ⟨s', hs', fun v hv heq => ?_⟩
  have hmem : 2 ^ 32 ∈ {v | 1 - 1 * 25 / 100 ≤
      (supportingStore (2 ^ 32)).db.witnesses.rows.countP
        fun w => decide (v ≤ w.lastSupportedBlockNum)} := by decide
  have hgreat : 2 ^ 32 ≤ v := hv.2 hmem
  rw [of_decide_eq_true hzero] at heq
  have hle : v ≤ 0 := heq ▸ le_max_right _ v
  omega

end VizCore.Chain
