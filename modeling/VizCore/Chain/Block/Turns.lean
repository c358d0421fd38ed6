import VizCore.Chain.Core

/-!
# Block steps and the core

The steps of a block that leave the core of the database alone, apart from the tokens that
are vested for the witness.

* `BlockStep.run_turns`: every plain step is a sequence of turns;
* `evaluate_turns`: every plain operation is a sequence of turns.
-/

namespace VizCore.Chain

open VizCore.Lib VizCore.Protocol

namespace Db

variable {env : Env} {skip : Skip} {b : SignedBlock} {db db' : Db}

/-- A loop whose passes leave the core alone. -/
theorem foldlM_core {α : Type} {f : Db → α → Result Db} {l : List α}
    (hf : ∀ x db db', f db x = .ok db' → db'.core = db.core) (h : l.foldlM f db = .ok db') :
    db'.core = db.core :=
  foldlM_invariant (fun s => s.core = db.core) f l
    (fun x _ s s' hs hx => (hf x s s' hx).trans hs) db db' rfl h

/-- A loop whose passes leave a part of the core alone. -/
theorem foldlM_part {α β : Type} {part : Core → β} {f : Db → α → Result Db} {l : List α}
    (hf : ∀ x db db', f db x = .ok db' → part db'.core = part db.core)
    (h : l.foldlM f db = .ok db') : part db'.core = part db.core :=
  foldlM_invariant (fun s : Db => part s.core = part db.core) f l
    (fun x _ s s' hs hx => (hf x s s' hx).trans hs) db db' rfl h

theorem foldl_part {α β : Type} {part : Core → β} (f : Db → α → Db)
    (hf : ∀ db a, part (f db a).core = part db.core) (l : List α) (db : Db) :
    part (l.foldl f db).core = part db.core := by
  induction l generalizing db with
  | nil => rfl
  | cons a l ih => exact (ih (f db a)).trans (hf db a)

/-- A change of a witness that keeps its votes. -/
theorem withoutPanel_changeWitness (db : Db) (name : AccountName)
    (f : WitnessObject → WitnessObject) (h : ∀ w, (f w).core = w.core) :
    (db.modifyWitness name f).core.withoutPanel = { db.core.withoutPanel with
      supports := (db.modifyWitness name f).core.supports } := by
  have hrows := Table.image_update_of_same db.witnesses WitnessObject.core (·.owner) name f h
  show ({ db.core.withoutPanel with
    witnesses := (db.witnesses.update (·.owner) name f).image _
    supports := (db.witnesses.update (·.owner) name f).image _ } : Core) = _
  rw [hrows]
  rfl

/-- A change of a witness that keeps its votes and what it supports. -/
theorem withoutPanel_modifyWitness (db : Db) (name : AccountName)
    (f : WitnessObject → WitnessObject)
    (h : ∀ w, ((f w).core, (f w).support) = (w.core, w.support)) :
    (db.modifyWitness name f).core.withoutPanel = db.core.withoutPanel := by
  have hsupports := Table.image_update_of_same db.witnesses WitnessObject.support (·.owner) name f
    fun w => congrArg Prod.snd (h w)
  rw [withoutPanel_changeWitness db name f fun w => congrArg Prod.fst (h w)]
  show ({ db.core.withoutPanel with
    supports := (db.witnesses.update (·.owner) name f).image WitnessObject.support } : Core) = _
  rw [hsupports]
  rfl

/-! ## The schedule -/

theorem processHeaderExtension_core {name : AccountName} {e : HeaderExtension}
    (h : processHeaderExtension name db e = .ok db') : db'.core = db.core := by
  cases e with
  | void =>
    cases h
    rfl
  | version v =>
    simp only [processHeaderExtension, bind_eq_ok, pure_eq_ok] at h
    obtain ⟨_, -, rfl⟩ := h
    exact core_modifyWitness_of_same db name _ fun _ => rfl
  | hardforkVersionVote v t =>
    simp only [processHeaderExtension, bind_eq_ok, pure_eq_ok] at h
    obtain ⟨_, -, rfl⟩ := h
    exact core_modifyWitness_of_same db name _ fun _ => rfl

theorem openBlock_core (h : db.openBlock env skip b = .ok db') : db'.core = db.core := by
  simp only [openBlock, processHeaderExtensions, bind_eq_ok, pure_eq_ok] at h
  obtain ⟨_, -, _, -, db₁, hrun, _, -, _, -, rfl⟩ := h
  have hcore := foldlM_core (fun _ _ _ => processHeaderExtension_core) hrun
  exact hcore

theorem missSlot_core {producer : AccountName} {slotNum : Nat}
    (h : missSlot producer db slotNum = .ok db') :
    db'.core.withoutPanel = { db.core.withoutPanel with supports := db'.core.supports } := by
  simp only [missSlot, bind_eq_ok] at h
  obtain ⟨w, -, h⟩ := h
  split at h
  · rw [pure_eq_ok] at h
    rw [← h]
    exact withoutPanel_changeWitness db _ _ fun _ => rfl
  · simp only [bind_eq_ok, pure_eq_ok] at h
    obtain ⟨counted, -, rfl⟩ := h
    exact withoutPanel_changeWitness db _ _ fun _ => rfl

theorem missSlots_core {producer : AccountName} {slots : List Nat}
    (h : slots.foldlM (missSlot producer) db = .ok db') :
    db'.core.withoutPanel = { db.core.withoutPanel with supports := db'.core.supports } := by
  refine foldlM_invariant (fun d : Db => d.core.withoutPanel =
    { db.core.withoutPanel with supports := d.core.supports }) _ _ ?_ db db' rfl h
  intro slot _ d d' hd hstep
  rw [missSlot_core hstep, hd]

theorem advanceHead_core (db : Db) (id : BlockId) (size missed : Nat) :
    (db.modifyDgp (advanceHead b id size missed)).core =
      { db.core with
        time := b.timestamp, number := b.blockNum, headId := id
        aslot := (db.modifyDgp (advanceHead b id size missed)).dgp.currentAslot
        recentSlots := (db.modifyDgp (advanceHead b id size missed)).dgp.recentSlotsFilled
        participation := (db.modifyDgp (advanceHead b id size missed)).dgp.participationCount
        capacity := (db.modifyDgp (advanceHead b id size missed)).core.capacity } := by
  have hshifts (l : List Nat) (p : DynamicGlobalPropertyObject) :
      (db.modifyDgp fun _ => l.foldl (fun p _ => shiftSlot false p) p).core.withoutSlots =
        (db.modifyDgp fun _ => p).core.withoutSlots := by
    induction l generalizing p with
    | nil => rfl
    | cons x l ih => exact (ih (shiftSlot false p)).trans rfl
  have hslots := hshifts (List.range missed) (shiftSlot true db.dgp)
  have hrest : (db.modifyDgp (advanceHead b id size missed)).core.withoutSlots =
      { db.core.withoutSlots with time := b.timestamp, number := b.blockNum, headId := id } := by
    refine Eq.trans ?_ (congrArg (fun c : Core =>
      { c with time := b.timestamp, number := b.blockNum, headId := id }) hslots)
    simp only [advanceHead, modifyDgp]
    split <;> rfl
  exact congrArg (fun c : Core => { c with
    aslot := (db.modifyDgp (advanceHead b id size missed)).dgp.currentAslot
    recentSlots := (db.modifyDgp (advanceHead b id size missed)).dgp.recentSlotsFilled
    participation := (db.modifyDgp (advanceHead b id size missed)).dgp.participationCount
    capacity := (db.modifyDgp (advanceHead b id size missed)).core.capacity }) hrest

theorem updateGlobalDynamicData_core (h : db.updateGlobalDynamicData env skip b = .ok db') :
    db'.core.withoutPanel = { db.core.withoutPanel with
      time := b.timestamp, number := b.blockNum, headId := blockId env b
      aslot := db'.dgp.currentAslot, recentSlots := db'.dgp.recentSlotsFilled
      participation := db'.dgp.participationCount
      capacity := db'.core.withoutPanel.capacity, supports := db'.core.supports } := by
  simp only [updateGlobalDynamicData, bind_eq_ok, pure_eq_ok] at h
  obtain ⟨missed, -, db₁, hmiss, _, -, rfl⟩ := h
  have hcore := missSlots_core hmiss
  rw [advanceHead_core]
  show ({ db₁.core.withoutPanel with
    time := _, number := _, headId := _, aslot := _, recentSlots := _, participation := _
    capacity := _ } : Core) = _
  rw [hcore]
  rfl

/-- The witness of a block keeps its votes and its turns. -/
theorem updateSigningWitness_core (db : Db) (b : SignedBlock) :
    (db.updateSigningWitness b).core =
      { db.core with supports := (db.updateSigningWitness b).core.supports } := by
  unfold updateSigningWitness
  dsimp only
  generalize (db.dgp.currentAslot + db.getSlotAtTime b.timestamp) % 2 ^ 64 = aslot
  let f := fun w : WitnessObject =>
    { w with
      lastAslot := aslot
      lastConfirmedBlockNum := b.blockNum
      lastSupportedBlockNum :=
        if irreversibleSupportMinRun ≤ w.currentRun then b.blockNum else w.lastSupportedBlockNum
      currentRun := w.currentRun + 1 }
  have hrows := Table.image_update_of_same db.witnesses WitnessObject.core (·.owner) b.witness f
    fun _ => rfl
  have hpanels := Table.image_update_of_same db.witnesses WitnessObject.panel (·.owner) b.witness f
    fun _ => rfl
  show ({ db.core with
    witnesses := (db.witnesses.update (·.owner) b.witness f).image WitnessObject.core
    panel := (db.witnesses.update (·.owner) b.witness f).image WitnessObject.panel
    supports := _ } : Core) = _
  rw [hrows, hpanels]
  rfl

theorem createBlockSummary_core (h : createBlockSummary env b db = .ok db') :
    db'.core = { db.core with
      summaries := db.core.summaries.update (·.id) (b.blockNum % 2 ^ 16) fun s =>
        { s with blockId := blockId env b } } := by
  simp only [createBlockSummary, bind_eq_ok, pure_eq_ok] at h
  obtain ⟨_, -, rfl⟩ := h
  rfl

theorem expirePenalty_core {p : WitnessPenaltyExpireObject}
    (h : db.expirePenalty p = .ok db') : db'.core.withoutPanel = db.core.withoutPanel := by
  simp only [expirePenalty, bind_eq_ok, pure_eq_ok] at h
  obtain ⟨w, -, counted, -, rfl⟩ := h
  exact withoutPanel_modifyWitness db p.witness _ fun _ => rfl

theorem setSchedule_core (kind : WitnessScheduleType) (db : Db) (w : WitnessObject) :
    (setSchedule kind db w).core.withoutPanel = db.core.withoutPanel :=
  withoutPanel_modifyWitness db w.owner _ fun _ => rfl

theorem setVirtualTime_core (now : Nat) (db : Db) (w : WitnessObject × Nat) :
    (setVirtualTime now db w).core.withoutPanel = db.core.withoutPanel :=
  withoutPanel_modifyWitness db w.1.owner _ fun _ => rfl

theorem resetVirtualTime_core {l l' : List WitnessObject}
    (h : l.mapM resetVirtualTime = .ok l') :
    l'.map (fun w => (w.core, w.support)) = l.map fun w => (w.core, w.support) := by
  induction l generalizing l' with
  | nil =>
    rw [List.mapM_nil, pure_eq_ok] at h
    rw [← h]
  | cons w l ih =>
    simp only [List.mapM_cons, resetVirtualTime, bind_eq_ok, pure_eq_ok] at h
    obtain ⟨_, ⟨lap, -, rfl⟩, rest, hrest, rfl⟩ := h
    rw [List.map_cons, List.map_cons, ih hrest]
    rfl

theorem resetVirtualScheduleTime_core (h : db.resetVirtualScheduleTime = .ok db') :
    db'.core.withoutPanel = db.core.withoutPanel := by
  simp only [resetVirtualScheduleTime, bind_eq_ok, pure_eq_ok] at h
  obtain ⟨rows, hrows, rfl⟩ := h
  have hsame := resetVirtualTime_core hrows
  have hcore := congrArg (List.map Prod.fst) hsame
  have hsupport := congrArg (List.map Prod.snd) hsame
  simp only [List.map_map] at hcore hsupport
  have hcore : rows.map WitnessObject.core = db.witnesses.rows.map WitnessObject.core := hcore
  have hsupport : rows.map WitnessObject.support =
    db.witnesses.rows.map WitnessObject.support := hsupport
  show ({ db.core.withoutPanel with
    witnesses := ⟨rows.map WitnessObject.core, db.witnesses.nextId⟩
    supports := ⟨rows.map WitnessObject.support, db.witnesses.nextId⟩ } : Core) = _
  rw [hcore, hsupport]
  rfl

theorem updateVirtualSchedule_core {now now' : Nat} {passed : List WitnessObject}
    (h : db.updateVirtualSchedule now passed = .ok (now', db')) :
    db'.core.withoutPanel = db.core.withoutPanel := by
  simp only [updateVirtualSchedule, bind_eq_ok] at h
  obtain ⟨times, -, h⟩ := h
  split at h
  · simp only [bind_eq_ok, pure_eq_ok, Prod.mk.injEq] at h
    obtain ⟨db₁, hreset, -, rfl⟩ := h
    exact resetVirtualScheduleTime_core hreset
  · simp only [pure_eq_ok, Prod.mk.injEq] at h
    rw [← h.2]
    exact foldl_part _ (setVirtualTime_core now) _ db

theorem countHardforkVotes_core (db : Db) (scheduled : List WitnessObject) :
    (db.countHardforkVotes scheduled).core = db.core := by
  simp only [countHardforkVotes]
  split
  · rfl
  · rfl

theorem updateWitnessSchedule_core (h : db.updateWitnessSchedule = .ok db') :
    db'.core.withoutPanel = { db.core.withoutPanel with seats := db'.core.seats } := by
  unfold updateWitnessSchedule at h
  split at h
  · simp only [scheduleWitnesses, bind_eq_ok] at h
    obtain ⟨db₁, hpenalties, ⟨now, db₂⟩, hvirtual, h⟩ := h
    simp only [updateMedianWitnessProps, bind_eq_ok, pure_eq_ok] at h
    obtain ⟨_, -, scheduled, -, _, -, rfl⟩ := h
    have hpenalty : db₁.core.withoutPanel = db.core.withoutPanel :=
      foldlM_part (fun _ _ _ => expirePenalty_core) hpenalties
    have hcore : db₂.core.withoutPanel = db.core.withoutPanel := by
      rw [updateVirtualSchedule_core hvirtual, foldl_part _ (setSchedule_core .support),
        foldl_part _ (setSchedule_core .top), hpenalty]
    have hcount := (congrArg Core.withoutPanel (countHardforkVotes_core db₂ scheduled)).trans hcore
    show ({ (db₂.countHardforkVotes scheduled).core.withoutPanel with seats := _ } : Core) = _
    rw [hcount]
  · cases h
    rfl

/-! ## Upkeep and payouts -/

theorem updateBandwidthReserveCandidates_core (h : db.updateBandwidthReserveCandidates = .ok db') :
    db'.core = db.core := by
  unfold updateBandwidthReserveCandidates at h
  split at h
  · simp only [bind_eq_ok, pure_eq_ok] at h
    obtain ⟨candidates, -, rfl⟩ := h
    rfl
  · cases h
    rfl

theorem processInflationRecalc_core (db : Db) : db.processInflationRecalc.core = db.core := by
  unfold processInflationRecalc
  split <;> rfl

/-- The witness's part of the emission is worth no negative amount of shares. -/
def Funded (db : Db) : Prop :=
  ∀ w, percentOf digitalAssetIssuedPerBlock db.dgp.inflationWitnessPercent = .ok w → db.VestsUp w

theorem processFunds_turns (h : db.processFunds = .ok db') : Turns db.Funded db db' := by
  simp only [processFunds, bind_eq_ok] at h
  obtain ⟨w, hw, _, -, _, -, _, -, _, -, _, -, _, -, _, -, _, -, witness, -, hvest⟩ := h
  generalize hdb₁ : db.modifyDgp _ = db₁ at hvest
  have hcore : db₁.core = db.core := by
    rw [← hdb₁]
    rfl
  exact .after_quiet hcore (.vest (fun hg => (hg w hw).of_core hcore) hvest)

theorem expireEscrow_core {key : AccountName × Nat} (h : db.expireEscrow key = .ok db') :
    db'.core = db.core := by
  simp only [expireEscrow, bind_eq_ok, pure_eq_ok] at h
  obtain ⟨e, -, db₁, hpay, db₂, hfee, rfl⟩ := h
  have hcore : db₂.core = db.core := by rw [adjustBalance_core hfee, adjustBalance_core hpay]
  exact hcore

theorem concludeRequest_core {id : Nat} (h : db.concludeRequest id = .ok db') :
    db'.core.withoutRequests = db.core.withoutRequests := by
  simp only [concludeRequest, bind_eq_ok] at h
  obtain ⟨r, -, h⟩ := h
  split at h
  · simp only [bind_eq_ok] at h
    obtain ⟨⟨maxRshares, actualRshares⟩, -, _, -, h⟩ := h
    split at h
    · rw [pure_eq_ok] at h
      rw [← h]
      rfl
    · split at h
      · rw [pure_eq_ok] at h
        rw [← h]
        rfl
      · simp only [bind_eq_ok] at h
        obtain ⟨payment, -, h⟩ := h
        split at h <;>
        · rw [pure_eq_ok] at h
          rw [← h]
          rfl
  · rw [pure_eq_ok] at h
    rw [h]

theorem payRequest_core {maxPayment : Int} {id : Nat}
    (h : payRequest maxPayment db id = .ok db') :
    db'.core.withoutRequests = db.core.withoutRequests := by
  simp only [payRequest, bind_eq_ok, pure_eq_ok] at h
  obtain ⟨r, -, db₁, hpay, _, -, _, -, _, -, rfl⟩ := h
  have hcore := congrArg Core.withoutRequests (adjustBalance_core hpay)
  exact hcore

theorem committeeProcessing_core (h : db.committeeProcessing = .ok db') :
    db'.core.withoutRequests = db.core.withoutRequests := by
  simp only [committeeProcessing, bind_eq_ok] at h
  obtain ⟨db₁, hconclude, h⟩ := h
  have hcore : db₁.core.withoutRequests = db.core.withoutRequests :=
    foldlM_part (fun _ _ _ => concludeRequest_core) hconclude
  split at h
  · simp only [payRequests, bind_eq_ok] at h
    obtain ⟨maxPayment, -, hpay⟩ := h
    exact (foldlM_part (fun _ _ _ => payRequest_core) hpay).trans hcore
  · rw [pure_eq_ok] at h
    rw [← h]
    exact hcore

theorem processSubscribe_core {s : PaidSubscribeObject} (h : db.processSubscribe s = .ok db') :
    db'.core.withoutSubscribes = db.core.withoutSubscribes := by
  unfold processSubscribe at h
  split at h
  · split at h
    · split at h
      · simp only [renewOrClose, bind_eq_ok] at h
        obtain ⟨_, -, _, -, _, -, h⟩ := h
        split at h
        · simp only [bind_eq_ok] at h
          obtain ⟨_, -, h⟩ := h
          split at h
          · simp only [renewSubscribe, bind_eq_ok, pure_eq_ok] at h
            obtain ⟨db₁, hpay, db₂, hcredit, rfl⟩ := h
            have hcore : db₂.core.withoutSubscribes = db.core.withoutSubscribes := by
              rw [adjustBalance_core hcredit, adjustBalance_core hpay]
            exact hcore
          · rw [pure_eq_ok] at h
            rw [← h]
            rfl
        · rw [pure_eq_ok] at h
          rw [← h]
          rfl
      · cases h
        rfl
    · cases h
      rfl
  · cases h
    rfl

theorem subscribeLoop_core {fuel : Nat} {next : Option Nat}
    (h : subscribeLoop fuel db next = .ok db') :
    db'.core.withoutSubscribes = db.core.withoutSubscribes := by
  induction fuel generalizing db next with
  | zero => cases h
  | succ fuel ih =>
    cases next with
    | none =>
      cases h
      rfl
    | some id =>
      simp only [subscribeLoop, bind_eq_ok] at h
      obtain ⟨s, -, h⟩ := h
      split at h
      · simp only [bind_eq_ok] at h
        obtain ⟨db₁, hstep, hrest⟩ := h
        exact (ih hrest).trans (processSubscribe_core hstep)
      · rw [pure_eq_ok] at h
        rw [h]

/-! ## Transactions -/

theorem updateAccountBandwidth_core {producing : Bool} {name : AccountName} {size : Nat}
    (h : db.updateAccountBandwidth producing name size = .ok db') : db'.core = db.core := by
  simp only [updateAccountBandwidth, bind_eq_ok] at h
  obtain ⟨a, -, h⟩ := h
  split at h
  · simp only [bind_eq_ok, pure_eq_ok] at h
    obtain ⟨_, -, _, -, _, -, _, -, _, -, rfl⟩ := h
    exact core_modifyAccount_of_same db name _ fun _ => rfl
  · rw [pure_eq_ok] at h
    rw [h]

/-- A transaction is remembered, unless duplicates are not checked. -/
theorem openTransaction_core {trx : SignedTransaction}
    (h : db.openTransaction env skip trx = .ok db') :
    db'.core = { db.core with
      transactions := if skip.transactionDupeCheck then db.core.transactions
        else db.core.transactions.create fun id =>
          ⟨id, env.trxId trx.toTransaction, trx.expiration⟩ } := by
  simp only [openTransaction, bind_eq_ok] at h
  obtain ⟨_, -, _, -, db₁, hcharge, h⟩ := h
  have hcore : db₁.core = db.core := by
    refine foldlM_core (fun name s s' hs => ?_) hcharge
    simp only [chargeBandwidth, bind_eq_ok] at hs
    obtain ⟨s₁, hfirst, hrest⟩ := hs
    exact (foldlM_core (fun _ _ _ => updateAccountBandwidth_core) hrest).trans
      (updateAccountBandwidth_core hfirst)
  split at h
  · rename_i hskip
    rw [pure_eq_ok] at h
    rw [← h, hcore, if_pos hskip]
  · rename_i hskip
    rw [pure_eq_ok] at h
    rw [← h, if_neg hskip, ← hcore]
    rfl

end Db

/-! ## Plain steps and plain operations -/

/-- The steps that change the core themselves. -/
def BlockStep.special : BlockStep → Bool
  | .updateGlobalDynamicData | .updateSigningWitness
  | .clearExpiredTransactions | .clearExpiredDelegations
  | .clearClosedCommitteeRequests | .updateWitnessSchedule | .expireAwardSharesProcessing
  | .processVestingWithdrawals | .accountRecoveryProcessing
  | .accountOnAuctionExpiration | .clearNullAccountBalance | .clearAnonymousAccountBalance
  | .claimCommitteeAccountBalance | .committeeProcessing | .paidSubscribeProcessing
  | .createBlockSummary => true
  | _ => false

/-- What the step turns into shares does not overflow. -/
def BlockStep.Vestable (s : BlockStep) (db : Db) : Prop := s = .processFunds → db.Funded

instance (s : BlockStep) (db : Db) : Decidable (s.Vestable db) :=
  inferInstanceAs (Decidable (s = .processFunds → ∀ w,
    percentOf digitalAssetIssuedPerBlock db.dgp.inflationWitnessPercent = .ok w → db.VestsUp w))

/-- **Plain steps** are turns. -/
theorem BlockStep.run_turns {env : Env} {skip : Skip} {b : SignedBlock} {s : BlockStep}
    {db db' : Db} (hs : s.special = false) (h : s.run env skip b db = .ok db') :
    Turns (s.Vestable db) db db' := by
  cases s with
  | openBlock => exact .quiet (Db.openBlock_core h)
  | updateGlobalDynamicData => cases hs
  | updateSigningWitness => cases hs
  | createBlockSummary => cases hs
  | clearExpiredTransactions => cases hs
  | clearExpiredDelegations => cases hs
  | clearUsedInvites =>
    cases h
    exact .quiet rfl
  | clearClosedCommitteeRequests => cases hs
  | updateBandwidthReserveCandidates =>
    exact .quiet (Db.updateBandwidthReserveCandidates_core h)
  | updateWitnessSchedule => cases hs
  | processInflationRecalc =>
    cases h
    exact .quiet (Db.processInflationRecalc_core db)
  | expireAwardSharesProcessing => cases hs
  | processFunds => exact (Db.processFunds_turns h).imp fun hg => hg rfl
  | processVestingWithdrawals => cases hs
  | accountRecoveryProcessing => cases hs
  | expireEscrowRatification =>
    exact .quiet (Db.foldlM_core (fun _ _ _ => Db.expireEscrow_core) h)
  | accountOnAuctionExpiration => cases hs
  | clearNullAccountBalance => cases hs
  | clearAnonymousAccountBalance => cases hs
  | claimCommitteeAccountBalance => cases hs
  | committeeProcessing => cases hs
  | paidSubscribeProcessing => cases hs
  | processHardforks =>
    simp only [run, Db.processHardforks, bind_eq_ok, pure_eq_ok] at h
    obtain ⟨_, -, rfl⟩ := h
    exact .refl _

/-- The operations that change the core themselves. -/
def Operation.special : Operation → Bool
  | .withdrawVesting _ | .setWithdrawVestingRoute _ | .accountCreate _ | .accountUpdate _
  | .accountWitnessVote _ | .accountWitnessProxy _ | .requestAccountRecovery _
  | .recoverAccount _ | .changeRecoveryAccount _ | .delegateVestingShares _
  | .setAccountPrice _ | .targetAccountSale _ | .buyAccount _ | .proposalDelete _
  | .committeeWorkerCreateRequest _ | .committeeWorkerCancelRequest _ | .committeeVoteRequest _
  | .award _ | .fixedAward _ | .setPaidSubscription _ | .paidSubscribe _ => true
  | _ => false

/-- **Plain operations** are turns. -/
theorem evaluate_turns {fc : Fc} {producing : Bool} {clock : TimePointSec} {op : Operation}
    {db db' : Db} (hop : Operation.special op = false)
    (h : Db.evaluate fc producing clock db op = .ok db') :
    Turns (db.Vestable fc op) db db' := by
  cases op with
  | vote o => cases h
  | content o => cases h
  | deleteContent o => cases h
  | transfer o =>
    refine (Db.transfer_turns h).imp fun hg hto => hg.amounts _ ?_
    rw [Db.vested, if_pos hto]
    exact List.mem_singleton_self _
  | transferToVesting o =>
    exact (Db.transferToVesting_turns h).imp fun hg => hg.amounts _ (List.mem_singleton_self _)
  | withdrawVesting o => cases hop
  | setWithdrawVestingRoute o => cases hop
  | accountCreate o => cases hop
  | accountUpdate o => cases hop
  | accountMetadata o => exact .quiet (Db.accountMetadataUpdate_core h)
  | witnessUpdate o => exact Db.witnessUpdate_turns h
  | accountWitnessVote o => cases hop
  | accountWitnessProxy o => cases hop
  | custom o => exact .quiet (Db.custom_core h)
  | requestAccountRecovery o => cases hop
  | recoverAccount o => cases hop
  | changeRecoveryAccount o => cases hop
  | escrowTransfer o => exact .quiet (Db.escrowTransfer_core h)
  | escrowApprove o => exact .quiet (Db.escrowApprove_core h)
  | escrowDispute o => exact .quiet (Db.escrowDispute_core h)
  | escrowRelease o => exact .quiet (Db.escrowRelease_core h)
  | delegateVestingShares o => cases hop
  | proposalDelete o => cases hop
  | chainPropertiesUpdate o => exact Db.updateProps_turns h
  | versionedChainPropertiesUpdate o => exact Db.updateProps_turns h
  | committeeWorkerCreateRequest o => cases hop
  | committeeWorkerCancelRequest o => cases hop
  | committeeVoteRequest o => cases hop
  | createInvite o => exact .quiet (Db.createInvite_core h)
  | claimInviteBalance o => exact .quiet (Db.claimInviteBalance_core h)
  | inviteRegistration o => exact Db.inviteRegistration_turns h
  | award o => cases hop
  | setPaidSubscription o => cases hop
  | paidSubscribe o => cases hop
  | setAccountPrice o => cases hop
  | setSubaccountPrice o => exact .quiet (Db.setSubaccountPrice_core h)
  | buyAccount o => cases hop
  | useInviteBalance o => exact Db.useInviteBalance_turns h
  | fixedAward o => cases hop
  | targetAccountSale o => cases hop
  | proposalCreate => cases h
  | proposalUpdate o => cases h

end VizCore.Chain
