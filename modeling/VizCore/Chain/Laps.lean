import VizCore.Chain.Panel

/-!
# Laps

The virtual schedule treats a witness as a runner on a lap of length `2 ^ 128 - 1` whose speed is
its counted votes plus one: it has its turn when it completes the lap.  Its position is brought
up to date when its votes change; a penalty changes the speed as well, but not the position.

* `PanelRow.Timely`: the turn of a witness is where its position and its speed put it;
* `virtual_schedule_preserved`: the turns stay so as long as penalties leave the counted votes
  alone.
-/

namespace VizCore.Chain

open VizCore.Lib VizCore.Protocol

/-- The witness completes its lap at `scheduledTime`, as its speed says, and has not yet. -/
structure PanelRow.Timely (now : Nat) (w : PanelRow) : Prop where
  counted : 0 ≤ w.countedVotes ∧ w.countedVotes < 2 ^ 63
  last : w.lastUpdate ≤ now
  position : w.position + w.countedVotes.toNat * (now - w.lastUpdate) ≤ virtualScheduleLapLength
  scheduled : w.scheduledTime =
    min (w.lastUpdate + (virtualScheduleLapLength - w.position) / w.pace) (2 ^ 128 - 1)
  ahead : now ≤ w.scheduledTime

namespace PanelRow

variable {now now' : Nat} {w w' : PanelRow}

theorem pace_eq (h : 0 ≤ w.countedVotes) (h' : w.countedVotes + 1 < 2 ^ 63) :
    w.pace = w.countedVotes.toNat + 1 := by
  have hwrap : wrapInt64 (w.countedVotes + 1) = w.countedVotes + 1 :=
    Int.bmod_eq_of_le (by omega) (by omega)
  simp only [pace, hwrap, toUint128]
  omega

/-- The divisor is never smaller than the speed, even where the sum overflows. -/
theorem lt_pace (h : 0 ≤ w.countedVotes ∧ w.countedVotes < 2 ^ 63) :
    w.countedVotes.toNat + 1 ≤ w.pace := by
  by_cases hfits : w.countedVotes + 1 < 2 ^ 63
  · rw [pace_eq h.1 hfits]
  · have hmax : w.countedVotes + 1 = 2 ^ 63 := by omega
    have hpace : w.pace = toUint128 (wrapInt64 (2 ^ 63)) := by
      unfold pace
      rw [hmax]
    have hvalue : toUint128 (wrapInt64 (2 ^ 63)) = 2 ^ 128 - 2 ^ 63 := by decide
    rw [hpace, hvalue]
    omega

/-- A turn that has not passed means a lap that is not complete. -/
theorem position_le (h : 0 ≤ w.countedVotes ∧ w.countedVotes < 2 ^ 63)
    (hposition : w.position ≤ virtualScheduleLapLength)
    (hnow : now ≤ w.lastUpdate + (virtualScheduleLapLength - w.position) / w.pace) :
    w.position + w.countedVotes.toNat * (now - w.lastUpdate) ≤ virtualScheduleLapLength := by
  have hpace := lt_pace h
  have hsteps : now - w.lastUpdate ≤ (virtualScheduleLapLength - w.position) / w.pace :=
    Nat.sub_le_iff_le_add'.2 hnow
  have hlap : w.countedVotes.toNat * (now - w.lastUpdate) ≤
      virtualScheduleLapLength - w.position := by
    calc w.countedVotes.toNat * (now - w.lastUpdate)
        ≤ w.pace * ((virtualScheduleLapLength - w.position) / w.pace) :=
          Nat.mul_le_mul (by omega) hsteps
      _ ≤ virtualScheduleLapLength - w.position := Nat.mul_div_le _ _
  omega

namespace Timely

/-- Only counted votes and virtual times matter. -/
theorem congr (h : w.Timely now) (hcounted : w'.countedVotes = w.countedVotes)
    (hlast : w'.lastUpdate = w.lastUpdate) (hposition : w'.position = w.position)
    (hscheduled : w'.scheduledTime = w.scheduledTime) : w'.Timely now := by
  have hpace : w'.pace = w.pace := by
    unfold pace
    rw [hcounted]
  constructor
  · rw [hcounted]
    exact h.counted
  · rw [hlast]
    exact h.last
  · rw [hposition, hcounted, hlast]
    exact h.position
  · rw [hscheduled, hlast, hposition, hpace]
    exact h.scheduled
  · rw [hscheduled]
    exact h.ahead

/-- Time passes up to the turn of the witness. -/
theorem later (h : w.Timely now) (hnow : now ≤ now') (hahead : now' ≤ w.scheduledTime) :
    w.Timely now' := by
  refine ⟨h.counted, h.last.trans hnow, ?_, h.scheduled, hahead⟩
  have hposition := h.position
  refine position_le h.counted (by omega) ?_
  have hscheduled := h.scheduled
  omega

/-- A witness that starts a lap. -/
theorem start (hcounted : 0 ≤ w.countedVotes ∧ w.countedVotes < 2 ^ 63)
    (hlast : w.lastUpdate = now) (hposition : w.position = 0)
    (hscheduled : w.scheduledTime = now + virtualScheduleLapLength / w.pace)
    (hfits : now + virtualScheduleLapLength / w.pace < 2 ^ 128) : w.Timely now := by
  refine ⟨hcounted, hlast.le, ?_, ?_, ?_⟩
  · rw [hposition, hlast, Nat.sub_self, Nat.mul_zero]
    exact Nat.zero_le _
  · rw [hscheduled, hposition, hlast, Nat.sub_zero]
    omega
  · rw [hscheduled]
    exact Nat.le_add_right _ _

/-- A new witness starts at the end of time. -/
theorem fresh (id : Nat) (owner : AccountName) (hnow : now < 2 ^ 128) :
    (PanelRow.fresh id owner).Timely now := by
  constructor
  · exact ⟨le_rfl, by show (0 : Int) < 2 ^ 63; decide⟩
  · exact Nat.zero_le _
  · show 0 + Int.toNat 0 * _ ≤ _
    rw [Int.toNat_zero, Nat.zero_mul]
    exact Nat.zero_le _
  · show 2 ^ 128 - 1 = min (0 + (virtualScheduleLapLength - 0) / toUint128 (wrapInt64 1)) _
    decide
  · exact Nat.le_sub_one_of_lt hnow

theorem turnAfter_eq {lap : Nat} (hnow : now < 2 ^ 128) (hlap : lap < 2 ^ 128) :
    turnAfter now lap = min (now + lap) (2 ^ 128 - 1) := by
  unfold turnAfter
  split <;> omega

/-- A change of its votes brings the position of a witness up to date. -/
theorem adjust (h : w.Timely now) (hnow : now < 2 ^ 128) (hadj : w.Adjusted now w') :
    w'.Timely now := by
  have hposition : w'.position =
      w.position + w.countedVotes.toNat * (now - w.lastUpdate) := by
    have hlast := h.last
    have hwhole := h.position
    have hcounted : toUint128 w.countedVotes = w.countedVotes.toNat := by
      have := h.counted
      simp only [toUint128]
      omega
    have helapsed : (now + 2 ^ 128 - w.lastUpdate) % 2 ^ 128 = now - w.lastUpdate := by omega
    rw [hadj.position, hcounted, helapsed]
    refine Nat.mod_eq_of_lt (Nat.lt_of_le_of_lt hwhole ?_)
    decide
  have hle : w'.position ≤ virtualScheduleLapLength := hposition ▸ h.position
  have hcounted : 0 ≤ w'.countedVotes ∧ w'.countedVotes < 2 ^ 63 := by
    obtain ⟨counted, hok, hrange⟩ :=
      Db.countedVotesOf_returns hadj.votes.1 hadj.votes.2 w'.penaltyPercent
    cases hok.symm.trans hadj.counted
    exact hrange
  have hlap : (virtualScheduleLapLength - w'.position) / w'.pace < 2 ^ 128 := by
    have hdiv := Nat.div_le_self (virtualScheduleLapLength - w'.position) w'.pace
    have hlength : virtualScheduleLapLength < 2 ^ 128 := by decide
    omega
  have hscheduled := hadj.scheduled
  rw [turnAfter_eq hnow hlap] at hscheduled
  refine ⟨hcounted, hadj.lastUpdate.le, ?_, ?_, ?_⟩
  · rw [hadj.lastUpdate, Nat.sub_self, Nat.mul_zero]
    exact hle
  · rw [hadj.lastUpdate]
    exact hscheduled
  · rw [hscheduled]
    exact le_min (Nat.le_add_right _ _) (by omega)

end Timely

end PanelRow

/-! ## The clock of all witnesses -/

structure VirtualClock (p : PanelRest) : Prop where
  ids : p.witnesses.Numbered (·.id)
  owners : p.witnesses.Keyed (·.owner)
  time : p.time < 2 ^ 128
  timely : p.witnesses.All fun w => w.Timely p.time

namespace VirtualClock

variable {p p' : PanelRest}

theorem revote (h : VirtualClock p) (hmove : Revote p p') : VirtualClock p' := by
  obtain ⟨k, w, w', hw, hadj⟩ := hmove
  constructor
  · refine h.ids.of_ids (Table.map_update p.witnesses _ k _ _ fun x hx => ?_) rfl
    cases hw.symm.trans hx
    exact hadj.id
  · refine h.owners.of_keys (Table.map_update p.witnesses _ k _ _ fun x hx => ?_)
    cases hw.symm.trans hx
    exact hadj.owner
  · exact h.time
  · refine Table.all_update h.timely fun x hx htimely => ?_
    cases hw.symm.trans hx
    exact htimely.adjust h.time hadj

theorem declare (h : VirtualClock p) {owner : AccountName}
    (hnew : p.witnesses.get (·.owner) owner = none) :
    VirtualClock { p with witnesses := p.witnesses.create fun id => .fresh id owner } := by
  constructor
  · show (p.witnesses.create fun id => .fresh id owner).Numbered (·.id)
    exact h.ids.create fun _ => rfl
  · exact h.owners.create hnew rfl
  · exact h.time
  · exact Table.all_create h.timely (.fresh _ owner h.time)

end VirtualClock

/-! ## Charges -/

/-- What the list charges to a witness. -/
def chargeOf (l : List (AccountName × Int)) (owner : AccountName) : Int :=
  (l.map fun c => if c.1 = owner then c.2 else 0).sum

theorem chargeOf_cons (c : AccountName × Int) (l : List (AccountName × Int)) (owner : AccountName) :
    chargeOf (c :: l) owner = (if c.1 = owner then c.2 else 0) + chargeOf l owner := rfl

theorem chargeOf_of_notMem {l : List (AccountName × Int)} {owner : AccountName}
    (h : owner ∉ l.map Prod.fst) : chargeOf l owner = 0 := by
  induction l with
  | nil => rfl
  | cons c l ih =>
    rw [List.map_cons, List.mem_cons, not_or] at h
    rw [chargeOf_cons, if_neg (Ne.symm h.1), ih h.2, zero_add]

/-- The penalty of a witness once all that the list charges is added to it. -/
def PanelRow.penaltyAfter (l : List (AccountName × Int)) (w : PanelRow) : Nat :=
  ((w.penaltyPercent + chargeOf l w.owner : Int) % 2 ^ 32).toNat

/-- The witnesses of the list are charged one after another. -/
inductive Charged : List (AccountName × Int) → Table PanelRow → Table PanelRow → Prop
  | nil (t : Table PanelRow) : Charged [] t t
  | cons {l : List (AccountName × Int)} {t t' : Table PanelRow} (w : PanelRow) (percent : Int)
      (penalty : Nat) (counted : Int) (hw : t.get (·.owner) w.owner = some w)
      (hpenalty : penalty = ((w.penaltyPercent + percent : Int) % 2 ^ 32).toNat)
      (hcounted : countedVotesOf w.votes penalty = .ok counted)
      (h : Charged l (t.update (·.owner) w.owner (.withPenalty penalty counted)) t') :
      Charged ((w.owner, percent) :: l) t t'

namespace Charged

variable {l : List (AccountName × Int)} {t t' : Table PanelRow}

theorem keys {β : Type} (h : Charged l t t') (g : PanelRow → β)
    (hg : ∀ penalty counted w, g (.withPenalty penalty counted w) = g w) :
    t'.rows.map g = t.rows.map g ∧ t'.nextId = t.nextId := by
  induction h with
  | nil t => exact ⟨rfl, rfl⟩
  | cons w percent penalty counted hw hpenalty hcounted h ih =>
    refine ⟨ih.1.trans ?_, ih.2⟩
    exact Table.map_update _ _ _ _ _ fun x _ => hg penalty counted x

/-- A witness that is charged ends with the sum of its charges and with votes that are counted
under that penalty; the others are left alone. -/
theorem row (h : Charged l t t') (hkeyed : t.Keyed (·.owner)) {y : PanelRow} (hy : y ∈ t'.rows) :
    ∃ x ∈ t.rows, y = x.withPenalty y.penaltyPercent y.countedVotes ∧
      (x.owner ∈ l.map Prod.fst → y.penaltyPercent = x.penaltyAfter l ∧
        countedVotesOf x.votes y.penaltyPercent = .ok y.countedVotes) ∧
      (x.owner ∉ l.map Prod.fst → y = x) := by
  induction h with
  | nil t => exact ⟨y, hy, rfl, fun h => absurd h List.not_mem_nil, fun _ => rfl⟩
  | cons w percent penalty counted hw hpenalty hcounted h ih =>
    rename_i l t t'
    have hkeyed' : (t.update (·.owner) w.owner (.withPenalty penalty counted)).Keyed (·.owner) :=
      hkeyed.of_keys (Table.map_update _ _ _ _ _ fun _ _ => rfl)
    obtain ⟨x, hx, hyx, hcharged, hfree⟩ := ih hkeyed' hy
    have hrow : x = w.withPenalty penalty counted ∨ x ∈ t.rows ∧ x.owner ≠ w.owner :=
      hkeyed.mem_update (fun _ => rfl) hw hx
    rcases hrow with rfl | ⟨hx, hne⟩
    · refine ⟨w, Table.get_mem hw, hyx, fun _ => ?_, fun h => absurd List.mem_cons_self h⟩
      by_cases hmem : w.owner ∈ l.map Prod.fst
      · obtain ⟨hpercent, hcount⟩ := hcharged hmem
        refine ⟨hpercent.trans ?_, hcount⟩
        simp only [PanelRow.penaltyAfter, PanelRow.withPenalty, chargeOf_cons, if_true]
        omega
      · have hy' := hfree hmem
        rw [hy']
        refine ⟨?_, hcounted⟩
        simp only [PanelRow.penaltyAfter, PanelRow.withPenalty, chargeOf_cons, if_true,
          chargeOf_of_notMem hmem, add_zero]
        exact hpenalty
    · refine ⟨x, hx, hyx, fun hmem => ?_, fun hmem => ?_⟩
      · rw [List.map_cons, List.mem_cons] at hmem
        obtain ⟨hpercent, hcount⟩ := hcharged (hmem.resolve_left hne)
        refine ⟨hpercent.trans ?_, hcount⟩
        simp only [PanelRow.penaltyAfter, chargeOf_cons, if_neg (Ne.symm hne), zero_add]
      · rw [List.map_cons, List.mem_cons, not_or] at hmem
        exact hfree hmem.2

end Charged

/-- The charges leave the votes that count as they are. -/
def CountsAlike (l : List (AccountName × Int)) (t : Table PanelRow) : Prop :=
  t.All fun w => w.owner ∈ l.map Prod.fst →
    countedVotesOf w.votes (w.penaltyAfter l) = .ok w.countedVotes

instance (l : List (AccountName × Int)) (t : Table PanelRow) : Decidable (CountsAlike l t) :=
  decidable_of_iff (t.All fun w => w.owner ∈ l.map Prod.fst →
    returns (countedVotesOf w.votes (w.penaltyAfter l)) (· = w.countedVotes) = true) <| by
    refine forall₂_congr fun w _ => imp_congr_right fun _ => ?_
    cases countedVotesOf w.votes (w.penaltyAfter l) <;> simp [returns]

/-- Charges that leave the counted votes alone leave the turns alone. -/
theorem VirtualClock.charge {p p' : PanelRest} {l : List (AccountName × Int)}
    (h : VirtualClock p) (hcharged : Charged l p.witnesses p'.witnesses)
    (htime : p'.time = p.time) (halike : CountsAlike l p.witnesses) : VirtualClock p' := by
  obtain ⟨hids, hnext⟩ := hcharged.keys PanelRow.id fun _ _ _ => rfl
  constructor
  · exact h.ids.of_ids hids hnext
  · exact h.owners.of_keys (hcharged.keys PanelRow.owner fun _ _ _ => rfl).1
  · rw [htime]
    exact h.time
  · intro y hy
    obtain ⟨x, hx, hyx, hin, hout⟩ := hcharged.row h.owners hy
    have hcounted : y.countedVotes = x.countedVotes := by
      by_cases hmem : x.owner ∈ l.map Prod.fst
      · obtain ⟨hpercent, hcount⟩ := hin hmem
        rw [hpercent] at hcount
        exact Except.ok.inj (hcount.symm.trans (halike x hx hmem))
      · rw [hout hmem]
    have hlast := congrArg PanelRow.lastUpdate hyx
    have hposition := congrArg PanelRow.position hyx
    have hscheduled := congrArg PanelRow.scheduledTime hyx
    rw [htime]
    exact (h.timely x hx).congr hcounted hlast hposition hscheduled

namespace Db

variable {db db' : Db}

/-- The witnesses that missed their slots before the block, each with the penalty for it. -/
def missCharges (db : Db) (b : SignedBlock) : List (AccountName × Int) :=
  match db.missedBlocks b with
  | .ok missed =>
    ((((List.range missed).map (· + 1)).map db.getScheduledWitness).filter (· ≠ b.witness)).map
      (·, db.medianProps.witnessMissPenaltyPercent)
  | .error _ => []

/-- The penalties that expire with the next round. -/
def duePenalties (db : Db) : List WitnessPenaltyExpireObject :=
  (orderBy (fun p q : WitnessPenaltyExpireObject => p.expires < q.expires)
    db.witnessPenaltyExpires.rows).filter fun p => p.expires ≤ db.headBlockTime

def dueCharges (db : Db) : List (AccountName × Int) :=
  db.duePenalties.map fun p => (p.witness, -p.penaltyPercent)

theorem missSlot_schedule {producer : AccountName} {slotNum : Nat}
    (h : missSlot producer db slotNum = .ok db') :
    db'.witnessSchedule = db.witnessSchedule ∧ db'.dgp = db.dgp := by
  simp only [missSlot, bind_eq_ok] at h
  obtain ⟨w, -, h⟩ := h
  split at h
  · rw [pure_eq_ok] at h
    rw [← h]
    exact ⟨rfl, rfl⟩
  · simp only [bind_eq_ok, pure_eq_ok] at h
    obtain ⟨_, -, rfl⟩ := h
    exact ⟨rfl, rfl⟩

theorem missSlot_charged {producer : AccountName} {slots : List Nat}
    (h : slots.foldlM (missSlot producer) db = .ok db') :
    Charged (((slots.map db.getScheduledWitness).filter (· ≠ producer)).map
      (·, db.medianProps.witnessMissPenaltyPercent)) db.panelBook.witnesses
      db'.panelBook.witnesses ∧ db'.panelBook.time = db.panelBook.time := by
  induction slots generalizing db with
  | nil =>
    cases h
    exact ⟨.nil _, rfl⟩
  | cons slot slots ih =>
    rw [List.foldlM_cons, bind_eq_ok] at h
    obtain ⟨db₁, hslot, h⟩ := h
    obtain ⟨hschedule, hdgp⟩ := missSlot_schedule hslot
    have hnames : db₁.getScheduledWitness = db.getScheduledWitness := by
      funext n
      unfold getScheduledWitness
      rw [hschedule, hdgp]
    have hprops : db₁.medianProps = db.medianProps := by
      unfold medianProps
      rw [hschedule]
    obtain ⟨hrest, htime⟩ := ih h
    rw [hnames, hprops] at hrest
    have htime₁ : db₁.panelBook.time = db.panelBook.time :=
      congrArg WitnessScheduleObject.currentVirtualTime hschedule
    refine ⟨?_, htime.trans htime₁⟩
    rw [List.map_cons]
    rcases missSlot_panelBook hslot with
      ⟨hproducer, hsame⟩ | ⟨w, penalty, counted, expires, hname, hne, hget, hpenalty, hcounted, hbook⟩
    · rw [List.filter_cons_of_neg (by simpa using hproducer), ← hsame]
      exact hrest
    · rw [← hname, List.filter_cons_of_pos (by simpa using hne), List.map_cons]
      have hrows := congrArg PanelRest.witnesses hbook
      rw [hrows] at hrest
      exact .cons w _ penalty counted hget hpenalty hcounted hrest

theorem updateGlobalDynamicData_charged {env : Env} {skip : Skip} {b : SignedBlock}
    (h : db.updateGlobalDynamicData env skip b = .ok db') :
    Charged (db.missCharges b) db.panelBook.witnesses db'.panelBook.witnesses ∧
      db'.panelBook.time = db.panelBook.time := by
  simp only [updateGlobalDynamicData, bind_eq_ok, pure_eq_ok] at h
  obtain ⟨missed, hmissed, db₁, hmiss, _, -, rfl⟩ := h
  have hcharged := missSlot_charged hmiss
  unfold missCharges
  rw [hmissed]
  exact hcharged

theorem expirePenalty_charged {l : List WitnessPenaltyExpireObject}
    (h : l.foldlM expirePenalty db = .ok db') :
    Charged (l.map fun p => (p.witness, -p.penaltyPercent)) db.panelBook.witnesses
      db'.panelBook.witnesses ∧ db'.panelBook.time = db.panelBook.time := by
  induction l generalizing db with
  | nil =>
    cases h
    exact ⟨.nil _, rfl⟩
  | cons x l ih =>
    rw [List.foldlM_cons, bind_eq_ok] at h
    obtain ⟨db₁, hx, h⟩ := h
    obtain ⟨w, penalty, counted, howner, hget, hpenalty, hcounted, hbook⟩ :=
      expirePenalty_panelBook hx
    obtain ⟨hrest, htime⟩ := ih h
    rw [hbook] at hrest htime
    rw [List.map_cons, ← howner]
    rw [sub_eq_add_neg] at hpenalty
    exact ⟨.cons w _ penalty counted hget hpenalty hcounted hrest, htime⟩

/-! ## Rounds -/

theorem panel_of_virtualClock (h : VirtualClock db.panelBook) : db.Panel := by
  have hids := h.ids.nodup
  have howners := h.owners
  simp only [panelBook, Table.image, Table.Keyed, List.map_map] at hids howners
  refine ⟨hids, howners, fun w hw => ?_⟩
  have hscheduled := (h.timely w.panel (List.mem_map_of_mem hw)).scheduled
  have hfits : w.panel.scheduledTime < 2 ^ 128 := by
    rw [hscheduled]
    omega
  exact hfits

/-- Those that the walk does not pass have their turn later than it reaches. -/
theorem later_of_not_passed {top support : List WitnessObject} {now : Nat}
    (hlast : ∃ w, db.Passed top support w ∧ w.virtualScheduledTime = now) {w : WitnessObject}
    (hw : w ∈ db.witnesses.rows) (hnot : ¬ db.Passed top support w) :
    now ≤ w.virtualScheduledTime := by
  obtain ⟨v, ⟨hv, hpassed⟩, rfl⟩ := hlast
  rcases hpassed with hroom | ⟨s, hs, hvs⟩
  · exact absurd ⟨hw, .inl hroom⟩ hnot
  · -- the walk ends at a support witness, and this one is not before it
    have hbefore : ¬ scheduledBefore w s = true := fun h => hnot ⟨hw, .inr ⟨s, hs, .inr h⟩⟩
    rw [scheduledBefore_iff] at hbefore
    rcases hvs with rfl | hvs
    · omega
    · rw [scheduledBefore_iff] at hvs
      omega

/-- After a round the clock of a witness is found by its name. -/
theorem clock_of_rank (hpanel : db.Panel) (hranks : db'.witnesses.image rank = db.witnesses.image rank)
    {y : PanelRow} (hy : y ∈ db'.panelBook.witnesses.rows) :
    ∃ w ∈ db.witnesses.rows, y.countedVotes = w.countedVotes ∧
      (db'.findWitness w.owner).map (·.clock) = some (y.lastUpdate, y.position, y.scheduledTime) := by
  obtain ⟨w', hw', rfl⟩ := List.mem_map.1 hy
  have hrows : db'.witnesses.rows.map rank = db.witnesses.rows.map rank := congrArg Table.rows hranks
  have hmem : rank w' ∈ db.witnesses.rows.map rank := by
    rw [← hrows]
    exact List.mem_map_of_mem hw'
  obtain ⟨w, hw, heq⟩ := List.mem_map.1 hmem
  simp only [rank, PanelRow.mk.injEq] at heq
  have howner : w.owner = w'.owner := heq.2.1
  have hkeyed : db'.witnesses.Keyed (·.owner) :=
    hpanel.owners.of_keys (rows_map_of_image hranks PanelRow.owner)
  refine ⟨w, hw, heq.2.2.2.2.1.symm, ?_⟩
  rw [howner]
  show (db'.witnesses.get (·.owner) w'.owner).map _ = _
  rw [hkeyed.get hw']
  rfl

/-- The clocks of the witnesses after a round. -/
theorem timely_of_round (hpanel : db.Panel)
    (htimely : ∀ w ∈ db.witnesses.rows, w.panel.Timely db.panelBook.time)
    (hranks : db'.witnesses.image rank = db.witnesses.image rank) {top support : List WitnessObject}
    (h : db.VirtualTime db' top support) :
    db'.panelBook.time < 2 ^ 128 ∧
      db'.panelBook.witnesses.All fun y => y.Timely db'.panelBook.time := by
  obtain ⟨now, hlast, -, hadvance, hreset⟩ := h
  -- the counted votes of a row are those of the witness that it belongs to
  have hcounted {y : PanelRow} {w : WitnessObject} (hw : w ∈ db.witnesses.rows)
      (hcount : y.countedVotes = w.countedVotes) :
      (0 ≤ y.countedVotes ∧ y.countedVotes < 2 ^ 63) ∧
        virtualScheduleLapLength / y.pace = w.lap := by
    refine ⟨hcount ▸ (htimely w hw).counted, ?_⟩
    unfold PanelRow.pace
    rw [hcount]
    rfl
  by_cases hfits : ∀ w, db.Passed top support w → now + w.lap < 2 ^ 128
  · obtain ⟨hcurrent, hpassed, hothers⟩ := hadvance hfits
    have htime : db'.panelBook.time = now := hcurrent
    have hstart : db.panelBook.time ≤ now := by
      obtain ⟨v, hv, rfl⟩ := hlast
      exact (htimely v hv.1).ahead
    rw [htime]
    constructor
    · obtain ⟨v, hv, rfl⟩ := hlast
      exact hpanel.times v hv.1
    · intro y hy
      obtain ⟨w, hw, hcount, hclock⟩ := clock_of_rank hpanel hranks hy
      obtain ⟨hrange, hlap⟩ := hcounted hw hcount
      by_cases hpass : db.Passed top support w
      · have heq := hclock.symm.trans (hpassed w hpass)
        simp only [Option.some.injEq, Prod.mk.injEq] at heq
        obtain ⟨hlast', hposition, hscheduled⟩ := heq
        refine .start hrange hlast' hposition ?_ ?_
        · rw [hlap]
          exact hscheduled
        · rw [hlap]
          exact hfits w hpass
      · have heq := hclock.symm.trans (hothers w hw hpass)
        simp only [WitnessObject.clock, Option.some.injEq, Prod.mk.injEq] at heq
        obtain ⟨hlast', hposition, hscheduled⟩ := heq
        have hlater := (htimely w hw).later hstart (later_of_not_passed hlast hw hpass)
        exact hlater.congr hcount hlast' hposition hscheduled
  · obtain ⟨hcurrent, hall⟩ := hreset (by simpa using hfits)
    have htime : db'.panelBook.time = 0 := hcurrent
    rw [htime]
    refine ⟨by decide, fun y hy => ?_⟩
    obtain ⟨w, hw, hcount, hclock⟩ := clock_of_rank hpanel hranks hy
    obtain ⟨hrange, hlap⟩ := hcounted hw hcount
    have heq := hclock.symm.trans (hall w hw)
    simp only [Option.some.injEq, Prod.mk.injEq] at heq
    obtain ⟨hlast', hposition, hscheduled⟩ := heq
    have hlt := lap_lt w
    refine .start hrange hlast' hposition ?_ ?_
    · rw [hlap, Nat.zero_add]
      exact hscheduled
    · rw [hlap, Nat.zero_add]
      exact hlt

/-- Without witnesses the virtual time stands still. -/
theorem time_of_no_witnesses {db₁ : Db} (hpenalties : db.expirePenalties = .ok db₁)
    (hrows : db₁.witnesses.rows = []) (h : db.scheduleWitnesses = .ok db') :
    db'.panelBook.time = db₁.panelBook.time := by
  obtain ⟨_, db₂, db₃, now, hpen, -, hvirtual, -, htime, -⟩ := scheduleWitnesses_parts h
  cases hpenalties.symm.trans hpen
  have hpassed : db₁.passedOf = [] := by
    unfold passedOf
    rw [hrows]
    rfl
  rw [hpassed] at hvirtual
  rcases updateVirtualSchedule_cases hvirtual with ⟨⟨w, hw, -⟩, -⟩ | ⟨-, hnow, -⟩
  · cases hw
  · refine htime.trans (hnow.trans ?_)
    unfold newVirtualTime
    rw [hpassed]
    rfl

/-- **Rounds** keep the turns where the positions and the speeds put them. -/
theorem scheduleWitnesses_virtualClock {db₁ : Db} (hpenalties : db.expirePenalties = .ok db₁)
    (hpanel : db.Panel) (hclock : VirtualClock db₁.panelBook) (h : db.scheduleWitnesses = .ok db') :
    VirtualClock db'.panelBook := by
  obtain ⟨_, hpen, hranks, -⟩ := scheduleWitnesses_ranks h
  cases hpenalties.symm.trans hpen
  have hids : db'.panelBook.witnesses.rows.map (·.id) = db₁.panelBook.witnesses.rows.map (·.id) := by
    simp only [panelBook, Table.image, List.map_map]
    exact rows_map_of_image hranks PanelRow.id
  have howners : db'.panelBook.witnesses.rows.map (·.owner) =
      db₁.panelBook.witnesses.rows.map (·.owner) := by
    simp only [panelBook, Table.image, List.map_map]
    exact rows_map_of_image hranks PanelRow.owner
  have hnext : (db'.witnesses.image rank).nextId = (db₁.witnesses.image rank).nextId :=
    congrArg Table.nextId hranks
  have hround : db'.panelBook.time < 2 ^ 128 ∧
      db'.panelBook.witnesses.All fun y => y.Timely db'.panelBook.time := by
    by_cases hrows : ∃ w, w ∈ db₁.witnesses.rows
    · exact timely_of_round (panel_of_virtualClock hclock)
        (fun w hw => hclock.timely w.panel (List.mem_map_of_mem hw)) hranks
        (scheduleWitnesses_virtualTime hpanel h hpenalties hrows)
    · have hempty : db₁.witnesses.rows = [] := List.eq_nil_iff_forall_not_mem.2 (not_exists.1 hrows)
      rw [time_of_no_witnesses hpenalties hempty h]
      refine ⟨hclock.time, fun y hy => ?_⟩
      obtain ⟨w, hw, -⟩ := clock_of_rank (panel_of_virtualClock hclock) hranks hy
      exact absurd ⟨w, hw⟩ hrows
  exact ⟨hclock.ids.of_ids hids hnext, hclock.owners.of_keys howners, hround.1, hround.2⟩

end Db

/-! ## Runs -/

/-- The penalties that a step adds or takes back. -/
def BlockStep.charges (db : Db) (b : SignedBlock) : BlockStep → List (AccountName × Int)
  | .updateGlobalDynamicData => db.missCharges b
  | .updateWitnessSchedule => if db.headBlockNum % maxWitnesses = 0 then db.dueCharges else []
  | _ => []

/-- Missed slots and expired penalties leave the votes that count as they are. -/
def Event.CountsAlike : Event → Prop
  | .operation _ _ _ => True
  | .step db b st _ => Chain.CountsAlike (st.charges db b) db.panelBook.witnesses

instance (e : Event) : Decidable e.CountsAlike :=
  match e with
  | .operation _ _ _ => inferInstanceAs (Decidable True)
  | .step db b st _ =>
    inferInstanceAs (Decidable (Chain.CountsAlike (st.charges db b) db.panelBook.witnesses))

theorem virtualClock_keepsBlock (env : Env) :
    KeepsBlock env Event.CountsAlike fun db => db.Stored env.fc ∧ VirtualClock db.panelBook := by
  refine PanelKept.keepsBlock ⟨fun h => h.revote, fun h => h.declare⟩ ?_ ?_
  · intro skip b db db' hC hdb h
    obtain ⟨hcharged, htime⟩ := Db.updateGlobalDynamicData_charged h
    exact hdb.charge hcharged htime hC
  · intro b db db' hC hdb h
    unfold Db.updateWitnessSchedule at h
    split at h
    · rename_i hround
      obtain ⟨db₁, hpenalties, -⟩ := Db.scheduleWitnesses_ranks h
      obtain ⟨hcharged, htime⟩ := Db.expirePenalty_charged hpenalties
      have halike : CountsAlike db.dueCharges db.panelBook.witnesses := by
        have hC' : Chain.CountsAlike (if db.headBlockNum % maxWitnesses = 0 then db.dueCharges
          else []) db.panelBook.witnesses := hC
        rwa [if_pos hround] at hC'
      have hclock := hdb.charge hcharged htime halike
      exact Db.scheduleWitnesses_virtualClock hpenalties (Db.panel_of_virtualClock hdb) hclock h
    · cases h
      exact hdb

/-- The turn of the witness in exact arithmetic: its position has not wrapped, and its scheduled
time is the time at which it completes the lap, or the maximal time if that does not fit. -/
structure PanelRow.OnTime (now : Nat) (w : PanelRow) : Prop where
  scheduled : w.scheduledTime = min
    (w.lastUpdate + (2 ^ 128 - 1 - w.position) / (w.countedVotes.toNat + 1)) (2 ^ 128 - 1)
  updated : w.lastUpdate ≤ now
  position : w.position + w.countedVotes.toNat * (now - w.lastUpdate) ≤ 2 ^ 128 - 1
  ahead : now ≤ w.scheduledTime

theorem PanelRow.Timely.onTime {now : Nat} {w : PanelRow} (h : w.Timely now)
    (hfits : w.countedVotes + 1 < 2 ^ 63) : w.OnTime now := by
  refine ⟨?_, h.last, h.position, h.ahead⟩
  rw [← pace_eq h.counted.1 hfits]
  exact h.scheduled

/-- **The virtual schedule** stays consistent: as long as no missed slot and no expired penalty
changes the votes that count, every witness whose speed fits in 64 bits has its turn where its
position and its speed put it. -/
theorem virtual_schedule_preserved (env : Env) :
    (Preserved env Event.CountsAlike fun db =>
      db.Stored env.fc ∧ VirtualClock db.panelBook) ∧
    ∀ db : Db, VirtualClock db.panelBook → ∀ w ∈ db.panelBook.witnesses.rows,
      w.countedVotes + 1 < 2 ^ 63 → w.OnTime db.panelBook.time :=
  ⟨(virtualClock_keepsBlock env).preserved,
    fun _ hdb w hw hfits => (hdb.timely w hw).onTime hfits⟩

instance (now : Nat) (w : PanelRow) : Decidable (w.OnTime now) :=
  decidable_of_iff
    (w.scheduledTime = min
        (w.lastUpdate + (2 ^ 128 - 1 - w.position) / (w.countedVotes.toNat + 1)) (2 ^ 128 - 1) ∧
      w.lastUpdate ≤ now ∧
      w.position + w.countedVotes.toNat * (now - w.lastUpdate) ≤ 2 ^ 128 - 1 ∧
      now ≤ w.scheduledTime)
    ⟨fun h => ⟨h.1, h.2.1, h.2.2.1, h.2.2.2⟩, fun h => ⟨h.1, h.2, h.3, h.4⟩⟩

/-- The witnesses alice and bob; the next slot is alice's. -/
def pairStore : Store :=
  let s := smallStore [{ id := 4, name := "bob" }]
  { s with
    db := { s.db with
      witnessSchedule :=
        { currentShuffledWitnesses := ["bob", "alice"], numScheduledWitnesses := 2
          nextShuffleBlockNum := 21 }
      witnesses :=
        ⟨[{ id := 0, owner := "alice", signingKey := 7 },
          { id := 1, owner := "bob", signingKey := 7 }], 2⟩ } }

theorem pairStore_virtualClock : VirtualClock pairStore.db.panelBook := by
  constructor
  · exact ⟨by decide +kernel, by decide +kernel⟩
  · unfold Table.Keyed
    decide +kernel
  · decide +kernel
  · intro w hw
    have hfresh : w = .fresh 0 "alice" ∨ w = .fresh 1 "bob" := by
      simpa [pairStore, Db.panelBook, Table.image, WitnessObject.panel, PanelRow.fresh] using hw
    rcases hfresh with rfl | rfl
    · exact .fresh 0 "alice" (by decide)
    · exact .fresh 1 "bob" (by decide)

/-- alice votes for herself in her own slot. -/
def votingBlock : SignedBlock :=
  smallBlock [.accountWitnessVote { account := "alice", witness := "alice", approve := true }]

theorem virtual_schedule_preserved_vote :
    ∃ s', (pairStore.applyBlocks smallEnv 2 { merkleCheck := true } [votingBlock] 0).2 = .ok s' ∧
      ∃ w ∈ s'.db.panelBook.witnesses.rows, w.countedVotes = 1000000 ∧
        w.OnTime s'.db.panelBook.time := by
  have hrun : returns (pairStore.applyBlocks smallEnv 2 { merkleCheck := true } [votingBlock] 0).2
      (fun s' => s'.db.panelBook.witnesses.rows.any fun w => decide (w.countedVotes = 1000000)) =
        true := by
    decide +kernel
  have hevents : ∀ e ∈ (pairStore.applyBlocks smallEnv 2 { merkleCheck := true }
      [votingBlock] 0).1, e.CountsAlike := by
    decide +kernel
  obtain ⟨s', hs', hany⟩ := returns_eq_true hrun
  obtain ⟨w, hw, hcounted⟩ : ∃ w ∈ s'.db.panelBook.witnesses.rows, w.countedVotes = 1000000 := by
    simpa using hany
  have hstored : pairStore.db.Stored smallEnv.fc := by
    intro p hp
    change p ∈ [] at hp
    cases hp
  obtain ⟨hpreserved, hexact⟩ := virtual_schedule_preserved smallEnv
  have hclock := (hpreserved.blocks 2 _ _ _ 0 s' rfl ⟨hstored, pairStore_virtualClock⟩ hevents
    hs').2
  refine ⟨s', hs', w, hw, hcounted, hexact _ hclock w hw ?_⟩
  rw [hcounted]
  decide

/-- bob's block skips alice's slot and holds alice's vote for herself. -/
def skippingBlock : SignedBlock :=
  { smallBlock [.accountWitnessVote { account := "alice", witness := "alice", approve := true }] with
    timestamp := 36, witness := "bob" }

/-- The penalty lowers alice's counted votes, and her turn stays where it was. -/
theorem turn_behind_votes :
    (∀ w ∈ pairStore.db.panelBook.witnesses.rows, w.OnTime pairStore.db.panelBook.time) ∧
    ∃ s', (pairStore.applyBlocks smallEnv 2 { merkleCheck := true } [skippingBlock] 0).2 = .ok s' ∧
      ∃ w ∈ s'.db.panelBook.witnesses.rows, ¬ w.OnTime s'.db.panelBook.time := by
  have hrun : returns (pairStore.applyBlocks smallEnv 2 { merkleCheck := true } [skippingBlock] 0).2
      (fun s' => s'.db.panelBook.witnesses.rows.any fun w =>
        decide (¬ w.OnTime s'.db.panelBook.time)) = true := by
    decide +kernel
  obtain ⟨s', hs', hany⟩ := returns_eq_true hrun
  refine ⟨by decide +kernel, s', hs', ?_⟩
  simpa using hany

end VizCore.Chain
