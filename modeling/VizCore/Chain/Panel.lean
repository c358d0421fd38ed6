import VizCore.Chain.Block.Rounds
import VizCore.Chain.Invariant

/-!
# The panel of witnesses

What changes the votes, the penalties and the virtual times of the witnesses.  Every change of
votes goes through `adjust_witness_vote`, one witness at a time; penalties come and go with
missed slots and rounds.

* `Revote`: the votes of one witness change;
* `adjustProxiedWitnessVotes_revotes`, `withdrawLoop_revotes` and so on: whatever moves votes is a
  sequence of such changes;
* `penalty_ledger_preserved`: the penalty of a witness is the sum of those that have not expired,
  and the votes that count are its votes less that penalty.
-/

namespace VizCore.Chain

open VizCore.Lib VizCore.Protocol

/-- The panel, the penalties and the virtual time. -/
def Db.panelBook (db : Db) : PanelRest :=
  ⟨db.witnesses.image WitnessObject.panel, db.witnessPenaltyExpires,
    db.witnessSchedule.currentVirtualTime⟩

/-- The turn after a lap from `now`; a time that overflows is the maximal one. -/
def turnAfter (now lap : Nat) : Nat :=
  if (now + lap) % 2 ^ 128 < now then 2 ^ 128 - 1 else (now + lap) % 2 ^ 128

/-- What a witness's counted votes divide a lap by. -/
def PanelRow.pace (w : PanelRow) : Nat := toUint128 (wrapInt64 (w.countedVotes + 1))

/-- What a change of its votes does to a witness at the virtual time `now`. -/
structure PanelRow.Adjusted (now : Nat) (w w' : PanelRow) : Prop where
  id : w'.id = w.id
  owner : w'.owner = w.owner
  penalty : w'.penaltyPercent = w.penaltyPercent
  votes : 0 ≤ w'.votes ∧ w'.votes < 2 ^ 63
  counted : countedVotesOf w'.votes w'.penaltyPercent = .ok w'.countedVotes
  lastUpdate : w'.lastUpdate = now
  position : w'.position = (w.position +
    toUint128 w.countedVotes * ((now + 2 ^ 128 - w.lastUpdate) % 2 ^ 128)) % 2 ^ 128
  scheduled : w'.scheduledTime =
    turnAfter now ((virtualScheduleLapLength - w'.position) / w'.pace)

/-- The votes of one witness change. -/
inductive Revote (p : PanelRest) : PanelRest → Prop
  | intro (k : Nat) (w w' : PanelRow) (hw : p.witnesses.get (·.id) k = some w)
      (h : w.Adjusted p.time w') :
      Revote p { p with witnesses := p.witnesses.update (·.id) k fun _ => w' }

/-- Votes of any number of witnesses change. -/
def Revotes (db db' : Db) : Prop := Relation.ReflTransGen Revote db.panelBook db'.panelBook

theorem Db.panelBook_of_core {db db' : Db} (h : db'.core = db.core) :
    db'.panelBook = db.panelBook :=
  congrArg (fun c : Core => PanelRest.mk c.panel c.penalties c.virtualTime) h

namespace Revotes

variable {db db₁ db' : Db}

theorem refl (db : Db) : Revotes db db := Relation.ReflTransGen.refl

theorem trans (h : Revotes db db₁) (h' : Revotes db₁ db') : Revotes db db' :=
  Relation.ReflTransGen.trans h h'

theorem same (h : db'.panelBook = db.panelBook) : Revotes db db' := by
  unfold Revotes
  rw [h]

theorem of_core (h : db'.core = db.core) : Revotes db db' := same (Db.panelBook_of_core h)

theorem foldlM {α σ : Type} {f : σ → α → Result σ} (φ : σ → Db) {l : List α} {s s' : σ}
    (hf : ∀ x s s', f s x = .ok s' → Revotes (φ s) (φ s')) (h : l.foldlM f s = .ok s') :
    Revotes (φ s) (φ s') :=
  foldlM_invariant (fun s₁ => Revotes (φ s) (φ s₁)) f l
    (fun x _ s₁ s₂ hs hx => hs.trans (hf x s₁ s₂ hx)) s s' (refl _) h

end Revotes

namespace Db

variable {db db' : Db} {name : AccountName}

/-! ## Votes -/

theorem adjustedWitness_adjusted {w w' : WitnessObject} {delta : Int}
    (h : db.adjustedWitness w delta = .ok w') :
    w.panel.Adjusted db.witnessSchedule.currentVirtualTime w'.panel := by
  simp only [adjustedWitness, bind_eq_ok, safeAdd_eq_ok, pure_eq_ok] at h
  obtain ⟨sum, ⟨hsum, rfl⟩, counted, hcounted, _, -, rfl⟩ := h
  have hvotes : max (w.votes + delta) 0 < 2 ^ 63 := by
    have hlt : w.votes + delta < 2 ^ 63 := hsum.2
    omega
  exact ⟨rfl, rfl, rfl, ⟨le_max_right _ _, hvotes⟩, hcounted, rfl, rfl, rfl⟩

theorem adjustWitnessVote_revotes {witness : Nat} {delta : Int}
    (h : db.adjustWitnessVote witness delta = .ok db') : Revotes db db' := by
  simp only [adjustWitnessVote, bind_eq_ok, getOrThrow_eq_ok, pure_eq_ok] at h
  obtain ⟨w, hw, w', hw', rfl⟩ := h
  have hget : db.panelBook.witnesses.get (·.id) witness = some w.panel := by
    show (db.witnesses.image WitnessObject.panel).get (·.id) witness = _
    rw [Table.get_image]
    exact congrArg (Option.map WitnessObject.panel) hw
  have hrows : (db.witnesses.update (·.id) witness fun _ => w').image WitnessObject.panel =
      (db.witnesses.image WitnessObject.panel).update (·.id) witness fun _ => w'.panel :=
    Table.image_update db.witnesses WitnessObject.panel (·.id) witness _ _ fun _ => rfl
  refine Relation.ReflTransGen.single ?_
  unfold panelBook
  rw [hrows]
  exact .intro witness w.panel w'.panel hget (adjustedWitness_adjusted hw')

theorem adjustWitnessVotes_revotes {delta : Int} (h : db.adjustWitnessVotes name delta = .ok db') :
    Revotes db db' := by
  simp only [adjustWitnessVotes, bind_eq_ok] at h
  obtain ⟨a, -, h⟩ := h
  split at h
  · simp only [bind_eq_ok] at h
    obtain ⟨fair, -, weight, -, h⟩ := h
    have hstart : Revotes db (db.modifyAccount name fun a =>
        { a with witnessesVoteWeight := weight }) := .same rfl
    exact hstart.trans (.foldlM (fun s => s) (fun _ _ _ hv => adjustWitnessVote_revotes hv) h)
  · rw [pure_eq_ok] at h
    exact h ▸ Revotes.refl db

theorem adjustProxiedWitnessVotes_revotes {delta : Int} {levels : Nat}
    (h : adjustProxiedWitnessVotes delta levels db name = .ok db') : Revotes db db' := by
  induction levels generalizing db name with
  | zero =>
    simp only [adjustProxiedWitnessVotes, bind_eq_ok] at h
    obtain ⟨a, -, h⟩ := h
    split at h
    · exact adjustWitnessVotes_revotes h
    · rw [pure_eq_ok] at h
      exact h ▸ Revotes.refl db
  | succ levels ih =>
    simp only [adjustProxiedWitnessVotes, bind_eq_ok] at h
    obtain ⟨a, -, h⟩ := h
    split at h
    · exact adjustWitnessVotes_revotes h
    · simp only [bind_eq_ok] at h
      obtain ⟨proxy, -, votes, -, h⟩ := h
      refine Revotes.trans ?_ (ih h)
      exact .same rfl

theorem adjustProxiedWitnessVotesArray_revotes {delta : List Int} {levels : Nat}
    (h : adjustProxiedWitnessVotesArray delta levels db name = .ok db') : Revotes db db' := by
  induction levels generalizing db name with
  | zero =>
    simp only [adjustProxiedWitnessVotesArray, bind_eq_ok] at h
    obtain ⟨a, -, h⟩ := h
    split at h
    · exact adjustWitnessVotes_revotes h
    · rw [pure_eq_ok] at h
      exact h ▸ Revotes.refl db
  | succ levels ih =>
    simp only [adjustProxiedWitnessVotesArray, bind_eq_ok] at h
    obtain ⟨a, -, h⟩ := h
    split at h
    · rw [bind_eq_ok] at h
      obtain ⟨total, -, h⟩ := h
      exact adjustWitnessVotes_revotes h
    · simp only [bind_eq_ok] at h
      obtain ⟨proxy, -, votes, -, h⟩ := h
      refine Revotes.trans ?_ (ih h)
      exact .same rfl

theorem createVesting_revotes {tokens : Int} (h : db.createVesting name tokens = .ok db') :
    Revotes db db' := by
  simp only [createVesting, bind_eq_ok] at h
  obtain ⟨v, -, a, -, shares, -, fund, -, total, -, hvotes⟩ := h
  refine Revotes.trans ?_ (adjustProxiedWitnessVotes_revotes hvotes)
  exact .same rfl

/-! ## Operations -/

theorem clearProxy_revotes (h : db.clearProxy name = .ok db') : Revotes db db' := by
  simp only [clearProxy, bind_eq_ok] at h
  obtain ⟨a, -, h⟩ := h
  split at h
  · rw [pure_eq_ok] at h
    exact h ▸ Revotes.refl db
  · simp only [bind_eq_ok, pure_eq_ok] at h
    obtain ⟨removed, -, db₁, hremove, rfl⟩ := h
    exact (adjustProxiedWitnessVotesArray_revotes hremove).trans (.same rfl)

theorem accountWitnessProxy_revotes {o : AccountWitnessProxyOperation}
    (h : db.accountWitnessProxy o = .ok db') : Revotes db db' := by
  simp only [accountWitnessProxy, bind_eq_ok] at h
  obtain ⟨account, -, _, -, removed, -, db₁, hremove, h⟩ := h
  refine (adjustProxiedWitnessVotesArray_revotes hremove).trans ?_
  split at h
  · rw [pure_eq_ok] at h
    exact h ▸ Revotes.same rfl
  · simp only [bind_eq_ok, clearWitnessVotes, pure_eq_ok] at h
    obtain ⟨newProxy, -, _, -, db₂, ⟨_, -, rfl⟩, added, -, hadd⟩ := h
    refine Revotes.trans ?_ (adjustProxiedWitnessVotesArray_revotes hadd)
    exact .same rfl

theorem adjustVotesOf_revotes {account : Nat} {delta : Int}
    (h : db.adjustVotesOf account delta = .ok db') : Revotes db db' :=
  .foldlM (fun s => s) (fun _ _ _ hv => adjustWitnessVote_revotes hv) h

theorem reweighVotes_revotes {count : Nat → Nat} (h : db.reweighVotes name count = .ok db') :
    Revotes db db' := by
  simp only [reweighVotes, bind_eq_ok] at h
  obtain ⟨_, -, weight, -, h⟩ := h
  refine Revotes.trans ?_ (adjustVotesOf_revotes h)
  exact .same rfl

theorem accountWitnessVote_revotes {o : AccountWitnessVoteOperation}
    (h : db.accountWitnessVote o = .ok db') : Revotes db db' := by
  simp only [accountWitnessVote, bind_eq_ok] at h
  obtain ⟨db₁, hproxy, voter, -, witness, -, weight, -, h⟩ := h
  refine (clearProxy_revotes hproxy).trans ?_
  split at h
  · simp only [bind_eq_ok] at h
    obtain ⟨_, -, _, -, db₂, hvotes, h⟩ := h
    refine (adjustVotesOf_revotes hvotes).trans (Revotes.trans ?_ (reweighVotes_revotes h))
    exact .same rfl
  · simp only [bind_eq_ok] at h
    obtain ⟨_, -, db₂, hvotes, h⟩ := h
    refine (adjustVotesOf_revotes hvotes).trans (Revotes.trans ?_ (reweighVotes_revotes h))
    exact .same rfl

/-! ## Steps -/

theorem redeemVesting_revotes {tokens shares : Int} (h : db.redeemVesting tokens shares = .ok db') :
    Revotes db db' := by
  simp only [redeemVesting, bind_eq_ok, pure_eq_ok] at h
  obtain ⟨_, -, _, -, rfl⟩ := h
  exact .same rfl

theorem depositShares_revotes {amount : Int} {s s' : Int × Db} {r : WithdrawVestingRouteObject}
    (h : depositShares amount s r = .ok s') : Revotes s.2 s'.2 := by
  unfold depositShares at h
  split at h
  · simp only [bind_eq_ok] at h
    obtain ⟨deposit, -, total, -, h⟩ := h
    split at h
    · simp only [addVestingShares, bind_eq_ok, pure_eq_ok] at h
      obtain ⟨a, -, db₁, ⟨b, -, _, -, hvotes⟩, rfl⟩ := h
      refine Revotes.trans ?_ (adjustProxiedWitnessVotes_revotes hvotes)
      exact .same rfl
    · rw [pure_eq_ok] at h
      exact h ▸ Revotes.refl _
  · cases h
    exact Revotes.refl _

theorem depositTokens_revotes {amount : Int} {s s' : Int × Db} {r : WithdrawVestingRouteObject}
    (h : depositTokens amount s r = .ok s') : Revotes s.2 s'.2 := by
  unfold depositTokens at h
  split at h
  · cases h
    exact Revotes.refl _
  · simp only [bind_eq_ok] at h
    obtain ⟨a, -, deposit, -, total, -, tokens, -, h⟩ := h
    split at h
    · simp only [bind_eq_ok, pure_eq_ok] at h
      obtain ⟨db₁, hpay, db₂, hredeem, rfl⟩ := h
      exact (Revotes.of_core (adjustBalance_core hpay)).trans (redeemVesting_revotes hredeem)
    · rw [pure_eq_ok] at h
      exact h ▸ Revotes.refl _

theorem withdrawFrom_revotes {a : AccountObject} (h : db.withdrawFrom a = .ok db') :
    Revotes db db' := by
  simp only [withdrawFrom, bind_eq_ok] at h
  obtain ⟨amount, -, ⟨vested, db₁⟩, hvested, ⟨paid, db₂⟩, hpaid, _, -, _, -, tokens, -, _, -,
    db₃, henergy, db₄, hfinish, db₅, hredeem, h⟩ := h
  have h₁ : Revotes db db₁ :=
    Revotes.foldlM (fun s : Int × Db => s.2) (fun _ _ _ hs => depositShares_revotes hs) hvested
  have h₂ : Revotes db₁ db₂ :=
    Revotes.foldlM (fun s : Int × Db => s.2) (fun _ _ _ hs => depositTokens_revotes hs) hpaid
  have h₃ : Revotes db₂ db₃ := .of_core (sharesSenderRecalcEnergy_core henergy)
  have h₄ : Revotes db₃ db₄ := by
    simp only [finishWithdrawal, bind_eq_ok, pure_eq_ok] at hfinish
    obtain ⟨_, -, _, -, _, -, _, -, rfl⟩ := hfinish
    exact .same rfl
  have h₅ : Revotes db db₅ :=
    (((h₁.trans h₂).trans h₃).trans h₄).trans (redeemVesting_revotes hredeem)
  split at h
  · exact h₅.trans (adjustProxiedWitnessVotes_revotes h)
  · rw [pure_eq_ok] at h
    exact h ▸ h₅

theorem withdrawLoop_revotes {fuel : Nat} {next : Option AccountName}
    (h : withdrawLoop fuel db next = .ok db') : Revotes db db' := by
  induction fuel generalizing db next with
  | zero => cases h
  | succ fuel ih =>
    cases next with
    | none =>
      cases h
      exact Revotes.refl _
    | some n =>
      simp only [withdrawLoop, bind_eq_ok] at h
      obtain ⟨a, -, h⟩ := h
      split at h
      · simp only [bind_eq_ok] at h
        obtain ⟨db₁, hstep, hrest⟩ := h
        exact (withdrawFrom_revotes hstep).trans (ih hrest)
      · rw [pure_eq_ok] at h
        exact h ▸ Revotes.refl db

/-- The votes of a system account stay where they are. -/
theorem drainAccount_panelBook {total : Int} (h : db.drainAccount name = .ok (total, db')) :
    db'.panelBook = db.panelBook := by
  simp only [drainAccount, bind_eq_ok] at h
  obtain ⟨⟨balance, db₁⟩, hbalance, ⟨tokens, db₂⟩, hshares, h⟩ := h
  simp only [pure_eq_ok, Prod.mk.injEq] at h
  obtain ⟨_, -, -, rfl⟩ := h
  have h₁ : db₁.panelBook = db.panelBook := by
    simp only [drainBalance, bind_eq_ok] at hbalance
    obtain ⟨a, -, h⟩ := hbalance
    split at h
    · simp only [bind_eq_ok, pure_eq_ok, Prod.mk.injEq] at h
      obtain ⟨db₃, hpay, -, rfl⟩ := h
      exact panelBook_of_core (adjustBalance_core hpay)
    · simp only [pure_eq_ok, Prod.mk.injEq] at h
      exact h.2 ▸ rfl
  refine Eq.trans ?_ h₁
  simp only [drainShares, redeemVesting, bind_eq_ok] at hshares
  obtain ⟨a, -, h⟩ := hshares
  split at h
  · simp only [bind_eq_ok, pure_eq_ok, Prod.mk.injEq] at h
    obtain ⟨_, -, db₃, ⟨_, -, _, -, rfl⟩, -, rfl⟩ := h
    rfl
  · simp only [pure_eq_ok, Prod.mk.injEq] at h
    exact h.2 ▸ rfl

theorem burnBalance_panelBook (h : db.burnBalance name = .ok db') :
    db'.panelBook = db.panelBook := by
  simp only [burnBalance, bind_eq_ok] at h
  obtain ⟨⟨total, db₁⟩, hdrain, h⟩ := h
  refine Eq.trans ?_ (drainAccount_panelBook hdrain)
  split at h
  · exact panelBook_of_core (burnAsset_core h)
  · rw [pure_eq_ok] at h
    exact h ▸ rfl

theorem claimCommitteeAccountBalance_panelBook (h : db.claimCommitteeAccountBalance = .ok db') :
    db'.panelBook = db.panelBook := by
  simp only [claimCommitteeAccountBalance, bind_eq_ok] at h
  obtain ⟨⟨total, db₁⟩, hdrain, h⟩ := h
  refine Eq.trans ?_ (drainAccount_panelBook hdrain)
  split at h
  · exact panelBook_of_core (addCommitteeFund_core h)
  · rw [pure_eq_ok] at h
    exact h ▸ rfl

/-! ## Penalties -/

end Db

def PanelRow.withPenalty (penalty : Nat) (counted : Int) (w : PanelRow) : PanelRow :=
  { w with penaltyPercent := penalty, countedVotes := counted }

/-- A witness gets a penalty for a missed slot, or a penalty has expired. -/
inductive Repenalize (p : PanelRest) : PanelRest → Prop
  | miss (w : PanelRow) (percent : Int) (penalty : Nat) (counted : Int) (expires : TimePointSec)
      (hw : p.witnesses.get (·.owner) w.owner = some w)
      (hpenalty : penalty = ((w.penaltyPercent + percent : Int) % 2 ^ 32).toNat)
      (hcounted : countedVotesOf w.votes penalty = .ok counted) :
      Repenalize p { p with
        witnesses := p.witnesses.update (·.owner) w.owner (.withPenalty penalty counted)
        penalties := p.penalties.create fun id => ⟨id, w.owner, percent, expires⟩ }
  | expire (w : PanelRow) (x : WitnessPenaltyExpireObject) (penalty : Nat) (counted : Int)
      (hw : p.witnesses.get (·.owner) w.owner = some w) (hx : p.penalties.get (·.id) x.id = some x)
      (howner : x.witness = w.owner)
      (hpenalty : penalty = ((w.penaltyPercent - x.penaltyPercent : Int) % 2 ^ 32).toNat)
      (hcounted : countedVotesOf w.votes penalty = .ok counted) :
      Repenalize p { p with
        witnesses := p.witnesses.update (·.owner) w.owner (.withPenalty penalty counted)
        penalties := p.penalties.erase (·.id) x.id }

/-- Penalties come and go. -/
def Repenalizes (db db' : Db) : Prop := Relation.ReflTransGen Repenalize db.panelBook db'.panelBook

namespace Db

variable {db db' : Db} {name : AccountName}

theorem panelBook_get {w : WitnessObject} (h : db.getWitness name = .ok w) :
    db.panelBook.witnesses.get (·.owner) w.panel.owner = some w.panel ∧ w.owner = name := by
  have hget : db.witnesses.get (·.owner) name = some w := (getOrThrow_eq_ok _ _ _).1 h
  have hname : w.owner = name := Table.get_key hget
  refine ⟨?_, hname⟩
  show (db.witnesses.image WitnessObject.panel).get (·.owner) w.owner = _
  rw [hname, Table.get_image]
  exact congrArg (Option.map WitnessObject.panel) hget

theorem panelRows_update (t : Table WitnessObject) (name : AccountName)
    (f : WitnessObject → WitnessObject) (φ : PanelRow → PanelRow)
    (h : ∀ w, (f w).panel = φ w.panel) :
    (t.update (·.owner) name f).image WitnessObject.panel =
      (t.image WitnessObject.panel).update (·.owner) name φ :=
  Table.image_update t WitnessObject.panel (·.owner) name f φ h

/-- A missed slot costs the witness a penalty, unless it produces the block. -/
theorem missSlot_panelBook {producer : AccountName} {slotNum : Nat}
    (h : missSlot producer db slotNum = .ok db') :
    (db.getScheduledWitness slotNum = producer ∧ db'.panelBook = db.panelBook) ∨
    ∃ w penalty counted expires, w.owner = db.getScheduledWitness slotNum ∧ w.owner ≠ producer ∧
      db.panelBook.witnesses.get (·.owner) w.owner = some w ∧
      penalty = ((w.penaltyPercent + db.medianProps.witnessMissPenaltyPercent : Int) %
        2 ^ 32).toNat ∧
      countedVotesOf w.votes penalty = .ok counted ∧
      db'.panelBook = { db.panelBook with
        witnesses := db.panelBook.witnesses.update (·.owner) w.owner (.withPenalty penalty counted)
        penalties := db.panelBook.penalties.create fun id =>
          ⟨id, w.owner, db.medianProps.witnessMissPenaltyPercent, expires⟩ } := by
  simp only [missSlot, bind_eq_ok] at h
  generalize db.getScheduledWitness slotNum = name at h ⊢
  obtain ⟨w, hw, h⟩ := h
  obtain ⟨hget, rfl⟩ := panelBook_get hw
  split at h
  · rename_i hproducer
    rw [pure_eq_ok] at h
    refine .inl ⟨hproducer, ?_⟩
    rw [← h]
    have hpanels := Table.image_update_of_same db.witnesses WitnessObject.panel (·.owner) w.owner
      (fun w => { w with currentRun := 0 }) fun _ => rfl
    show PanelRest.mk ((db.witnesses.update (·.owner) w.owner _).image WitnessObject.panel) _ _ = _
    rw [hpanels]
    rfl
  · rename_i hproducer
    simp only [bind_eq_ok, pure_eq_ok] at h
    obtain ⟨counted, hcounted, rfl⟩ := h
    refine .inr ⟨w.panel, _, counted,
      (db.headBlockTime + db.medianProps.witnessMissPenaltyDuration) % 2 ^ 32, rfl, hproducer, hget,
      rfl, hcounted, ?_⟩
    show PanelRest.mk ((db.witnesses.update (·.owner) w.owner _).image WitnessObject.panel) _ _ = _
    rw [panelRows_update db.witnesses w.owner _ (.withPenalty _ counted)]
    · rfl
    · exact fun _ => rfl

theorem missSlot_repenalizes {producer : AccountName} {slotNum : Nat}
    (h : missSlot producer db slotNum = .ok db') : Repenalizes db db' := by
  unfold Repenalizes
  rcases missSlot_panelBook h with
    ⟨-, hsame⟩ | ⟨w, penalty, counted, expires, -, -, hget, hpenalty, hcounted, hbook⟩
  · rw [hsame]
  · rw [hbook]
    exact Relation.ReflTransGen.single (.miss w _ penalty counted expires hget hpenalty hcounted)

theorem updateGlobalDynamicData_repenalizes {env : Env} {skip : Skip} {b : SignedBlock}
    (h : db.updateGlobalDynamicData env skip b = .ok db') : Repenalizes db db' := by
  simp only [updateGlobalDynamicData, bind_eq_ok, pure_eq_ok] at h
  obtain ⟨missed, -, db₁, hmiss, _, -, rfl⟩ := h
  exact foldlM_invariant (Repenalizes db) _ _
    (fun _ _ _ _ hs hstep => Relation.ReflTransGen.trans hs (missSlot_repenalizes hstep)) db db₁
    Relation.ReflTransGen.refl hmiss

theorem expirePenalty_panelBook {x : WitnessPenaltyExpireObject}
    (h : db.expirePenalty x = .ok db') :
    ∃ w penalty counted, w.owner = x.witness ∧
      db.panelBook.witnesses.get (·.owner) w.owner = some w ∧
      penalty = ((w.penaltyPercent - x.penaltyPercent : Int) % 2 ^ 32).toNat ∧
      countedVotesOf w.votes penalty = .ok counted ∧
      db'.panelBook = { db.panelBook with
        witnesses := db.panelBook.witnesses.update (·.owner) w.owner (.withPenalty penalty counted)
        penalties := db.panelBook.penalties.erase (·.id) x.id } := by
  simp only [expirePenalty, bind_eq_ok, pure_eq_ok] at h
  obtain ⟨w, hw, counted, hcounted, rfl⟩ := h
  obtain ⟨hget, hname⟩ := panelBook_get hw
  refine ⟨w.panel, _, counted, hname, hget, rfl, hcounted, ?_⟩
  rw [show w.panel.owner = x.witness from hname]
  show PanelRest.mk ((db.witnesses.update (·.owner) x.witness _).image WitnessObject.panel) _ _ = _
  rw [panelRows_update db.witnesses x.witness _ (.withPenalty _ counted)]
  · rfl
  · exact fun _ => rfl

theorem expirePenalty_foldlM {l : List WitnessPenaltyExpireObject}
    (hids : db.witnessPenaltyExpires.Numbered (·.id)) (hl : (l.map (·.id)).Nodup)
    (hmem : ∀ x ∈ l, x ∈ db.witnessPenaltyExpires.rows) (h : l.foldlM expirePenalty db = .ok db') :
    Repenalizes db db' := by
  induction l generalizing db with
  | nil =>
    cases h
    exact Relation.ReflTransGen.refl
  | cons x l ih =>
    rw [List.foldlM_cons, bind_eq_ok] at h
    obtain ⟨db₁, hx, h⟩ := h
    rw [List.map_cons, List.nodup_cons] at hl
    obtain ⟨w, penalty, counted, howner, hget, hpenalty, hcounted, hbook⟩ :=
      expirePenalty_panelBook hx
    have hmove := Repenalize.expire w x penalty counted hget (hids.get (hmem x List.mem_cons_self))
      howner.symm hpenalty hcounted
    have htable : db₁.witnessPenaltyExpires = db.witnessPenaltyExpires.erase (·.id) x.id :=
      congrArg PanelRest.penalties hbook
    rw [← hbook] at hmove
    refine Relation.ReflTransGen.head hmove (ih ?_ hl.2 ?_ h)
    · rw [htable]
      exact hids.erase _ _
    · intro y hy
      rw [htable]
      refine Table.mem_erase_of_ne (hmem y (List.mem_cons_of_mem x hy)) fun heq => ?_
      exact hl.1 (heq ▸ List.mem_map_of_mem hy)

/-- The penalties that are due are taken back one after another. -/
theorem expirePenalties_repenalizes (hids : db.witnessPenaltyExpires.Numbered (·.id))
    (h : db.expirePenalties = .ok db') : Repenalizes db db' := by
  have hperm := orderBy_perm (fun p q : WitnessPenaltyExpireObject => p.expires < q.expires)
    db.witnessPenaltyExpires.rows
  refine expirePenalty_foldlM hids ?_ ?_ h
  · have hnodup := (hperm.map (·.id)).nodup_iff.2 hids.nodup
    exact hnodup.sublist (List.filter_sublist.map _)
  · intro x hx
    exact hperm.mem_iff.1 (List.mem_of_mem_filter hx)

/-- What a round leaves of the panel: all but the virtual times. -/
def rank (w : WitnessObject) : PanelRow :=
  { w.panel with lastUpdate := 0, position := 0, scheduledTime := 0 }

theorem updateVirtualSchedule_penalties {now now' : Nat} {passed : List WitnessObject}
    (h : db.updateVirtualSchedule now passed = .ok (now', db')) :
    db'.witnessPenaltyExpires = db.witnessPenaltyExpires := by
  simp only [updateVirtualSchedule, bind_eq_ok] at h
  obtain ⟨times, -, h⟩ := h
  split at h
  · simp only [resetVirtualScheduleTime, bind_eq_ok, pure_eq_ok, Prod.mk.injEq] at h
    obtain ⟨_, ⟨_, -, rfl⟩, -, rfl⟩ := h
    rfl
  · simp only [pure_eq_ok, Prod.mk.injEq] at h
    rw [← h.2]
    show Core.penalties (Db.core _) = Core.penalties (Db.core _)
    exact foldl_part (setVirtualTime now) (fun _ _ => rfl) _ db

theorem setSchedule_penalties (kind : WitnessScheduleType) (l : List WitnessObject) (db : Db) :
    (l.foldl (setSchedule kind) db).witnessPenaltyExpires = db.witnessPenaltyExpires := by
  show Core.penalties (Db.core _) = Core.penalties (Db.core _)
  exact foldl_part (setSchedule kind) (fun _ _ => rfl) l db

theorem scheduleWitnesses_ranks (h : db.scheduleWitnesses = .ok db') :
    ∃ db₁, db.expirePenalties = .ok db₁ ∧ db'.witnesses.image rank = db₁.witnesses.image rank ∧
      db'.witnessPenaltyExpires = db₁.witnessPenaltyExpires := by
  have hparts := scheduleWitnesses_parts h
  obtain ⟨db₁, db₂, db₃, now, hpenalties, rfl, hvirtual, hwitnesses, -⟩ := hparts
  refine ⟨db₁, hpenalties, ?_, ?_⟩
  · rw [hwitnesses, updateVirtualSchedule_image rank (fun _ _ _ _ => rfl) hvirtual]
    exact setSchedules_image rank (fun _ _ => rfl) db₁ _ _
  · simp only [scheduleWitnesses, hpenalties, bind_eq_ok, Except.ok.injEq, exists_eq_left'] at h
    obtain ⟨⟨now', db₄⟩, hvirtual', _, -, scheduled, -, hmedian⟩ := h
    simp only [updateMedianWitnessProps, setScheduledWitnesses, bind_eq_ok, pure_eq_ok] at hmedian
    obtain ⟨_, -, rfl⟩ := hmedian
    have hcore := congrArg Core.penalties (countHardforkVotes_core db₄ scheduled)
    refine hcore.trans ((updateVirtualSchedule_penalties hvirtual').trans ?_)
    rw [setSchedule_penalties, setSchedule_penalties]

end Db

/-! ## The ledger of penalties -/

/-- The penalty of a witness is the sum of the penalties that have not expired, as a number of
32 bits, and the votes that count are its votes less that penalty. -/
structure PenaltyLedger (p : PanelRest) : Prop where
  owners : p.witnesses.Keyed (·.owner)
  ids : p.penalties.Numbered (·.id)
  known : p.penalties.All fun x => x.witness ∈ p.witnesses.rows.map (·.owner)
  range : p.witnesses.All fun w => InInt64 w.votes
  sums : p.witnesses.All fun w => (w.penaltyPercent : Int) =
    p.penalties.total (·.witness) (·.penaltyPercent) w.owner % 2 ^ 32
  counted : p.witnesses.All fun w => w.countedVotes =
    w.votes - (w.votes * min w.penaltyPercent percent100).tdiv percent100

/-- The recomputed votes, where they can be computed. -/
theorem countedVotesOf_ok {votes counted : Int} {penalty : Nat} (hvotes : InInt64 votes)
    (h : countedVotesOf votes penalty = .ok counted) :
    counted = votes - (votes * min penalty percent100).tdiv percent100 := by
  obtain ⟨hlow, hhigh⟩ := hvotes
  by_cases hpos : 0 ≤ votes
  · rw [Db.countedVotesOf_eq hpos hhigh, Except.ok.injEq] at h
    rw [← h, Int.tdiv_eq_ediv_of_nonneg (mul_nonneg hpos (by positivity))]
  · -- negative votes become a number of 128 bits, and what the penalty leaves of it is too large
    exfalso
    have huint : toUint128 votes = 2 ^ 128 - (-votes).toNat := by
      simp only [toUint128]
      omega
    have hpenalty : toUint128 votes * min penalty percent100 % 2 ^ 128 / percent100 < 2 ^ 127 := by
      have hpercent : percent100 = 10000 := rfl
      rw [hpercent]
      omega
    simp only [countedVotesOf, toSigned64, bind_eq_ok, fcAssert_eq_ok] at h
    obtain ⟨_, hsmall, -⟩ := h
    generalize toUint128 votes * min penalty percent100 % 2 ^ 128 / percent100 = q at hpenalty hsmall
    rw [huint] at hsmall
    omega

namespace PenaltyLedger

variable {p p' : PanelRest}

theorem revote (h : PenaltyLedger p) (hmove : Revote p p') : PenaltyLedger p' := by
  obtain ⟨k, w, w', hw, hadj⟩ := hmove
  have howners : (p.witnesses.update (·.id) k fun _ => w').rows.map (·.owner) =
      p.witnesses.rows.map (·.owner) := by
    refine Table.map_update p.witnesses _ k _ _ fun x hx => ?_
    cases hw.symm.trans hx
    exact hadj.owner
  constructor
  · exact h.owners.of_keys howners
  · exact h.ids
  · intro x hx
    show x.witness ∈ (p.witnesses.update (·.id) k fun _ => w').rows.map (·.owner)
    rw [howners]
    exact h.known x hx
  · exact Table.all_update h.range fun _ _ _ => ⟨by have := hadj.votes.1; omega, hadj.votes.2⟩
  · refine Table.all_update h.sums fun x hx hsum => ?_
    cases hw.symm.trans hx
    rw [hadj.penalty, hadj.owner]
    exact hsum
  · refine Table.all_update h.counted fun x hx _ => ?_
    exact countedVotesOf_ok ⟨by have := hadj.votes.1; omega, hadj.votes.2⟩ hadj.counted

/-- One penalty comes or goes: the total of its witness moves with the percentage. -/
theorem repenalize_of {t : Table WitnessPenaltyExpireObject} {w : PanelRow} {percent : Int}
    {penalty : Nat} {counted : Int} (h : PenaltyLedger p)
    (hw : p.witnesses.get (·.owner) w.owner = some w)
    (hpenalty : penalty = ((w.penaltyPercent + percent : Int) % 2 ^ 32).toNat)
    (hcounted : countedVotesOf w.votes penalty = .ok counted) (hids : t.Numbered (·.id))
    (hknown : t.All fun x => x.witness = w.owner ∨ x ∈ p.penalties.rows)
    (htotal : ∀ owner, t.total (·.witness) (·.penaltyPercent) owner =
      p.penalties.total (·.witness) (·.penaltyPercent) owner +
        if owner = w.owner then percent else 0) :
    PenaltyLedger { p with
      witnesses := p.witnesses.update (·.owner) w.owner (.withPenalty penalty counted)
      penalties := t } := by
  have hmem := Table.get_mem hw
  have howners : (p.witnesses.update (·.owner) w.owner (.withPenalty penalty counted)).rows.map
      (·.owner) = p.witnesses.rows.map (·.owner) :=
    Table.map_update p.witnesses _ _ _ _ fun _ _ => rfl
  have hrows {y : PanelRow}
      (hy : y ∈ (p.witnesses.update (·.owner) w.owner (.withPenalty penalty counted)).rows) :
      y = w.withPenalty penalty counted ∨ y ∈ p.witnesses.rows ∧ y.owner ≠ w.owner :=
    h.owners.mem_update (fun _ => rfl) hw hy
  constructor
  · exact h.owners.of_keys howners
  · exact hids
  · intro x hx
    show x.witness ∈ (p.witnesses.update (·.owner) w.owner _).rows.map (·.owner)
    rw [howners]
    rcases hknown x hx with hx | hx
    · rw [hx]
      exact List.mem_map_of_mem hmem
    · exact h.known x hx
  · intro y hy
    rcases hrows hy with rfl | ⟨hy, -⟩
    · exact h.range w hmem
    · exact h.range y hy
  · intro y hy
    rcases hrows hy with rfl | ⟨hy, hne⟩
    · have hsum := h.sums w hmem
      show (penalty : Int) = t.total (·.witness) (·.penaltyPercent) w.owner % 2 ^ 32
      rw [htotal, if_pos rfl]
      omega
    · show (y.penaltyPercent : Int) = t.total (·.witness) (·.penaltyPercent) y.owner % 2 ^ 32
      rw [htotal, if_neg hne, add_zero]
      exact h.sums y hy
  · intro y hy
    rcases hrows hy with rfl | ⟨hy, -⟩
    · exact countedVotesOf_ok (h.range w hmem) hcounted
    · exact h.counted y hy

theorem repenalize (h : PenaltyLedger p) (hmove : Repenalize p p') : PenaltyLedger p' := by
  cases hmove with
  | miss w percent penalty counted expires hw hpenalty hcounted =>
    refine h.repenalize_of hw hpenalty hcounted (h.ids.create fun _ => rfl) ?_ fun owner => ?_
    · exact Table.all_create (fun x hx => .inr hx) (.inl rfl)
    · rw [Table.total_create]
      by_cases howner : owner = w.owner
      · rw [if_pos howner, if_pos howner.symm]
      · rw [if_neg howner, if_neg (Ne.symm howner)]
  | expire w x penalty counted hw hx howner hpenalty hcounted =>
    rw [sub_eq_add_neg] at hpenalty
    refine h.repenalize_of hw hpenalty hcounted (h.ids.erase _ _) ?_ fun owner => ?_
    · exact Table.all_erase fun x hx => .inr hx
    · rw [Table.total_erase hx, howner]
      by_cases howner : owner = w.owner
      · rw [if_pos howner, if_pos howner.symm]
        omega
      · rw [if_neg howner, if_neg (Ne.symm howner)]
        omega

theorem repenalizes (h : PenaltyLedger p) (hmoves : Relation.ReflTransGen Repenalize p p') :
    PenaltyLedger p' := by
  induction hmoves with
  | refl => exact h
  | tail _ hmove ih => exact ih.repenalize hmove

/-- The virtual times do not matter. -/
theorem of_ranks {db db' : Db} (h : PenaltyLedger db.panelBook)
    (hranks : db'.witnesses.image Db.rank = db.witnesses.image Db.rank)
    (hpenalties : db'.witnessPenaltyExpires = db.witnessPenaltyExpires) :
    PenaltyLedger db'.panelBook := by
  have hrows : db'.witnesses.rows.map Db.rank = db.witnesses.rows.map Db.rank :=
    congrArg Table.rows hranks
  have howners : db'.panelBook.witnesses.rows.map (·.owner) =
      db.panelBook.witnesses.rows.map (·.owner) := by
    have hmap := congrArg (List.map PanelRow.owner) hrows
    simp only [List.map_map] at hmap
    simp only [Db.panelBook, Table.image, List.map_map]
    exact hmap
  have hfind {y : PanelRow} (hy : y ∈ db'.panelBook.witnesses.rows) :
      ∃ x ∈ db.panelBook.witnesses.rows, y.owner = x.owner ∧ y.votes = x.votes ∧
        y.penaltyPercent = x.penaltyPercent ∧ y.countedVotes = x.countedVotes := by
    obtain ⟨w, hw, rfl⟩ := List.mem_map.1 hy
    have hrank : Db.rank w ∈ db.witnesses.rows.map Db.rank := by
      rw [← hrows]
      exact List.mem_map_of_mem hw
    obtain ⟨v, hv, heq⟩ := List.mem_map.1 hrank
    refine ⟨v.panel, List.mem_map_of_mem hv, ?_⟩
    simp only [Db.rank, PanelRow.mk.injEq] at heq
    exact ⟨heq.2.1.symm, heq.2.2.1.symm, heq.2.2.2.1.symm, heq.2.2.2.2.1.symm⟩
  have hsame : db'.panelBook.penalties = db.panelBook.penalties := hpenalties
  constructor
  · exact h.owners.of_keys howners
  · rw [hsame]
    exact h.ids
  · rw [hsame, howners]
    exact h.known
  · intro y hy
    obtain ⟨x, hx, -, hvotes, -, -⟩ := hfind hy
    rw [hvotes]
    exact h.range x hx
  · intro y hy
    obtain ⟨x, hx, howner, -, hpercent, -⟩ := hfind hy
    rw [hsame, howner, hpercent]
    exact h.sums x hx
  · intro y hy
    obtain ⟨x, hx, -, hvotes, hpercent, hcounted⟩ := hfind hy
    rw [hvotes, hpercent, hcounted]
    exact h.counted x hx

/-- A new witness has no penalties. -/
theorem declare (h : PenaltyLedger p) {owner : AccountName}
    (hnew : p.witnesses.get (·.owner) owner = none) :
    PenaltyLedger { p with witnesses := p.witnesses.create fun id => .fresh id owner } := by
  have hfree : owner ∉ p.witnesses.rows.map (·.owner) := Table.get_eq_none_iff.1 hnew
  constructor
  · exact h.owners.create hnew rfl
  · exact h.ids
  · intro x hx
    show x.witness ∈ (p.witnesses.rows ++ _).map (·.owner)
    rw [List.map_append]
    exact List.mem_append_left _ (h.known x hx)
  · refine Table.all_create h.range ?_
    show InInt64 0
    decide
  · refine Table.all_create h.sums ?_
    have hzero : p.penalties.total (·.witness) (·.penaltyPercent) owner = 0 := by
      refine Table.total_of_absent _ fun x hx heq => hfree ?_
      rw [← heq]
      exact h.known x hx
    show ((0 : Nat) : Int) = p.penalties.total (·.witness) (·.penaltyPercent) owner % 2 ^ 32
    rw [hzero]
    rfl
  · refine Table.all_create h.counted ?_
    show (0 : Int) = 0 - (0 * _ : Int).tdiv _
    rw [zero_mul, Int.zero_tdiv, sub_zero]

end PenaltyLedger

/-! ## The rule for the panel -/

/-- A property of the panel that changes of votes and new witnesses keep. -/
structure PanelKept (P : PanelRest → Prop) : Prop where
  revote : ∀ {p p'}, P p → Revote p p' → P p'
  declare : ∀ {p owner}, P p → p.witnesses.get (·.owner) owner = none →
    P { p with witnesses := p.witnesses.create fun id => .fresh id owner }

namespace PanelKept

variable {P : PanelRest → Prop}

theorem revotes (hP : PanelKept P) {db db' : Db} (hdb : P db.panelBook) (h : Revotes db db') :
    P db'.panelBook := by
  unfold Revotes at h
  generalize db'.panelBook = p' at h ⊢
  induction h with
  | refl => exact hdb
  | tail _ hmove ih => exact hP.revote ih hmove

theorem steady (hP : PanelKept P) : Steady .panel fun v => P v.rest := by
  intro g db db' hglide hdb
  cases hglide with
  | same h => exact h ▸ hdb
  | register name recovery memo auth hauth hnew h => exact h ▸ hdb
  | declare owner hnew h =>
    rw [h]
    refine hP.declare hdb ?_
    show (db.witnesses.image WitnessObject.panel).get (·.owner) owner = none
    rw [Table.get_image]
    exact congrArg (Option.map WitnessObject.panel) hnew
  | vest name tokens ok h => exact hP.revotes hdb (Db.createVesting_revotes h)

/-- Besides, only the steps that handle missed slots and rounds matter. -/
theorem keepsBlock (hP : PanelKept P) {env : Env} {C : Event → Prop}
    (hmiss : ∀ {skip b db db'}, C (.step db b .updateGlobalDynamicData true) → P db.panelBook →
      db.updateGlobalDynamicData env skip b = .ok db' → P db'.panelBook)
    (hround : ∀ {b db db'}, C (.step db b .updateWitnessSchedule true) → P db.panelBook →
      db.updateWitnessSchedule = .ok db' → P db'.panelBook) :
    KeepsBlock env C fun db => db.Stored env.fc ∧ P db.panelBook := by
  refine (stored_keepsBlock env C).aspect (x := .panel) (P := fun v => P v.rest)
    (by decide) (by decide) (by decide) hP.steady ?_ ?_
  · intro clock db op db' htouch _ _ _ h hdb
    cases op with
    | accountWitnessVote o => exact hP.revotes hdb (Db.accountWitnessVote_revotes h)
    | accountWitnessProxy o => exact hP.revotes hdb (Db.accountWitnessProxy_revotes h)
    | _ => cases htouch
  · intro skip b db st db' htouch _ hC h hdb
    cases st with
    | updateGlobalDynamicData => exact hmiss hC hdb h
    | updateWitnessSchedule => exact hround hC hdb h
    | processVestingWithdrawals => exact hP.revotes hdb (Db.withdrawLoop_revotes h)
    | clearNullAccountBalance =>
      exact hP.revotes hdb (Revotes.same (Db.burnBalance_panelBook h))
    | clearAnonymousAccountBalance =>
      exact hP.revotes hdb (Revotes.same (Db.burnBalance_panelBook h))
    | claimCommitteeAccountBalance =>
      exact hP.revotes hdb (Revotes.same (Db.claimCommitteeAccountBalance_panelBook h))
    | _ => cases htouch

end PanelKept

theorem penaltyLedger_keepsBlock (env : Env) (C : Event → Prop) :
    KeepsBlock env C fun db => db.Stored env.fc ∧ PenaltyLedger db.panelBook := by
  refine PanelKept.keepsBlock ⟨fun h => h.revote, fun h => h.declare⟩ ?_ ?_
  · intro skip b db db' _ hdb h
    exact hdb.repenalizes (Db.updateGlobalDynamicData_repenalizes h)
  · intro b db db' _ hdb h
    unfold Db.updateWitnessSchedule at h
    split at h
    · obtain ⟨db₁, hpenalties, hranks, hsame⟩ := Db.scheduleWitnesses_ranks h
      have hdb₁ := hdb.repenalizes (Db.expirePenalties_repenalizes hdb.ids hpenalties)
      exact hdb₁.of_ranks hranks hsame
    · cases h
      exact hdb

/-- **The ledger of penalties.**  Everything that the chain does keeps the penalty of every witness
equal to the sum of its penalties that have not expired, and the votes that count equal to its
votes less that penalty. -/
theorem penalty_ledger_preserved (env : Env) :
    Preserved env (fun _ => True) fun db => db.Stored env.fc ∧ PenaltyLedger db.panelBook :=
  (penaltyLedger_keepsBlock env _).preserved

/-- The state after block 19.  alice votes for herself, and an old penalty of hers runs out at 39;
the next slot is hers, and bob's comes after it. -/
def penaltyStore : Store :=
  let s := smallStore [{ id := 4, name := "bob" }]
  { s with
    db := { s.db with
      dgp := { s.db.dgp with headBlockNumber := 19, headBlockId := ⟨19, 30⟩ }
      accounts := s.db.accounts.update (·.name) "alice" fun a => { a with witnessesVotedFor := 1 }
      witnessSchedule :=
        { currentShuffledWitnesses := ["bob", "alice"], numScheduledWitnesses := 2
          nextShuffleBlockNum := 21 }
      witnesses :=
        ⟨[{ id := 0, owner := "alice", signingKey := 7, votes := 1000000, countedVotes := 990000
            penaltyPercent := 100 },
          { id := 1, owner := "bob", signingKey := 7 }], 2⟩
      witnessVotes := ⟨[⟨0, 0, 3⟩], 1⟩
      witnessPenaltyExpires := ⟨[⟨0, "alice", 100, 39⟩], 1⟩
      blockSummaries := ⟨[⟨19, ⟨19, 30⟩⟩, ⟨20, ⟨0, 0⟩⟩, ⟨21, ⟨0, 0⟩⟩], 65536⟩ } }

/-- bob's block skips alice's slot, and alice vests tokens in it; a block of alice ends the round. -/
def penaltyBlocks : List SignedBlock :=
  [{ smallBlock [] with
      previous := ⟨19, 30⟩, timestamp := 36, witness := "bob"
      transactions := [⟨⟨19, 30, 40, [.transferToVesting
        { fromAccount := "alice", toAccount := "alice", amount := ⟨1000, tokenSymbol⟩ }]⟩, [7]⟩] },
    { smallBlock [] with
      previous := ⟨20, 36⟩, timestamp := 39, transactions := [], transactionMerkleRoot := 0 }]

theorem penalty_ledger_preserved_penaltyBlocks :
    ∃ s', (penaltyStore.applyBlocks smallEnv 2 { merkleCheck := true } penaltyBlocks 0).2 = .ok s' ∧
      PenaltyLedger s'.db.panelBook ∧
      s'.db.witnessPenaltyExpires.rows = [⟨1, "alice", 100, 86430⟩] ∧
      ∃ w ∈ s'.db.witnesses.rows, w.owner = "alice" ∧ w.votes = 2000000 ∧
        w.countedVotes = 1980000 := by
  have hrun : returns (penaltyStore.applyBlocks smallEnv 2 { merkleCheck := true } penaltyBlocks 0).2
      (fun s' => decide (s'.db.witnessPenaltyExpires.rows = [⟨1, "alice", 100, 86430⟩] ∧
        ∃ w ∈ s'.db.witnesses.rows, w.owner = "alice" ∧ w.votes = 2000000 ∧
          w.countedVotes = 1980000)) = true := by
    decide +kernel
  obtain ⟨s', hs', hend⟩ := returns_eq_true hrun
  have hstored : penaltyStore.db.Stored smallEnv.fc := fun _ hp => absurd hp List.not_mem_nil
  have hledger : PenaltyLedger penaltyStore.db.panelBook := by
    constructor
    · unfold Table.Keyed
      decide +kernel
    · exact ⟨by decide +kernel, by decide +kernel⟩
    all_goals decide +kernel
  have hkept := (penalty_ledger_preserved smallEnv).blocks 2 _ _ _ 0 s' rfl ⟨hstored, hledger⟩
    (fun _ _ => trivial) hs'
  exact ⟨s', hs', hkept.2, of_decide_eq_true hend⟩

end VizCore.Chain
