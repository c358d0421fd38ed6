import VizCore.Chain.Loans
import VizCore.Chain.Rounding

/-!
# What rests on the shares of an account

An account keeps enough shares for what it has delegated and for the rest of its power-down.  A
power-down takes its rate again and again, and at last the remainder of its total by the rate;
both fit because what has been withdrawn is a multiple of the rate.

* `BurdenRow.Borne`: the shares bear what rests on them;
* `withdrawalAmount_borne`: a withdrawal takes the rate, or all that is left;
* `delegation_ledger_preserved`: everything that the chain does keeps the ledger of delegations.
-/

namespace VizCore.Chain

open VizCore.Lib VizCore.Protocol

/-- The shares bear what is delegated and what is left of the power-down. -/
structure BurdenRow.Borne (r : BurdenRow) : Prop where
  left : 0 ≤ r.toWithdraw - r.withdrawn
  covered : r.toWithdraw - r.withdrawn ≤ r.shares - r.delegated
  withdrawn : 0 ≤ r.withdrawn
  rate : 0 ≤ r.rate
  divides : r.rate ≠ 0 → r.rate ∣ r.withdrawn
  idle : r.rate = 0 → r.withdrawn = r.toWithdraw

/-- More shares, or less that is delegated. -/
theorem BurdenRow.Borne.lighter {r : BurdenRow} (h : r.Borne) {shares delegated : Int}
    (hle : r.shares - r.delegated ≤ shares - delegated) :
    BurdenRow.Borne { r with shares := shares, delegated := delegated } :=
  ⟨h.left, h.covered.trans hle, h.withdrawn, h.rate, h.divides, h.idle⟩

/-- The row after a withdrawal. -/
def BurdenRow.afterWithdrawal (shares withdrawn : Int) (r : BurdenRow) : BurdenRow :=
  if r.toWithdraw ≤ withdrawn ∨ shares = 0 then
    { r with shares := shares, withdrawn := withdrawn, rate := 0, next := timeMaximum }
  else
    { r with
      shares := shares, withdrawn := withdrawn
      next := (r.next + vestingWithdrawInterval) % 2 ^ 32 }

/-- A withdrawal of the rate, or of all that is left. -/
theorem BurdenRow.Borne.withdraw {r : BurdenRow} (h : r.Borne) {amount : Int}
    (hdelegated : 0 ≤ r.delegated) (hpos : 0 ≤ amount) (hle : amount ≤ r.toWithdraw - r.withdrawn)
    (hamount : amount = r.rate ∨ amount = r.toWithdraw - r.withdrawn) :
    (r.afterWithdrawal (r.shares - amount) (r.withdrawn + amount)).Borne := by
  have hcovered := h.covered
  have hwithdrawn := h.withdrawn
  have hleft' : 0 ≤ r.toWithdraw - (r.withdrawn + amount) := by omega
  have hcovered' : r.toWithdraw - (r.withdrawn + amount) ≤ r.shares - amount - r.delegated := by
    omega
  have hwithdrawn' : 0 ≤ r.withdrawn + amount := by omega
  unfold afterWithdrawal
  split
  · rename_i hend
    have hdone : r.withdrawn + amount = r.toWithdraw := by
      rcases hend with hend | hend
      · omega
      · omega
    exact ⟨hleft', hcovered', hwithdrawn', le_rfl, fun h => absurd rfl h, fun _ => hdone⟩
  · rename_i hopen
    rw [not_or] at hopen
    have hrate : amount = r.rate := by
      rcases hamount with hamount | hamount
      · exact hamount
      · omega
    refine ⟨hleft', hcovered', hwithdrawn', h.rate, fun hne => ?_, fun hzero => ?_⟩
    · show r.rate ∣ r.withdrawn + amount
      rw [hrate]
      exact dvd_add (h.divides hne) (dvd_refl _)
    · have hidle := h.idle hzero
      omega

/-- What rests on the shares of an account. -/
def AccountObject.burden (a : AccountObject) : BurdenRow :=
  ⟨a.name, a.vestingShares, a.delegatedVestingShares, a.vestingWithdrawRate,
    a.nextVestingWithdrawal, a.withdrawn, a.toWithdraw⟩

theorem burden_afterWithdrawal (shares balance withdrawn : Int) (a : AccountObject) :
    (afterWithdrawal shares balance withdrawn a).burden =
      a.burden.afterWithdrawal shares withdrawn := by
  unfold afterWithdrawal BurdenRow.afterWithdrawal
  show _ = if a.toWithdraw ≤ withdrawn ∨ shares = 0 then _ else _
  split
  · rfl
  · rfl

def Db.burdens (db : Db) : Table BurdenRow := (db.view .burdens).rows

namespace Db

variable {fc : Fc} {db db' : Db} {name : AccountName}

theorem burdens_of_view (h : db'.view .burdens = db.view .burdens) : db'.burdens = db.burdens :=
  congrArg Aspect.View.rows h

theorem burdens_of_core (h : db'.core = db.core) : db'.burdens = db.burdens :=
  burdens_of_view (view_of_core h)

theorem burdens_of_votesOnly (h : VotesOnly db db') : db'.burdens = db.burdens :=
  burdens_of_view (view_of_votesOnly (by decide) (by decide) h)

theorem burdens_found {a : AccountObject} (ha : db.findAccount name = some a) :
    db.burdens.get (·.name) name = some a.burden := by
  have hfind : db.burdens.get (·.name) name = (db.findAccount name).map AccountObject.burden :=
    rows_find (x := .burdens) db (fun _ => rfl) name
  rw [hfind, ha]
  rfl

theorem burden_borne {a : AccountObject} (hdb : db.burdens.All BurdenRow.Borne)
    (ha : db.findAccount name = some a) : a.burden.Borne :=
  hdb _ (Table.get_mem (burdens_found ha))

/-- One account changes. -/
theorem borne_modifyAccount {a : AccountObject} (ha : db.findAccount name = some a)
    (f : AccountObject → AccountObject) (φ : BurdenRow → BurdenRow)
    (h : ∀ b : AccountObject, (f b).burden = φ b.burden) (hrow : a.burden.Borne → (φ a.burden).Borne)
    (hdb : db.burdens.All BurdenRow.Borne) :
    (db.modifyAccount name f).burdens.All BurdenRow.Borne := by
  have hrows : (db.modifyAccount name f).burdens = db.burdens.update (·.name) name φ :=
    rows_modifyAccount (x := .burdens) db (fun _ => rfl) name f φ h
  rw [hrows]
  refine Table.all_update hdb fun x hx hborne => ?_
  rw [burdens_found ha, Option.some.injEq] at hx
  rw [← hx] at hborne ⊢
  exact hrow hborne

/-! ## Shares and delegations -/

theorem createVesting_borne {tokens : Int} (ok : db.VestsUp tokens)
    (hdb : db.burdens.All BurdenRow.Borne) (h : db.createVesting name tokens = .ok db') :
    db'.burdens.All BurdenRow.Borne := by
  obtain ⟨a, v, ha, hv, -, hvotes⟩ := createVesting_eq h
  have hpos : 0 ≤ v := ok v hv
  rw [burdens_of_votesOnly hvotes]
  refine borne_modifyAccount ha (fun b => { b with vestingShares := a.vestingShares + v })
    (fun r => { r with shares := a.vestingShares + v }) (fun _ => rfl) (fun hborne => ?_) hdb
  exact hborne.lighter (by show a.vestingShares - _ ≤ a.vestingShares + v - _; omega)

theorem burdens_steady : SteadyWhere .burdens fun v => v.rows.All BurdenRow.Borne := by
  intro g hg db db' hglide hdb
  cases hglide with
  | same h => exact h ▸ hdb
  | register name recovery memo auth hauth hnew h =>
    have hrows : ((db.core.register name recovery memo auth).view .burdens).rows =
        db.burdens.create fun _ => ⟨name, 0, 0, 0, timeMaximum, 0, 0⟩ := Table.image_create _ _ _
    have hnone : ((db.core.register name recovery memo auth).view .burdens).rows.All
        BurdenRow.Borne := by
      rw [hrows]
      exact Table.all_create hdb ⟨le_rfl, le_rfl, le_rfl, le_rfl, fun h => absurd rfl h, fun _ => rfl⟩
    exact h ▸ hnone
  | declare owner hnew h => exact h ▸ hdb
  | vest name tokens ok h => exact createVesting_borne (ok hg) hdb h

theorem addVestingShares_borne {v : Int} (hv : 0 ≤ v) (hdb : db.burdens.All BurdenRow.Borne)
    (h : db.addVestingShares name v = .ok db') : db'.burdens.All BurdenRow.Borne := by
  simp only [addVestingShares, getAccount, bind_eq_ok, getOrThrow_eq_ok, safeAdd_eq_ok] at h
  obtain ⟨a, ha, _, ⟨-, rfl⟩, hvotes⟩ := h
  rw [burdens_of_votesOnly (adjustProxiedWitnessVotes_votesOnly hvotes)]
  refine borne_modifyAccount ha (fun b => { b with vestingShares := a.vestingShares + v })
    (fun r => { r with shares := a.vestingShares + v }) (fun _ => rfl) (fun hborne => ?_) hdb
  exact hborne.lighter (by show a.vestingShares - _ ≤ a.vestingShares + v - _; omega)

/-- What is available to be delegated, with regard to a power-down. -/
theorem availableVestingShares_eq_ok {a : AccountObject} {v : Int}
    (h : a.availableVestingShares true = .ok v) :
    v = a.vestingShares - a.delegatedVestingShares - (a.toWithdraw - a.withdrawn) := by
  simp only [AccountObject.availableVestingShares, bind_eq_ok, safeSub_eq_ok, if_true] at h
  obtain ⟨_, ⟨-, rfl⟩, _, ⟨-, rfl⟩, -, rfl⟩ := h
  rfl

/-- The counter of what is delegated changes within what is available. -/
theorem setDelegated_borne {a : AccountObject} (ha : db.findAccount name = some a) {d : Int}
    (hd : d ≤ a.vestingShares - a.delegatedVestingShares - (a.toWithdraw - a.withdrawn))
    (hdb : db.burdens.All BurdenRow.Borne) :
    (db.modifyAccount name fun b =>
      { b with delegatedVestingShares := a.delegatedVestingShares + d }).burdens.All
        BurdenRow.Borne := by
  refine borne_modifyAccount ha _
    (fun r => { r with delegated := a.delegatedVestingShares + d }) (fun _ => rfl)
    (fun hborne => ?_) hdb
  refine ⟨hborne.left, ?_, hborne.withdrawn, hborne.rate, hborne.divides, hborne.idle⟩
  show a.toWithdraw - a.withdrawn ≤ a.vestingShares - (a.delegatedVestingShares + d)
  omega

theorem increaseDelegation_borne {op : DelegateVestingSharesOperation} {isNew : Bool}
    {minDelegation delta : Int} (hdb : db.burdens.All BurdenRow.Borne)
    (h : db.increaseDelegation op isNew minDelegation delta = .ok db') :
    db'.burdens.All BurdenRow.Borne := by
  simp only [increaseDelegation, getAccount, bind_eq_ok, getOrThrow_eq_ok, safeAdd_eq_ok,
    fcAssert_eq_ok, pure_eq_ok] at h
  obtain ⟨a, ha, available, havailable, _, hdelta, _, -, db₁, hnew, db₂, henergy, b, hb, _,
    ⟨-, rfl⟩, rfl⟩ := h
  have hsame : db₂.burdens = db.burdens :=
    (burdens_of_core (sharesSenderRecalcEnergy_core henergy)).trans
      (burdens_of_view (createIfNew_view (by decide) hnew))
  have hburden : b.burden = a.burden := by
    have hget := burdens_found hb
    rw [hsame, burdens_found ha] at hget
    exact (Option.some.inj hget).symm
  have hroom : delta ≤ b.burden.shares - b.burden.delegated -
      (b.burden.toWithdraw - b.burden.withdrawn) := by
    rw [hburden]
    exact hdelta.trans (availableVestingShares_eq_ok havailable).le
  exact setDelegated_borne hb hroom (hsame ▸ hdb)

theorem delegateVestingShares_borne {op : DelegateVestingSharesOperation}
    (hdb : db.burdens.All BurdenRow.Borne) (h : db.delegateVestingShares op = .ok db') :
    db'.burdens.All BurdenRow.Borne := by
  simp only [delegateVestingShares, bind_eq_ok] at h
  obtain ⟨_, -, _, -, minDelegation, -, h⟩ := h
  split at h
  · simp only [bind_eq_ok] at h
    obtain ⟨_, -, _, -, db₁, hincrease, hreceived⟩ := h
    rw [burdens_of_view (addReceived_view (by decide) hreceived)]
    exact increaseDelegation_borne hdb hincrease
  · simp only [bind_eq_ok] at h
    obtain ⟨delta, -, h⟩ := h
    split at h
    · simp only [bind_eq_ok, pure_eq_ok] at h
      obtain ⟨db₁, hincrease, db₂, hreceived, rfl⟩ := h
      rw [burdens_of_view (storeDelegation_view (by decide) db₂ _ _),
        burdens_of_view (addReceived_view (by decide) hreceived)]
      exact increaseDelegation_borne hdb hincrease
    · simp only [bind_eq_ok, pure_eq_ok] at h
      obtain ⟨db₁, hdecrease, db₂, hreceived, rfl⟩ := h
      rw [burdens_of_view (storeDelegation_view (by decide) db₂ _ _),
        burdens_of_view (addReceived_view (by decide) hreceived),
        burdens_of_view (decreaseDelegation_view (by decide) hdecrease)]
      exact hdb

theorem accountCreate_borne {o : AccountCreateOperation} (ok : db.VestsUp o.fee.amount)
    (hdb : db.burdens.All BurdenRow.Borne) (h : db.accountCreate o = .ok db') :
    db'.burdens.All BurdenRow.Borne := by
  obtain ⟨creator, db₁, minTime, hcreator, -, -, hroom, hcore, hvest⟩ := accountCreate_core h
  have hupdate := Table.image_update db.core.accounts (Aspect.row .burdens) (·.name) o.creator
    (·.withDelegated (creator.delegatedVestingShares + o.delegation.amount))
    (fun r : BurdenRow => { r with
      delegated := creator.delegatedVestingShares + o.delegation.amount }) fun _ => rfl
  have hrows : db₁.burdens = (db.burdens.update (·.name) o.creator fun r => { r with
      delegated := creator.delegatedVestingShares + o.delegation.amount }).create fun _ =>
        ⟨o.newAccountName, 0, 0, 0, timeMaximum, 0, 0⟩ := by
    unfold burdens view
    rw [hcore]
    exact (Table.image_create _ (Aspect.row .burdens) _).trans
      (congrArg (Table.create · _) hupdate)
  have hopen : db₁.burdens.All BurdenRow.Borne := by
    rw [hrows]
    have hlend : (db.burdens.update (·.name) o.creator fun r : BurdenRow => { r with
        delegated := creator.delegatedVestingShares + o.delegation.amount }).All
          BurdenRow.Borne := by
      refine Table.all_update hdb fun x hx hborne => ?_
      rw [burdens_found hcreator, Option.some.injEq] at hx
      rw [← hx] at hborne ⊢
      refine ⟨hborne.left, ?_, hborne.withdrawn, hborne.rate, hborne.divides, hborne.idle⟩
      show creator.toWithdraw - creator.withdrawn ≤
        creator.vestingShares - (creator.delegatedVestingShares + o.delegation.amount)
      omega
    exact Table.all_create hlend
      ⟨le_rfl, le_rfl, le_rfl, le_rfl, fun h => absurd rfl h, fun _ => rfl⟩
  rcases hvest with hvest | rfl
  · have hfund := congrArg Core.totalFund hcore
    have hshares := congrArg Core.totalShares hcore
    exact createVesting_borne (ok.of_totals hfund hshares) hopen hvest
  · exact hopen

/-- Delegated shares that come back make the rest lighter. -/
theorem returnDelegation_borne {e : VestingDelegationExpirationObject} (he : 0 ≤ e.vestingShares)
    (hdb : db.burdens.All BurdenRow.Borne) (h : db.returnDelegation e = .ok db') :
    db'.burdens.All BurdenRow.Borne := by
  simp only [returnDelegation, getAccount, bind_eq_ok, getOrThrow_eq_ok, safeSub_eq_ok,
    pure_eq_ok] at h
  obtain ⟨a, ha, _, ⟨-, rfl⟩, db₁, henergy, rfl⟩ := h
  have hsame : ({ db₁ with vestingDelegationExpirations :=
      db₁.vestingDelegationExpirations.erase (·.id) e.id } : Db).burdens = _ :=
    (burdens_of_view (view_setDelegations (by decide) db₁ db₁.vestingDelegations _)).trans
      (burdens_of_core (sharesSenderRecalcEnergy_core henergy))
  rw [hsame]
  refine borne_modifyAccount ha _
    (fun r => { r with delegated := a.delegatedVestingShares - e.vestingShares }) (fun _ => rfl)
    (fun hborne => ?_) hdb
  refine hborne.lighter ?_
  show a.vestingShares - a.delegatedVestingShares ≤
    a.vestingShares - (a.delegatedVestingShares - e.vestingShares)
  omega

theorem clearExpiredDelegations_borne (hloans : db.loans.Balanced)
    (hdb : db.burdens.All BurdenRow.Borne) (h : db.clearExpiredDelegations = .ok db') :
    db'.burdens.All BurdenRow.Borne := by
  refine foldlM_invariant (fun d : Db => d.burdens.All BurdenRow.Borne) returnDelegation _
    (fun e he s s' hs hstep => ?_) db db' hdb h
  have hmem := (mem_orderBy expiresBefore e _).1 (List.mem_filter.1 he).1
  exact returnDelegation_borne (hloans.limbo e hmem) hs hstep

/-! ## Power-downs -/

theorem withdrawVesting_borne {o : WithdrawVestingOperation} (hdb : db.burdens.All BurdenRow.Borne)
    (h : db.withdrawVesting o = .ok db') : db'.burdens.All BurdenRow.Borne := by
  simp only [withdrawVesting, getAccount, bind_eq_ok, getOrThrow_eq_ok, fcAssert_eq_ok] at h
  obtain ⟨a, ha, _, -, available, havailable, _, hroom, _, hpos, h⟩ := h
  simp only [AccountObject.availableVestingShares, bind_eq_ok, safeSub_eq_ok, Bool.false_eq_true,
    if_false, pure_eq_ok] at havailable
  obtain ⟨_, ⟨-, rfl⟩, rfl⟩ := havailable
  split at h
  · rename_i hzero
    simp only [bind_eq_ok, pure_eq_ok] at h
    obtain ⟨_, -, rfl⟩ := h
    refine borne_modifyAccount ha _ (fun r => { r with
      rate := 0, next := timeMaximum, toWithdraw := 0, withdrawn := 0 }) (fun _ => rfl)
      (fun _ => ?_) hdb
    have hcovered : (0 : Int) - 0 ≤ a.vestingShares - a.delegatedVestingShares := by omega
    exact ⟨le_rfl, hcovered, le_rfl, le_rfl, fun h => absurd rfl h, fun _ => rfl⟩
  · rename_i hne
    simp only [bind_eq_ok, safeDiv_eq_ok, pure_eq_ok] at h
    obtain ⟨_, ⟨-, -, rfl⟩, _, -, rfl⟩ := h
    have hshare : 0 ≤ (a.vestingShares - a.delegatedVestingShares).tdiv
        (db.medianProps.withdrawIntervals : Int) :=
      Int.tdiv_nonneg (by omega) (Int.natCast_nonneg _)
    generalize (a.vestingShares - a.delegatedVestingShares).tdiv
      (db.medianProps.withdrawIntervals : Int) = share at hshare
    refine borne_modifyAccount ha _ (fun r => { r with
      rate := if share = 0 then 1 else share
      next := db.headBlockTime + 60 * 60 * 24
      toWithdraw := o.vestingShares.amount, withdrawn := 0 }) (fun _ => rfl) (fun _ => ?_) hdb
    have hrate : 0 < if share = 0 then (1 : Int) else share := by
      split <;> omega
    have hcovered : o.vestingShares.amount - 0 ≤ a.vestingShares - a.delegatedVestingShares := by
      omega
    exact ⟨by show 0 ≤ o.vestingShares.amount - 0; omega, hcovered, le_rfl, hrate.le,
      fun _ => dvd_zero _, fun hz => absurd hz hrate.ne'⟩

/-- **A withdrawal** takes the rate, or all that is left. -/
theorem withdrawalAmount_borne {a : AccountObject} (ha : a.burden.Borne)
    (hdelegated : 0 ≤ a.delegatedVestingShares) {amount : Int}
    (h : withdrawalAmount a = .ok amount) :
    amount = min a.vestingWithdrawRate (a.toWithdraw - a.withdrawn) ∧ 0 ≤ amount ∧
      amount < 2 ^ 63 := by
  have hleft : 0 ≤ a.toWithdraw - a.withdrawn := ha.left
  have hcovered : a.toWithdraw - a.withdrawn ≤ a.vestingShares - a.delegatedVestingShares :=
    ha.covered
  have hwithdrawn : 0 ≤ a.withdrawn := ha.withdrawn
  have hrate : 0 ≤ a.vestingWithdrawRate := ha.rate
  simp only [withdrawalAmount, bind_eq_ok, safeSub_eq_ok] at h
  obtain ⟨_, ⟨hfits, rfl⟩, h⟩ := h
  have hsmall : a.toWithdraw - a.withdrawn < 2 ^ 63 := hfits.2
  split at h
  · rename_i hlt
    simp only [bind_eq_ok, pure_eq_ok] at h
    obtain ⟨last, hlast, rfl⟩ := h
    have hne : a.vestingWithdrawRate ≠ 0 := by omega
    unfold safeMod at hlast
    rw [if_neg hne, Except.ok.injEq, Int.tmod_eq_emod_of_nonneg (by omega)] at hlast
    obtain ⟨k, hk⟩ := ha.divides hne
    have hk' : a.withdrawn = a.vestingWithdrawRate * k := hk
    -- what has been withdrawn is a multiple of the rate, so the remainder is all that is left
    have hrest : last = a.toWithdraw - a.withdrawn := by
      rw [← hlast]
      calc a.toWithdraw % a.vestingWithdrawRate
          = (a.toWithdraw - a.withdrawn + a.vestingWithdrawRate * k) % a.vestingWithdrawRate := by
            rw [← hk', sub_add_cancel]
        _ = (a.toWithdraw - a.withdrawn) % a.vestingWithdrawRate := Int.add_mul_emod_self_left _ _ _
        _ = a.toWithdraw - a.withdrawn := Int.emod_eq_of_lt hleft hlt
    rw [hrest, min_eq_right (by omega), max_eq_left hleft]
    exact ⟨(min_eq_right hlt.le).symm, hleft, hsmall⟩
  · rename_i hge
    rw [pure_eq_ok] at h
    rw [← h, min_eq_right (by omega), max_eq_left hrate]
    exact ⟨(min_eq_left (not_lt.1 hge)).symm, hrate, by omega⟩

/-- The withdrawal is booked. -/
theorem finishWithdrawal_borne {a : AccountObject} {amount tokens : Int}
    (ha : db.findAccount name = some a) (hdelegated : 0 ≤ a.delegatedVestingShares)
    (hpos : 0 ≤ amount) (hle : amount ≤ a.toWithdraw - a.withdrawn)
    (hamount : amount = a.vestingWithdrawRate ∨ amount = a.toWithdraw - a.withdrawn)
    (hdb : db.burdens.All BurdenRow.Borne)
    (h : db.finishWithdrawal name amount tokens = .ok db') : db'.burdens.All BurdenRow.Borne := by
  simp only [finishWithdrawal, getAccount, bind_eq_ok, getOrThrow_eq_ok, safeSub_eq_ok,
    safeAdd_eq_ok, pure_eq_ok] at h
  obtain ⟨b, hb, _, ⟨-, rfl⟩, balance, -, _, ⟨-, rfl⟩, rfl⟩ := h
  rw [ha, Option.some.injEq] at hb
  subst hb
  exact borne_modifyAccount ha _ _ (burden_afterWithdrawal _ _ _)
    (fun hborne => hborne.withdraw hdelegated hpos hle hamount) hdb

theorem redeemVesting_burdens {tokens shares : Int} (h : db.redeemVesting tokens shares = .ok db') :
    db'.burdens = db.burdens := by
  simp only [redeemVesting, bind_eq_ok, pure_eq_ok] at h
  obtain ⟨_, -, _, -, rfl⟩ := h
  rfl

/-- The row is there, but for its shares. -/
def Bears (db : Db) (r : BurdenRow) : Prop :=
  ∃ s, db.burdens.get (·.name) r.name = some { r with shares := s }

theorem Bears.of_burdens {r : BurdenRow} (h : db.Bears r) (hsame : db'.burdens = db.burdens) :
    db'.Bears r := by
  unfold Bears
  rw [hsame]
  exact h

theorem Bears.addVestingShares {r : BurdenRow} {v : Int} (hr : db.Bears r)
    (h : db.addVestingShares name v = .ok db') : db'.Bears r := by
  simp only [Db.addVestingShares, getAccount, bind_eq_ok, getOrThrow_eq_ok, safeAdd_eq_ok] at h
  obtain ⟨a, ha, _, ⟨-, rfl⟩, hvotes⟩ := h
  have hrows : db'.burdens = db.burdens.update (·.name) name fun x =>
      { x with shares := a.vestingShares + v } := by
    rw [burdens_of_votesOnly (adjustProxiedWitnessVotes_votesOnly hvotes)]
    exact rows_modifyAccount (x := .burdens) db (fun _ => rfl) name _
      (fun x : BurdenRow => { x with shares := a.vestingShares + v }) fun _ => rfl
  obtain ⟨s, hs⟩ := hr
  unfold Bears
  rw [hrows]
  by_cases hname : r.name = name
  · refine ⟨a.vestingShares + v, ?_⟩
    rw [hname] at hs ⊢
    refine (Table.get_update_same db.burdens (·.name) name
      (fun x : BurdenRow => { x with shares := a.vestingShares + v }) fun _ => rfl).trans ?_
    rw [hs]
    rfl
  · refine ⟨s, ?_⟩
    exact (Table.get_update_ne db.burdens (·.name)
      (fun x : BurdenRow => { x with shares := a.vestingShares + v }) hname fun _ => rfl).trans hs

theorem depositShares_borne {amount v v' : Int} {r : WithdrawVestingRouteObject} {q : BurdenRow}
    (hdb : db.burdens.All BurdenRow.Borne ∧ db.Bears q)
    (h : depositShares amount (v, db) r = .ok (v', db')) :
    db'.burdens.All BurdenRow.Borne ∧ db'.Bears q := by
  unfold depositShares at h
  split at h
  · simp only [bind_eq_ok] at h
    obtain ⟨deposit, -, total, -, h⟩ := h
    split at h
    · rename_i hpos
      simp only [bind_eq_ok, pure_eq_ok, Prod.mk.injEq] at h
      obtain ⟨a, -, db₁, hadd, -, rfl⟩ := h
      exact ⟨addVestingShares_borne hpos.le hdb.1 hadd, hdb.2.addVestingShares hadd⟩
    · simp only [pure_eq_ok, Prod.mk.injEq] at h
      exact h.2 ▸ hdb
  · cases h
    exact hdb

theorem depositTokens_burdens {amount v v' : Int} {r : WithdrawVestingRouteObject}
    (h : depositTokens amount (v, db) r = .ok (v', db')) : db'.burdens = db.burdens := by
  unfold depositTokens at h
  split at h
  · cases h
    rfl
  · simp only [bind_eq_ok] at h
    obtain ⟨a, -, deposit, -, total, -, tokens, -, h⟩ := h
    split at h
    · simp only [bind_eq_ok, pure_eq_ok, Prod.mk.injEq] at h
      obtain ⟨db₁, hpay, db₂, hredeem, -, rfl⟩ := h
      exact (redeemVesting_burdens hredeem).trans (burdens_of_core (adjustBalance_core hpay))
    · simp only [pure_eq_ok, Prod.mk.injEq] at h
      rw [← h.2]

/-- **One withdrawal** leaves enough for the rest. -/
theorem withdrawFrom_borne {a : AccountObject} (ha : db.findAccount a.name = some a)
    (hdelegated : 0 ≤ a.delegatedVestingShares) (hdb : db.burdens.All BurdenRow.Borne)
    (h : db.withdrawFrom a = .ok db') : db'.burdens.All BurdenRow.Borne := by
  simp only [withdrawFrom, bind_eq_ok] at h
  obtain ⟨amount, hamount, ⟨vested, db₁⟩, hvested, ⟨paid, db₂⟩, hpaid, _, -, _, -, tokens, -, _, -,
    db₃, henergy, db₄, hfinish, db₅, hredeem, h⟩ := h
  obtain ⟨hmin, hpos, -⟩ := withdrawalAmount_borne (burden_borne hdb ha) hdelegated hamount
  have hle : amount ≤ a.toWithdraw - a.withdrawn := by omega
  have hstep : amount = a.vestingWithdrawRate ∨ amount = a.toWithdraw - a.withdrawn := by omega
  have hstart : db.burdens.All BurdenRow.Borne ∧ db.Bears a.burden :=
    ⟨hdb, a.vestingShares, burdens_found ha⟩
  have hfirst : db₁.burdens.All BurdenRow.Borne ∧ db₁.Bears a.burden :=
    foldlM_invariant (fun s : Int × Db => s.2.burdens.All BurdenRow.Borne ∧ s.2.Bears a.burden) _ _
      (fun _ _ _ _ hs hrun => depositShares_borne hs hrun) _ _ hstart hvested
  have hsecond : db₂.burdens = db₁.burdens :=
    foldlM_invariant (fun s : Int × Db => s.2.burdens = db₁.burdens) _ _
      (fun _ _ _ _ hs hrun => (depositTokens_burdens hrun).trans hs) _ _ rfl hpaid
  have hsame : db₃.burdens = db₁.burdens :=
    (burdens_of_core (sharesSenderRecalcEnergy_core henergy)).trans hsecond
  have hborne₃ : db₃.burdens.All BurdenRow.Borne := hsame ▸ hfirst.1
  obtain ⟨s, hs⟩ := hfirst.2.of_burdens hsame
  obtain ⟨b, hb⟩ : ∃ b, db₃.findAccount a.name = some b := by
    simp only [finishWithdrawal, getAccount, bind_eq_ok, getOrThrow_eq_ok] at hfinish
    obtain ⟨b, hb, -⟩ := hfinish
    exact ⟨b, hb⟩
  have hburden : b.burden = { a.burden with shares := s } := by
    have hget : db₃.burdens.get (·.name) a.name = some { a.burden with shares := s } := hs
    rw [burdens_found hb] at hget
    exact Option.some.inj hget
  have hto : b.toWithdraw = a.toWithdraw := congrArg BurdenRow.toWithdraw hburden
  have hwithdrawn : b.withdrawn = a.withdrawn := congrArg BurdenRow.withdrawn hburden
  have hrate : b.vestingWithdrawRate = a.vestingWithdrawRate := congrArg BurdenRow.rate hburden
  have hlent : b.delegatedVestingShares = a.delegatedVestingShares :=
    congrArg BurdenRow.delegated hburden
  rw [← hto, ← hwithdrawn, ← hrate] at hstep
  rw [← hto, ← hwithdrawn] at hle
  have hborne₅ : db₅.burdens.All BurdenRow.Borne := by
    rw [redeemVesting_burdens hredeem]
    exact finishWithdrawal_borne hb (hlent ▸ hdelegated) hpos hle hstep hborne₃ hfinish
  split at h
  · rw [burdens_of_votesOnly (adjustProxiedWitnessVotes_votesOnly h)]
    exact hborne₅
  · rw [pure_eq_ok] at h
    exact h ▸ hborne₅

/-- Nobody has delegated a negative amount. -/
theorem delegated_nonneg {a : AccountObject} (hdb : db.loans.Balanced)
    (ha : db.findAccount name = some a) : 0 ≤ a.delegatedVestingShares := by
  have hcount : db.loans.delegated name = a.delegatedVestingShares :=
    Table.field_of_get (loans_found ha) _
  rw [← hcount]
  exact (hdb.nonneg name).1

theorem withdrawLoop_borne {fuel : Nat} {next : Option AccountName} (hloans : db.loans.Balanced)
    (hdb : db.burdens.All BurdenRow.Borne) (h : withdrawLoop fuel db next = .ok db') :
    db'.burdens.All BurdenRow.Borne := by
  induction fuel generalizing db next with
  | zero => cases h
  | succ fuel ih =>
    cases next with
    | none =>
      cases h
      exact hdb
    | some name =>
      simp only [withdrawLoop, getAccount, bind_eq_ok, getOrThrow_eq_ok] at h
      obtain ⟨a, ha, h⟩ := h
      split at h
      · simp only [bind_eq_ok] at h
        obtain ⟨db₁, hstep, hrest⟩ := h
        have hname : a.name = name := Table.get_key ha
        have hself : db.findAccount a.name = some a := by
          rw [hname]
          exact ha
        have hloans₁ : db₁.loans = db.loans :=
          congrArg Aspect.View.loans (withdrawFrom_view (x := .loans) rfl hstep)
        refine ih ?_ (withdrawFrom_borne hself (delegated_nonneg hloans ha) hdb hstep) hrest
        rw [hloans₁]
        exact hloans
      · rw [pure_eq_ok] at h
        exact h ▸ hdb

/-! ## Shares that are taken away -/

/-- The account has nothing delegated and withdraws nothing. -/
def Unburdened (db : Db) (name : AccountName) : Prop :=
  ∀ a, db.findAccount name = some a → a.delegatedVestingShares = 0 ∧ a.toWithdraw = a.withdrawn

theorem drainBalance_core {total : Int} (h : db.drainBalance name = .ok (total, db')) :
    db'.core = db.core := by
  simp only [drainBalance, bind_eq_ok] at h
  obtain ⟨a, -, h⟩ := h
  split at h
  · simp only [bind_eq_ok, pure_eq_ok, Prod.mk.injEq] at h
    obtain ⟨db₁, hpay, -, rfl⟩ := h
    exact adjustBalance_core hpay
  · simp only [pure_eq_ok, Prod.mk.injEq] at h
    rw [h.2]

theorem drainAccount_borne {total : Int} (hfree : db.Unburdened name)
    (hdb : db.burdens.All BurdenRow.Borne) (h : db.drainAccount name = .ok (total, db')) :
    db'.burdens.All BurdenRow.Borne := by
  simp only [drainAccount, bind_eq_ok] at h
  obtain ⟨⟨balance, db₁⟩, hbalance, ⟨tokens, db₂⟩, hshares, h⟩ := h
  simp only [pure_eq_ok, Prod.mk.injEq] at h
  obtain ⟨_, -, -, rfl⟩ := h
  have hcore := drainBalance_core hbalance
  have hborne₁ : db₁.burdens.All BurdenRow.Borne := burdens_of_core hcore ▸ hdb
  simp only [drainShares, getAccount, bind_eq_ok, getOrThrow_eq_ok] at hshares
  obtain ⟨a, ha, h⟩ := hshares
  split at h
  · simp only [bind_eq_ok, pure_eq_ok, Prod.mk.injEq] at h
    obtain ⟨_, -, db₃, hredeem, -, rfl⟩ := h
    have hfound : db₃.findAccount name = some a := by
      simp only [redeemVesting, bind_eq_ok, pure_eq_ok] at hredeem
      obtain ⟨_, -, _, -, rfl⟩ := hredeem
      exact ha
    have hborne₃ : db₃.burdens.All BurdenRow.Borne := redeemVesting_burdens hredeem ▸ hborne₁
    refine borne_modifyAccount hfound _ (fun r => { r with shares := 0 }) (fun _ => rfl)
      (fun hborne => ?_) hborne₃
    obtain ⟨b, hb⟩ : ∃ b, db.findAccount name = some b := by
      have hget := find_core db name
      rw [← hcore, find_core, ha] at hget
      exact Option.map_eq_some_iff.1 hget.symm |>.imp fun _ hb => hb.1
    have hsame : a.core = b.core := findAccount_of_core hcore hb ha
    obtain ⟨hlent, hdone⟩ := hfree b hb
    have hlent' : a.delegatedVestingShares = 0 :=
      (congrArg AccountCore.delegated hsame).trans hlent
    have hto : a.toWithdraw = b.toWithdraw := congrArg AccountCore.toWithdraw hsame
    have hwithdrawn : a.withdrawn = b.withdrawn := congrArg AccountCore.withdrawn hsame
    refine ⟨hborne.left, ?_, hborne.withdrawn, hborne.rate, hborne.divides, hborne.idle⟩
    show a.toWithdraw - a.withdrawn ≤ 0 - a.delegatedVestingShares
    omega
  · simp only [pure_eq_ok, Prod.mk.injEq] at h
    exact h.2 ▸ hborne₁

theorem burnBalance_borne (hfree : db.Unburdened name) (hdb : db.burdens.All BurdenRow.Borne)
    (h : db.burnBalance name = .ok db') : db'.burdens.All BurdenRow.Borne := by
  simp only [burnBalance, bind_eq_ok] at h
  obtain ⟨⟨total, db₁⟩, hdrain, h⟩ := h
  have hborne := drainAccount_borne hfree hdb hdrain
  split at h
  · rw [burdens_of_core (burnAsset_core h)]
    exact hborne
  · rw [pure_eq_ok] at h
    exact h ▸ hborne

theorem claimCommitteeAccountBalance_borne (hfree : db.Unburdened "committee")
    (hdb : db.burdens.All BurdenRow.Borne) (h : db.claimCommitteeAccountBalance = .ok db') :
    db'.burdens.All BurdenRow.Borne := by
  simp only [claimCommitteeAccountBalance, bind_eq_ok] at h
  obtain ⟨⟨total, db₁⟩, hdrain, h⟩ := h
  have hborne := drainAccount_borne hfree hdb hdrain
  split at h
  · rw [burdens_of_core (addCommitteeFund_core h)]
    exact hborne
  · rw [pure_eq_ok] at h
    exact h ▸ hborne

end Db

/-! ## Everything that the chain does -/

/-- The account whose shares the step takes away. -/
def BlockStep.drained : BlockStep → Option AccountName
  | .clearNullAccountBalance => some "null"
  | .clearAnonymousAccountBalance => some "anonymous"
  | .claimCommitteeAccountBalance => some "committee"
  | _ => none

/-- Nothing that is turned into shares overflows, and the account whose shares a step takes away
bears nothing. -/
def Event.Bearable (fc : Fc) : Event → Prop
  | .operation db op kept => kept = true → db.Vestable fc op
  | .step db _ st _ => st.Vestable db ∧ ∀ name ∈ st.drained, db.Unburdened name

instance (db : Db) (name : AccountName) : Decidable (db.Unburdened name) :=
  inferInstanceAs (Decidable (∀ a ∈ db.findAccount name,
    a.delegatedVestingShares = 0 ∧ a.toWithdraw = a.withdrawn))

instance (fc : Fc) : DecidablePred (Event.Bearable fc)
  | .operation db op kept => inferInstanceAs (Decidable (kept = true → db.Vestable fc op))
  | .step db _ st _ =>
    inferInstanceAs (Decidable (st.Vestable db ∧ ∀ name ∈ st.drained, db.Unburdened name))

/-- **The shares** bear what rests on them. -/
theorem burdens_keepsBlock (env : Env) :
    KeepsBlock env (Event.Bearable env.fc) fun db =>
      (db.Stored env.fc ∧ db.loans.Balanced) ∧ db.burdens.All BurdenRow.Borne := by
  refine (loans_keepsBlock env (Event.Bearable env.fc)).aspectWhere (x := .burdens)
    (P := fun v => v.rows.All BurdenRow.Borne) (by decide) (by decide) (by decide)
    Db.burdens_steady (fun db op hC => hC rfl) (fun db b st hC => hC.1) ?_ ?_
  · intro clock db op db' htouch hR hv hC h hdb
    cases op with
    | withdrawVesting o => exact Db.withdrawVesting_borne hdb h
    | accountCreate o =>
      have ok : db.VestsUp o.fee.amount := (hC rfl).amounts _ (List.mem_singleton_self _)
      exact Db.accountCreate_borne ok hdb h
    | delegateVestingShares o => exact Db.delegateVestingShares_borne hdb h
    | _ => cases htouch
  · intro skip b db st db' htouch hR hC h hdb
    cases st with
    | clearExpiredDelegations => exact Db.clearExpiredDelegations_borne hR.2 hdb h
    | processVestingWithdrawals => exact Db.withdrawLoop_borne hR.2 hdb h
    | clearNullAccountBalance => exact Db.burnBalance_borne (hC.2 "null" rfl) hdb h
    | clearAnonymousAccountBalance => exact Db.burnBalance_borne (hC.2 "anonymous" rfl) hdb h
    | claimCommitteeAccountBalance =>
      exact Db.claimCommitteeAccountBalance_borne (hC.2 "committee" rfl) hdb h
    | _ => cases htouch

/-! ## The claim about account objects -/

namespace Db

variable {db : Db}

/-- The shares that `name` delegates. -/
def lent (db : Db) (name : AccountName) : Int :=
  db.vestingDelegations.total (·.delegator) (·.vestingShares) name

/-- The shares that `name` has taken back and that have not expired. -/
def limbo (db : Db) (name : AccountName) : Int :=
  db.vestingDelegationExpirations.total (·.delegator) (·.vestingShares) name

/-- The shares that others delegate to `name`. -/
def borrowed (db : Db) (name : AccountName) : Int :=
  db.vestingDelegations.total (·.delegatee) (·.vestingShares) name

/-- **The ledger of delegations** and what an account keeps for its power-down. -/
structure DelegationLedger (db : Db) : Prop where
  delegated : ∀ name a, db.findAccount name = some a →
    a.delegatedVestingShares = db.lent name + db.limbo name
  received : ∀ name a, db.findAccount name = some a → a.receivedVestingShares = db.borrowed name
  covered : db.accounts.All fun a => 0 ≤ a.toWithdraw - a.withdrawn ∧
    a.toWithdraw - a.withdrawn ≤ a.vestingShares - a.delegatedVestingShares
  effective : ∀ name a, db.findAccount name = some a →
    0 ≤ a.vestingShares - a.delegatedVestingShares + a.receivedVestingShares

/-- The rows have ids and amounts, and nobody is in them who is not an account. -/
structure LoansKept (db : Db) : Prop where
  delegations : db.vestingDelegations.Numbered (·.id)
  expirations : db.vestingDelegationExpirations.Numbered (·.id)
  lent : db.vestingDelegations.All fun d => 0 ≤ d.vestingShares
  limbo : db.vestingDelegationExpirations.All fun d => 0 ≤ d.vestingShares
  known : ∀ name, db.findAccount name = none →
    db.lent name + db.limbo name = 0 ∧ db.borrowed name = 0

/-- What has been withdrawn is a multiple of the rate; without a rate nothing is left. -/
def PowerDownsRegular (db : Db) : Prop :=
  db.accounts.All fun a => 0 ≤ a.withdrawn ∧ 0 ≤ a.vestingWithdrawRate ∧
    (a.vestingWithdrawRate ≠ 0 → a.vestingWithdrawRate ∣ a.withdrawn) ∧
    (a.vestingWithdrawRate = 0 → a.withdrawn = a.toWithdraw)

theorem burdens_all_iff (db : Db) : db.burdens.All BurdenRow.Borne ↔
    db.accounts.All fun a => a.burden.Borne := by
  have hrows : db.burdens = db.accounts.image AccountObject.burden := Table.image_image _ _ _
  unfold Table.All
  rw [hrows]
  exact List.forall_mem_map

theorem loans_balanced_iff (db : Db) : db.loans.Balanced ↔ db.LoansKept ∧
    (∀ name a, db.findAccount name = some a →
      a.delegatedVestingShares = db.lent name + db.limbo name) ∧
    ∀ name a, db.findAccount name = some a → a.receivedVestingShares = db.borrowed name := by
  have hfound {name : AccountName} {a : AccountObject} (ha : db.findAccount name = some a) :
      db.loans.overLent name = a.delegatedVestingShares - db.lent name - db.limbo name ∧
        db.loans.overReceived name = a.receivedVestingShares - db.borrowed name := by
    have hdelegated : db.loans.delegated name = a.delegatedVestingShares :=
      Table.field_of_get (loans_found ha) _
    have hreceived : db.loans.received name = a.receivedVestingShares :=
      Table.field_of_get (loans_found ha) _
    rw [← hdelegated, ← hreceived]
    exact ⟨rfl, rfl⟩
  have habsent {name : AccountName} (hnone : db.findAccount name = none) :
      db.loans.overLent name = 0 - db.lent name - db.limbo name ∧
        db.loans.overReceived name = 0 - db.borrowed name := by
    have hget : db.loans.accounts.get (·.name) name = none := by
      rw [loans_find, hnone]
      rfl
    have hdelegated : db.loans.delegated name = 0 := Table.field_of_none hget _
    have hreceived : db.loans.received name = 0 := Table.field_of_none hget _
    rw [← hdelegated]
    exact ⟨rfl, by rw [hdelegated, ← hreceived]; rfl⟩
  constructor
  · intro h
    refine ⟨⟨h.delegations, h.expirations, h.lent, h.limbo, fun name hnone => ?_⟩,
      fun name a ha => ?_, fun name a ha => ?_⟩
    · have hlent := h.overLent name
      have hreceived := h.overReceived name
      rw [(habsent hnone).1] at hlent
      rw [(habsent hnone).2] at hreceived
      omega
    · have hlent := h.overLent name
      rw [(hfound ha).1] at hlent
      omega
    · have hreceived := h.overReceived name
      rw [(hfound ha).2] at hreceived
      omega
  · rintro ⟨hkept, hdelegated, hreceived⟩
    refine ⟨⟨hkept.delegations, hkept.expirations, hkept.lent, hkept.limbo⟩, fun name => ?_,
      fun name => ?_⟩
    · cases ha : db.findAccount name with
      | none =>
        have hknown := (hkept.known name ha).1
        rw [(habsent ha).1]
        omega
      | some a =>
        have hcount := hdelegated name a ha
        rw [(hfound ha).1]
        omega
    · cases ha : db.findAccount name with
      | none =>
        have hknown := (hkept.known name ha).2
        rw [(habsent ha).2]
        omega
      | some a =>
        have hcount := hreceived name a ha
        rw [(hfound ha).2]
        omega

theorem delegationLedger_iff (db : Db) : db.loans.Balanced ∧ db.burdens.All BurdenRow.Borne ↔
    (db.LoansKept ∧ db.PowerDownsRegular) ∧ db.DelegationLedger := by
  rw [loans_balanced_iff, burdens_all_iff]
  constructor
  · rintro ⟨⟨hkept, hdelegated, hreceived⟩, hborne⟩
    refine ⟨⟨hkept, fun a ha => ?_⟩, hdelegated, hreceived, fun a ha => ?_, fun name a ha => ?_⟩
    · have h := hborne a ha
      exact ⟨h.withdrawn, h.rate, h.divides, h.idle⟩
    · have h := hborne a ha
      exact ⟨h.left, h.covered⟩
    · have h := hborne a (Table.get_mem ha)
      have hleft : 0 ≤ a.toWithdraw - a.withdrawn := h.left
      have hcovered : a.toWithdraw - a.withdrawn ≤ a.vestingShares - a.delegatedVestingShares :=
        h.covered
      have hborrowed : 0 ≤ db.borrowed name := Table.total_nonneg hkept.lent _ name
      rw [hreceived name a ha]
      omega
  · rintro ⟨⟨hkept, hregular⟩, hledger⟩
    refine ⟨⟨hkept, hledger.delegated, hledger.received⟩, fun a ha => ?_⟩
    obtain ⟨hwithdrawn, hrate, hdivides, hidle⟩ := hregular a ha
    obtain ⟨hleft, hcovered⟩ := hledger.covered a ha
    exact ⟨hleft, hcovered, hwithdrawn, hrate, hdivides, hidle⟩

end Db

/-- **The ledger of delegations** is kept by everything that the chain does, as long as no
conversion to shares overflows and no account is drained that has delegated or is withdrawing. -/
theorem delegation_ledger_preserved (env : Env) :
    Preserved env (Event.Bearable env.fc) fun db =>
      db.Stored env.fc ∧ (db.LoansKept ∧ db.PowerDownsRegular) ∧ db.DelegationLedger := by
  have hkeeps := burdens_keepsBlock env
  simp only [and_assoc, Db.delegationLedger_iff] at hkeeps
  simp only [and_assoc]
  exact hkeeps.preserved

/-! ## States whose rows are in order -/

namespace Db

variable {db : Db}

/-- The accounts of the rows are found, and every account agrees with the tables. -/
structure Orderly (db : Db) : Prop where
  delegations : (db.vestingDelegations.rows.map (·.id)).Nodup ∧ db.vestingDelegations.All fun d =>
    d.id < db.vestingDelegations.nextId ∧ 0 ≤ d.vestingShares ∧
      (db.findAccount d.delegator).isSome ∧ (db.findAccount d.delegatee).isSome
  expirations : db.vestingDelegationExpirations.rows = []
  accounts : db.accounts.All fun a => a.delegatedVestingShares = db.lent a.name ∧
    a.receivedVestingShares = db.borrowed a.name ∧ 0 ≤ a.toWithdraw - a.withdrawn ∧
    a.toWithdraw - a.withdrawn ≤ a.vestingShares - a.delegatedVestingShares

theorem Orderly.limbo (h : db.Orderly) (name : AccountName) : db.limbo name = 0 := by
  refine Table.total_of_absent _ fun e he => ?_
  rw [h.expirations] at he
  cases he

theorem Orderly.loansKept (h : db.Orderly) : db.LoansKept where
  delegations := ⟨h.delegations.1, fun d hd => (h.delegations.2 d hd).1⟩
  expirations := by
    refine ⟨?_, fun e he => ?_⟩
    · rw [h.expirations]
      exact List.nodup_nil
    · rw [h.expirations] at he
      cases he
  lent d hd := (h.delegations.2 d hd).2.1
  limbo e he := by
    rw [h.expirations] at he
    cases he
  known name hnone := by
    have hlent : db.lent name = 0 := by
      refine Table.total_of_absent _ fun d hd heq => ?_
      have hfound := (h.delegations.2 d hd).2.2.1
      rw [heq, hnone] at hfound
      cases hfound
    have hborrowed : db.borrowed name = 0 := by
      refine Table.total_of_absent _ fun d hd heq => ?_
      have hfound := (h.delegations.2 d hd).2.2.2
      rw [heq, hnone] at hfound
      cases hfound
    rw [hlent, h.limbo, hborrowed]
    exact ⟨rfl, rfl⟩

theorem Orderly.ledger (h : db.Orderly) : db.DelegationLedger where
  delegated name a ha := by
    rw [← Table.get_key ha, h.limbo, add_zero]
    exact (h.accounts a (Table.get_mem ha)).1
  received name a ha := by
    rw [← Table.get_key ha]
    exact (h.accounts a (Table.get_mem ha)).2.1
  covered a ha := (h.accounts a ha).2.2
  effective name a ha := by
    obtain ⟨-, hreceived, hleft, hcovered⟩ := h.accounts a (Table.get_mem ha)
    have hborrowed : 0 ≤ db.borrowed a.name := Table.total_nonneg (h.loansKept.lent) _ a.name
    omega

/-- An account whose shares do not cover what rests on them. -/
def overburdened (db : Db) : Bool :=
  db.accounts.rows.any fun a => decide (a.toWithdraw - a.withdrawn < 0 ∨
    a.vestingShares - a.delegatedVestingShares < a.toWithdraw - a.withdrawn)

theorem not_ledger_of_overburdened (h : db.overburdened = true) : ¬ db.DelegationLedger := by
  intro hledger
  obtain ⟨a, ha, hbad⟩ := List.any_eq_true.1 h
  obtain ⟨hleft, hcovered⟩ := hledger.covered a ha
  have hbad' := of_decide_eq_true hbad
  omega

end Db

/-! ## Runs that keep the ledger and runs that lose it -/

/-- alice delegates shares to bob and starts a power-down. -/
def smallLoan : List Operation :=
  [.delegateVestingShares { delegator := "alice", delegatee := "bob"
                            vestingShares := ⟨5000, sharesSymbol⟩ },
    .withdrawVesting { account := "alice", vestingShares := ⟨1000, sharesSymbol⟩ }]

theorem delegation_ledger_preserved_loan :
    ∃ s', ((smallStore [{ id := 4, name := "bob" }]).applyBlocks smallEnv 2 { merkleCheck := true }
      [smallBlock smallLoan] 0).2 = .ok s' ∧ s'.db.DelegationLedger := by
  have hrun : returns ((smallStore [{ id := 4, name := "bob" }]).applyBlocks smallEnv 2
      { merkleCheck := true } [smallBlock smallLoan] 0).2 (fun _ => true) = true := by
    decide +kernel
  have hbearable : ∀ e ∈ ((smallStore [{ id := 4, name := "bob" }]).applyBlocks smallEnv 2
      { merkleCheck := true } [smallBlock smallLoan] 0).1, e.Bearable smallEnv.fc := by
    decide +kernel
  have horderly : (smallStore [{ id := 4, name := "bob" }]).db.Orderly := by
    refine ⟨by decide +kernel, rfl, ?_⟩
    decide +kernel
  have hregular : (smallStore [{ id := 4, name := "bob" }]).db.PowerDownsRegular := by
    unfold Db.PowerDownsRegular
    decide +kernel
  have hstored : (smallStore [{ id := 4, name := "bob" }]).db.Stored smallEnv.fc :=
    fun p hp => absurd hp List.not_mem_nil
  obtain ⟨s', hs', -⟩ := returns_eq_true hrun
  refine ⟨s', hs', ?_⟩
  exact ((delegation_ledger_preserved smallEnv).blocks 2 _ _ _ 0 s' rfl
    ⟨hstored, ⟨horderly.loansKept, hregular⟩, horderly.ledger⟩ hbearable hs').2.2

/-- The state before the blocks of the whale, in which bob has lent his shares to carol. -/
def lendingStore : Store :=
  let s := smallStore [
    { id := 4, name := "bob", vestingShares := 5000, delegatedVestingShares := 5000 },
    { id := 5, name := "carol", receivedVestingShares := 5000, accountOnSale := true
      accountSeller := "dave", accountOfferPrice := 100, accountOnSaleStartTime := 333
      accountOnAuction := true },
    { id := 6, name := "dave" }, { id := 7, name := "whale", vestingShares := 10 ^ 17 - 5000 }]
  { s with db := { s.db with
      dgp := { s.db.dgp with
        currentSupply := 10 ^ 14 + 3000, totalVestingFund := 10 ^ 14 + 1000
        totalVestingShares := 10 ^ 17 + 1000000 }
      vestingDelegations := ⟨[⟨0, "bob", "carol", 5000, 0⟩], 1⟩
      blockSummaries := whaleStore.db.blockSummaries } }

/-- Block 3705111 gives the null account shares, which it lends to bob in a transaction that
nobody has signed. -/
def nullLoanBlock : SignedBlock :=
  lenientBlock
    [.transferToVesting { fromAccount := "alice", toAccount := "null", amount := ⟨500, tokenSymbol⟩ }]
    [.delegateVestingShares
      { delegator := "null", delegatee := "bob", vestingShares := ⟨500000, sharesSymbol⟩ }]

/-- Two runs that start with the ledger in order and end without: what dave was paid for an
uncovered bid is vested for bob, who gets a negative number of shares, and the shares of the null
account are burnt although it has lent them. -/
theorem ledger_lost :
    (lendingStore.db.DelegationLedger ∧
      ∃ s', (lendingStore.applyBlocks smallEnv 2 { merkleCheck := true } whaleBlocks 0).2 = .ok s' ∧
        ¬ s'.db.DelegationLedger) ∧
    (lenientStore [{ id := 4, name := "bob" }]).db.DelegationLedger ∧
      ∃ s', ((lenientStore [{ id := 4, name := "bob" }]).applyBlocks smallEnv 2
        { merkleCheck := true, blockLog := true } [nullLoanBlock] 0).2 = .ok s' ∧
        ¬ s'.db.DelegationLedger := by
  have hlost {r : StoreResult Store} (h : returns r (fun s => s.db.overburdened) = true) :
      ∃ s', r = .ok s' ∧ ¬ s'.db.DelegationLedger := by
    obtain ⟨s', hs', hbad⟩ := returns_eq_true h
    exact ⟨s', hs', Db.not_ledger_of_overburdened hbad⟩
  refine ⟨⟨Db.Orderly.ledger ⟨by decide +kernel, rfl, by decide +kernel⟩, hlost ?_⟩,
    Db.Orderly.ledger ⟨by decide +kernel, rfl, by decide +kernel⟩, hlost ?_⟩
  · decide +kernel
  · decide +kernel

end VizCore.Chain
