import VizCore.Chain.Invariant

/-!
# The ledger of vesting shares

The shares of the accounts add up to `total_vesting_shares`.  The total is adjusted apart from
the accounts, and a withdrawal changes it at three places: the routes that vest again leave it
alone, the routes that pay tokens take their part out, and so does the rest.

* `StakeMove`: how much a change moves the difference of the two;
* `withdrawFrom_stake`: a withdrawal with routes of at most 100% does not move it;
* `shares_match_preserved`: everything that the chain does keeps the total.
-/

namespace VizCore.Chain

open VizCore.Lib VizCore.Protocol

/-- What the accounts hold, and the total. -/
structure StakeBook where
  accounts : Table StakeRow
  total : Int

def Aspect.View.stakes (v : Aspect.View .stake) : StakeBook := ⟨v.rows, (v.rest : StakeRest).totalShares⟩

namespace StakeBook

/-- The shares of the accounts less their total. -/
def gap (b : StakeBook) : Int := b.accounts.sum (·.shares) - b.total

/-- Every amount of shares fits in 64 bits. -/
def Small (b : StakeBook) : Prop := b.accounts.All fun r => r.shares < 2 ^ 63

end StakeBook

def Db.stakes (db : Db) : StakeBook := (db.view .stake).stakes

/-- A change that moves the difference by `d`. -/
structure StakeMove (d : Int) (db db' : Db) : Prop where
  gap : db'.stakes.gap = db.stakes.gap + d
  small : db.stakes.Small → db'.stakes.Small

namespace StakeMove

variable {a b c : Db} {d e : Int}

theorem of_view (h : b.view .stake = a.view .stake) : StakeMove 0 a b := by
  have hstakes : b.stakes = a.stakes := congrArg Aspect.View.stakes h
  constructor
  · rw [hstakes, add_zero]
  · rw [hstakes]
    exact id

theorem of_core (h : b.core = a.core) : StakeMove 0 a b := of_view (Db.view_of_core h)

theorem trans (h : StakeMove d a b) (h' : StakeMove e b c) : StakeMove (d + e) a c := by
  constructor
  · rw [h'.gap, h.gap, add_assoc]
  · exact fun ha => h'.small (h.small ha)

theorem then_same (h : StakeMove d a b) (h' : c.view .stake = b.view .stake) :
    StakeMove d a c := by
  have hmove := h.trans (of_view h')
  rwa [add_zero] at hmove

theorem cast (h : StakeMove d a b) (hd : d = e) : StakeMove e a b := hd ▸ h

end StakeMove

namespace Db

variable {db db' : Db} {name : AccountName}

theorem stakes_find (db : Db) (name : AccountName) :
    db.stakes.accounts.get (·.name) name =
      (db.findAccount name).map fun a => ⟨a.name, a.vestingShares⟩ :=
  rows_find (x := .stake) db (fun _ => rfl) name

/-- The shares of the account that was read are set. -/
theorem stake_modifyAccount {a : AccountObject} (ha : db.findAccount name = some a)
    (f : AccountObject → AccountObject) {s : Int} (hs : s < 2 ^ 63)
    (hf : ∀ b, (f b).name = b.name ∧ (f b).vestingShares = s) :
    StakeMove (s - a.vestingShares) db (db.modifyAccount name f) := by
  have hrow : ∀ b, Aspect.row .stake (f b).core =
      (fun r : StakeRow => { r with shares := s }) (Aspect.row .stake b.core) := by
    intro b
    show StakeRow.mk (f b).name (f b).vestingShares = _
    rw [(hf b).1, (hf b).2]
    rfl
  have hstakes : (db.modifyAccount name f).stakes =
      ⟨db.stakes.accounts.update (·.name) name fun r => { r with shares := s }, db.stakes.total⟩ :=
    congrArg (StakeBook.mk · _) (rows_modifyAccount (x := .stake) db (fun _ => rfl) name f _ hrow)
  have hget := stakes_find db name
  rw [ha, Option.map_some] at hget
  constructor
  · have hsum := Table.sum_update db.stakes.accounts (·.name) name
      (fun r => { r with shares := s }) (·.shares) hget
    simp only [hstakes, StakeBook.gap, hsum]
    omega
  · intro hsmall
    rw [hstakes]
    exact Table.all_update hsmall fun _ _ _ => hs

/-- The total of the shares is set. -/
theorem stake_modifyDgp (db : Db) (f : DynamicGlobalPropertyObject → DynamicGlobalPropertyObject)
    {total : Int} (hf : (f db.dgp).totalVestingShares = total) :
    StakeMove (db.dgp.totalVestingShares - total) db (db.modifyDgp f) := by
  have hstakes : (db.modifyDgp f).stakes = ⟨db.stakes.accounts, total⟩ :=
    congrArg (StakeBook.mk _) hf
  have htotal : db.stakes.total = db.dgp.totalVestingShares := rfl
  constructor
  · simp only [hstakes, StakeBook.gap, htotal]
    omega
  · rw [hstakes]
    exact id

theorem addVestingShares_stake {v : Int} (h : db.addVestingShares name v = .ok db') :
    StakeMove v db db' := by
  simp only [addVestingShares, getAccount, bind_eq_ok, getOrThrow_eq_ok, safeAdd_eq_ok] at h
  obtain ⟨a, ha, _, ⟨hfits, rfl⟩, hvotes⟩ := h
  have hview := view_of_votesOnly (x := .stake) (by decide) (by decide)
    (adjustProxiedWitnessVotes_votesOnly hvotes)
  refine (StakeMove.then_same (stake_modifyAccount ha _ hfits.2 ?_) hview).cast (by omega)
  exact fun _ => ⟨rfl, rfl⟩

theorem redeemVesting_stake {t v : Int} (h : db.redeemVesting t v = .ok db') :
    StakeMove v db db' := by
  simp only [redeemVesting, bind_eq_ok, safeSub_eq_ok, pure_eq_ok] at h
  obtain ⟨_, -, _, ⟨-, rfl⟩, rfl⟩ := h
  refine (stake_modifyDgp db _ ?_).cast (sub_sub_cancel _ v)
  rfl

theorem createVesting_stake {tokens : Int} (h : db.createVesting name tokens = .ok db') :
    StakeMove 0 db db' := by
  obtain ⟨a, v, ha, -, hfits, hvotes⟩ := createVesting_eq h
  have hview := view_of_votesOnly (x := .stake) (by decide) (by decide) hvotes
  have hgrant : StakeMove (a.vestingShares + v - a.vestingShares) db
      (db.modifyAccount name fun x => { x with vestingShares := a.vestingShares + v }) :=
    stake_modifyAccount ha _ hfits.2 fun _ => ⟨rfl, rfl⟩
  have htotal : StakeMove (db.dgp.totalVestingShares - (db.dgp.totalVestingShares + v)) _ _ :=
    stake_modifyDgp (db.modifyAccount name fun x =>
      { x with vestingShares := a.vestingShares + v }) (fun p => { p with
        totalVestingFund := db.dgp.totalVestingFund + tokens
        totalVestingShares := db.dgp.totalVestingShares + v }) rfl
  exact ((hgrant.trans htotal).then_same hview).cast (by omega)

theorem finishWithdrawal_stake {amount tokens : Int}
    (h : db.finishWithdrawal name amount tokens = .ok db') : StakeMove (-amount) db db' := by
  simp only [finishWithdrawal, getAccount, bind_eq_ok, getOrThrow_eq_ok, safeSub_eq_ok,
    pure_eq_ok] at h
  obtain ⟨a, ha, _, ⟨hfits, rfl⟩, balance, -, withdrawn, -, rfl⟩ := h
  refine (stake_modifyAccount ha _ hfits.2 fun b => ?_).cast (by omega)
  unfold afterWithdrawal
  split
  · exact ⟨rfl, rfl⟩
  · exact ⟨rfl, rfl⟩

/-! ## Withdrawals -/

/-- What a withdrawal takes is no more than the shares, so it fits in 64 bits. -/
theorem withdrawalAmount_small {a : AccountObject} {amount : Int} (ha : a.vestingShares < 2 ^ 63)
    (h : withdrawalAmount a = .ok amount) : 0 ≤ amount ∧ amount < 2 ^ 63 := by
  simp only [withdrawalAmount, bind_eq_ok] at h
  obtain ⟨left, -, h⟩ := h
  split at h
  · simp only [bind_eq_ok, pure_eq_ok] at h
    obtain ⟨last, -, rfl⟩ := h
    omega
  · rw [pure_eq_ok] at h
    omega

theorem depositShares_stake {amount v v' : Int} {r : WithdrawVestingRouteObject}
    (hfit : RoutesFit amount [r]) (h : depositShares amount (v, db) r = .ok (v', db')) :
    StakeMove (vestedPart amount r) db db' ∧ v' = v + vestedPart amount r := by
  have hpart := vestedPart_nonneg hfit.1 r
  unfold depositShares at h
  split at h
  · rename_i hauto
    simp only [bind_eq_ok, safeAdd_eq_ok] at h
    obtain ⟨d, hd, _, ⟨-, rfl⟩, h⟩ := h
    have hd' := routeDeposit_eq hfit.1 hfit.2.1 (hfit.2.2 r (by simp)) hd
    rw [vestedPart, if_pos hauto, ← hd'] at hpart ⊢
    split at h
    · simp only [bind_eq_ok, pure_eq_ok, Prod.mk.injEq] at h
      obtain ⟨a, -, db₁, hadd, rfl, rfl⟩ := h
      exact ⟨addVestingShares_stake hadd, rfl⟩
    · simp only [pure_eq_ok, Prod.mk.injEq] at h
      obtain ⟨rfl, rfl⟩ := h
      exact ⟨(StakeMove.of_view rfl).cast (by omega), rfl⟩
  · rename_i hauto
    cases h
    rw [vestedPart, if_neg hauto]
    exact ⟨.of_view rfl, (add_zero v).symm⟩

theorem depositTokens_stake {amount v v' : Int} {r : WithdrawVestingRouteObject}
    (hfit : RoutesFit amount [r]) (h : depositTokens amount (v, db) r = .ok (v', db')) :
    StakeMove (paidPart amount r) db db' ∧ v' = v + paidPart amount r := by
  have hpart := paidPart_nonneg hfit.1 r
  unfold depositTokens at h
  split at h
  · rename_i hauto
    cases h
    rw [paidPart, if_pos hauto]
    exact ⟨.of_view rfl, (add_zero v).symm⟩
  · rename_i hauto
    simp only [bind_eq_ok, safeAdd_eq_ok] at h
    obtain ⟨a, -, d, hd, _, ⟨-, rfl⟩, t, -, h⟩ := h
    have hd' := routeDeposit_eq hfit.1 hfit.2.1 (hfit.2.2 r (by simp)) hd
    rw [paidPart, if_neg hauto, ← hd'] at hpart ⊢
    split at h
    · simp only [bind_eq_ok, pure_eq_ok, Prod.mk.injEq] at h
      obtain ⟨db₁, hpay, db₂, hredeem, rfl, rfl⟩ := h
      exact ⟨((StakeMove.of_core (adjustBalance_core hpay)).trans
        (redeemVesting_stake hredeem)).cast (zero_add d), rfl⟩
    · simp only [pure_eq_ok, Prod.mk.injEq] at h
      obtain ⟨rfl, rfl⟩ := h
      exact ⟨(StakeMove.of_view rfl).cast (by omega), rfl⟩

/-- A pass over the routes moves the sum of their parts. -/
theorem routes_stake {amount : Int} {part : WithdrawVestingRouteObject → Int}
    {deposit : Int × Db → WithdrawVestingRouteObject → Result (Int × Db)}
    (hstep : ∀ v db r v' db', RoutesFit amount [r] → deposit (v, db) r = .ok (v', db') →
      StakeMove (part r) db db' ∧ v' = v + part r)
    {routes : List WithdrawVestingRouteObject} (hfit : RoutesFit amount routes) {v v' : Int}
    (h : routes.foldlM deposit (v, db) = .ok (v', db')) :
    StakeMove (routes.map part).sum db db' ∧ v' = v + (routes.map part).sum := by
  induction routes generalizing v db with
  | nil =>
    simp only [List.foldlM_nil, pure_eq_ok, Prod.mk.injEq] at h
    obtain ⟨rfl, rfl⟩ := h
    exact ⟨.of_view rfl, (add_zero v).symm⟩
  | cons r rest ih =>
    rw [List.foldlM_cons, bind_eq_ok] at h
    obtain ⟨⟨v₁, db₁⟩, hfirst, hrest⟩ := h
    have hone : RoutesFit amount [r] :=
      ⟨hfit.1, hfit.2.1, fun q hq => hfit.2.2 q (by simp_all)⟩
    obtain ⟨hmove, rfl⟩ := hstep v db r v₁ db₁ hone hfirst
    obtain ⟨hmove', rfl⟩ := ih hfit.tail hrest
    rw [List.map_cons, List.sum_cons]
    exact ⟨hmove.trans hmove', add_assoc _ _ _⟩

/-- **One withdrawal** over routes that take at most 100%. -/
theorem withdrawFrom_stake {a : AccountObject} (ha : a.vestingShares < 2 ^ 63)
    (hroutes : db.terms.routesPercent a.id ≤ 10000) (h : db.withdrawFrom a = .ok db') :
    StakeMove 0 db db' := by
  simp only [withdrawFrom, bind_eq_ok, safeSub_eq_ok] at h
  obtain ⟨amount, hamount, ⟨vested, db₁⟩, hvested, ⟨paid, db₂⟩, hpaid, _, ⟨-, rfl⟩, _, ⟨-, rfl⟩, tokens,
    -, _, -, db₃, henergy, db₄, hfinish, db₅, hredeem, h⟩ := h
  obtain ⟨hpos, hsmall⟩ := withdrawalAmount_small ha hamount
  unfold Terms.routesPercent at hroutes
  generalize db.terms.routesOf a.id = routes at hvested hpaid hroutes
  have hfit : RoutesFit amount routes :=
    ⟨hpos, hsmall, fun r hr => (List.single_le_sum (fun _ _ => Nat.zero_le _) _
      (List.mem_map_of_mem hr)).trans hroutes⟩
  obtain ⟨hmove₁, rfl⟩ := routes_stake (fun _ _ _ _ _ => depositShares_stake) hfit hvested
  obtain ⟨hmove₂, rfl⟩ := routes_stake (fun _ _ _ _ _ => depositTokens_stake) hfit hpaid
  have hparts := sum_parts_le hpos routes hroutes
  have hmove₃ := (hmove₁.trans hmove₂).trans (StakeMove.of_core (sharesSenderRecalcEnergy_core henergy))
  have hmove₅ := (hmove₃.trans (finishWithdrawal_stake hfinish)).trans (redeemVesting_stake hredeem)
  have hview : db'.view .stake = db₅.view .stake := by
    split at h
    · exact view_of_votesOnly (by decide) (by decide) (adjustProxiedWitnessVotes_votesOnly h)
    · rw [pure_eq_ok] at h
      rw [h]
  exact (hmove₅.then_same hview).cast (by omega)

end Db

/-! ## Routes -/

/-- The routes of no account take more than 100%. -/
def RoutesWithin (t : Table WithdrawVestingRouteObject) : Prop :=
  ∀ account, (t.sum fun r =>
    if r.fromAccount = account ∧ 0 < r.toAccount then (r.percent : Int) else 0) ≤ 10000

namespace Db

variable {db db' : Db} {name : AccountName}

theorem routesWithin_iff (db : Db) : RoutesWithin db.withdrawVestingRoutes ↔
    ∀ account, db.terms.routesPercent account ≤ 10000 := by
  constructor
  · intro h account
    have hsum := Terms.routesPercent_eq db.terms account
    have hle := h account
    have hcast : (db.terms.routesPercent account : Int) ≤ 10000 := hsum.trans_le hle
    exact_mod_cast hcast
  · intro h account
    have hsum := Terms.routesPercent_eq db.terms account
    have hle : (db.terms.routesPercent account : Int) ≤ 10000 := by exact_mod_cast h account
    exact hsum.symm.trans_le hle

/-- The evaluator checks the sum, which does not wrap in 16 bits. -/
theorem setWithdrawVestingRoute_within {o : SetWithdrawVestingRouteOperation}
    (hv : o.validate = .ok ()) (hdb : RoutesWithin db.withdrawVestingRoutes)
    (h : db.setWithdrawVestingRoute o = .ok db') : RoutesWithin db'.withdrawVestingRoutes := by
  rw [routesWithin_iff] at hdb ⊢
  simp only [SetWithdrawVestingRouteOperation.validate, bind_eq_ok, fcAssert_eq_ok] at hv
  obtain ⟨_, -, _, -, hpercent⟩ := hv
  simp only [setWithdrawVestingRoute, bind_eq_ok, fcAssert_eq_ok, pure_eq_ok] at h
  obtain ⟨sender, -, receiver, -, db₁, hstore, _, htotal, rfl⟩ := h
  obtain ⟨-, hothers, hsender⟩ := storeRoute_routes hstore
  intro account
  by_cases hne : account = sender.id
  · subst hne
    have hbefore := hdb sender.id
    rwa [Nat.mod_eq_of_lt (by omega)] at htotal
  · rw [hothers account hne]
    exact hdb account

theorem routes_of_view (h : db'.view .routes = db.view .routes) :
    db'.withdrawVestingRoutes = db.withdrawVestingRoutes :=
  congrArg Aspect.View.rest h

theorem routesWithin_steady : Steady .routes fun v => RoutesWithin v.rest := by
  intro g db db' hglide hdb
  cases hglide with
  | same h => exact h ▸ hdb
  | register name recovery memo auth hauth hnew h => exact h ▸ hdb
  | declare owner hnew h => exact h ▸ hdb
  | vest name tokens ok h => exact createVesting_view (x := .routes) rfl h ▸ hdb

end Db

/-- **Routes** never take more than 100%. -/
theorem routes_keepsBlock (env : Env) (C : Event → Prop) :
    KeepsBlock env C fun db => db.Stored env.fc ∧ RoutesWithin db.withdrawVestingRoutes := by
  refine (stored_keepsBlock env C).aspect (x := .routes) (P := fun v => RoutesWithin v.rest)
    (by decide) (by decide) (by decide) Db.routesWithin_steady ?_ ?_
  · intro clock db op db' htouch _ hv _ h hdb
    cases op with
    | setWithdrawVestingRoute o => exact Db.setWithdrawVestingRoute_within hv hdb h
    | _ => cases htouch
  · intro skip b db st db' htouch _ _ _ _
    cases st <;> cases htouch

/-! ## The total -/

namespace StakeBook

/-- The shares add up to their total. -/
structure Balanced (b : StakeBook) : Prop where
  gap : b.gap = 0
  small : b.Small

theorem Balanced.move {db db' : Db} (hdb : db.stakes.Balanced) (h : StakeMove 0 db db') :
    db'.stakes.Balanced := by
  constructor
  · rw [h.gap, hdb.gap, add_zero]
  · exact h.small hdb.small

end StakeBook

namespace Db

variable {db db' : Db} {name : AccountName}

theorem withdrawLoop_stake {fuel : Nat} {next : Option AccountName}
    (hroutes : RoutesWithin db.withdrawVestingRoutes) (hdb : db.stakes.Balanced)
    (h : withdrawLoop fuel db next = .ok db') : db'.stakes.Balanced := by
  induction fuel generalizing db next with
  | zero => cases h
  | succ fuel ih =>
    cases next with
    | none =>
      cases h
      exact hdb
    | some name =>
      simp only [withdrawLoop, getAccount, bind_eq_ok, getOrThrow_eq_ok] at h
      obtain ⟨a, ha, h⟩ := h
      split at h
      · simp only [bind_eq_ok] at h
        obtain ⟨db₁, hstep, hrest⟩ := h
        have hget := stakes_find db name
        rw [ha, Option.map_some] at hget
        have hsmall : a.vestingShares < 2 ^ 63 := hdb.small _ (Table.get_mem hget)
        have hmove := withdrawFrom_stake hsmall ((routesWithin_iff db).1 hroutes a.id) hstep
        refine ih ?_ (hdb.move hmove) hrest
        rw [routes_of_view (withdrawFrom_view rfl hstep)]
        exact hroutes
      · rw [pure_eq_ok] at h
        exact h ▸ hdb

theorem drainAccount_stake {total : Int} (h : db.drainAccount name = .ok (total, db')) :
    StakeMove 0 db db' := by
  simp only [drainAccount, bind_eq_ok] at h
  obtain ⟨⟨balance, db₁⟩, hbalance, ⟨tokens, db₂⟩, hshares, h⟩ := h
  simp only [pure_eq_ok, Prod.mk.injEq] at h
  obtain ⟨_, -, -, rfl⟩ := h
  have hcore : db₁.core = db.core := by
    simp only [drainBalance, bind_eq_ok] at hbalance
    obtain ⟨a, -, h⟩ := hbalance
    split at h
    · simp only [bind_eq_ok, pure_eq_ok, Prod.mk.injEq] at h
      obtain ⟨db₃, hpay, -, rfl⟩ := h
      exact adjustBalance_core hpay
    · simp only [pure_eq_ok, Prod.mk.injEq] at h
      rw [h.2]
  refine ((StakeMove.of_core hcore).trans ?_).cast (add_zero 0)
  simp only [drainShares, getAccount, bind_eq_ok, getOrThrow_eq_ok] at hshares
  obtain ⟨a, ha, h⟩ := hshares
  split at h
  · simp only [bind_eq_ok, pure_eq_ok, Prod.mk.injEq] at h
    obtain ⟨_, -, db₃, hredeem, -, rfl⟩ := h
    have hfound : db₃.findAccount name = some a := by
      simp only [redeemVesting, bind_eq_ok, pure_eq_ok] at hredeem
      obtain ⟨_, -, _, -, rfl⟩ := hredeem
      exact ha
    have hzero : StakeMove (0 - a.vestingShares) db₃
        (db₃.modifyAccount name fun b => { b with vestingShares := 0 }) :=
      stake_modifyAccount hfound _ (by norm_num) fun _ => ⟨rfl, rfl⟩
    exact ((redeemVesting_stake hredeem).trans hzero).cast (by omega)
  · simp only [pure_eq_ok, Prod.mk.injEq] at h
    rw [← h.2]
    exact .of_view rfl

theorem burnBalance_stake (h : db.burnBalance name = .ok db') : StakeMove 0 db db' := by
  simp only [burnBalance, bind_eq_ok] at h
  obtain ⟨⟨total, db₁⟩, hdrain, h⟩ := h
  have hmove := drainAccount_stake hdrain
  split at h
  · exact hmove.then_same (view_of_core (burnAsset_core h))
  · rw [pure_eq_ok] at h
    exact h ▸ hmove

theorem claimCommitteeAccountBalance_stake (h : db.claimCommitteeAccountBalance = .ok db') :
    StakeMove 0 db db' := by
  simp only [claimCommitteeAccountBalance, bind_eq_ok] at h
  obtain ⟨⟨total, db₁⟩, hdrain, h⟩ := h
  have hmove := drainAccount_stake hdrain
  split at h
  · exact hmove.then_same (view_of_core (addCommitteeFund_core h))
  · rw [pure_eq_ok] at h
    exact h ▸ hmove

theorem balanced_steady : Steady .stake fun v => v.stakes.Balanced := by
  intro g db db' hglide hdb
  cases hglide with
  | same h => exact StakeBook.Balanced.move hdb (.of_view h)
  | register name recovery memo auth hauth hnew h =>
    have hrows : ((db.core.register name recovery memo auth).view .stake).stakes =
        ⟨db.stakes.accounts.create fun _ => ⟨name, 0⟩, db.stakes.total⟩ :=
      congrArg (StakeBook.mk · _) (Table.image_create _ _ _)
    have hbook : ((db.core.register name recovery memo auth).view .stake).stakes.Balanced := by
      rw [hrows]
      refine ⟨?_, Table.all_create hdb.small (by norm_num)⟩
      unfold StakeBook.gap
      rw [Table.sum_create]
      exact (congrArg (· - _) (add_zero _)).trans hdb.gap
    exact h ▸ hbook
  | declare owner hnew h => exact h ▸ hdb
  | vest name tokens ok h => exact StakeBook.Balanced.move hdb (createVesting_stake h)

end Db

theorem balanced_keepsBlock (env : Env) (C : Event → Prop) :
    KeepsBlock env C fun db => (db.Stored env.fc ∧ RoutesWithin db.withdrawVestingRoutes) ∧
      db.stakes.Balanced := by
  refine (routes_keepsBlock env C).aspect (x := .stake) (P := fun v => v.stakes.Balanced)
    (by decide) (by decide) (by decide) Db.balanced_steady ?_ ?_
  · intro clock db op db' htouch _ _ _ _ _
    cases op <;> cases htouch
  · intro skip b db st db' htouch hR _ h hdb
    cases st with
    | processVestingWithdrawals => exact Db.withdrawLoop_stake hR.2 hdb h
    | clearNullAccountBalance => exact hdb.move (Db.burnBalance_stake h)
    | clearAnonymousAccountBalance => exact hdb.move (Db.burnBalance_stake h)
    | claimCommitteeAccountBalance => exact hdb.move (Db.claimCommitteeAccountBalance_stake h)
    | _ => cases htouch

/-! ## The claim about account objects -/

/-- The shares of the accounts add up to the total. -/
def Db.SharesMatch (db : Db) : Prop :=
  db.dgp.totalVestingShares = db.accounts.sum (·.vestingShares)

/-- Every amount of shares is a value of its type. -/
def Db.SharesFit (db : Db) : Prop := db.accounts.All fun a => a.vestingShares < 2 ^ 63

theorem Db.balanced_iff (db : Db) :
    db.stakes.Balanced ↔ db.SharesMatch ∧ db.SharesFit := by
  have hrows : db.stakes.accounts = db.accounts.image fun a => ⟨a.name, a.vestingShares⟩ :=
    Table.image_image _ _ _
  have hsum : db.stakes.accounts.sum (·.shares) = db.accounts.sum (·.vestingShares) := by
    rw [hrows]
    exact Table.sum_image _ _ _
  have hsmall : db.stakes.Small ↔ db.SharesFit := by
    unfold StakeBook.Small Db.SharesFit Table.All
    rw [hrows]
    exact List.forall_mem_map
  have htotal : db.stakes.total = db.dgp.totalVestingShares := rfl
  constructor
  · intro h
    have hgap := h.gap
    unfold StakeBook.gap at hgap
    rw [hsum, htotal] at hgap
    exact ⟨(sub_eq_zero.1 hgap).symm, hsmall.1 h.small⟩
  · rintro ⟨hmatch, hfit⟩
    refine ⟨?_, hsmall.2 hfit⟩
    unfold StakeBook.gap
    rw [hsum, htotal]
    exact sub_eq_zero.2 hmatch.symm

/-- **The share ledger.**  Everything that the chain does keeps the total of the vesting shares
equal to the sum over the accounts.  Routes never take more than 100%, and the same steps keep
that. -/
theorem shares_match_preserved (env : Env) :
    Preserved env (fun _ => True) fun db =>
      (db.Stored env.fc ∧ RoutesWithin db.withdrawVestingRoutes) ∧ db.SharesMatch ∧ db.SharesFit := by
  have hkeeps := balanced_keepsBlock env fun _ => True
  simp only [Db.balanced_iff] at hkeeps
  exact hkeeps.preserved

/-- alice vests 500 tokens for bob. -/
def smallVesting : Operation :=
  .transferToVesting { fromAccount := "alice", toAccount := "bob", amount := ⟨500, tokenSymbol⟩ }

theorem shares_match_preserved_vesting :
    ∃ s', ((smallStore [{ id := 4, name := "bob" }]).applyBlocks smallEnv 2 { merkleCheck := true }
      [smallBlock [smallVesting]] 0).2 = .ok s' ∧ s'.db.SharesMatch := by
  have hrun : returns ((smallStore [{ id := 4, name := "bob" }]).applyBlocks smallEnv 2
      { merkleCheck := true } [smallBlock [smallVesting]] 0).2 (fun _ => true) = true := by
    decide +kernel
  obtain ⟨s', hs', -⟩ := returns_eq_true hrun
  refine ⟨s', hs', ?_⟩
  have hfit : (smallStore [{ id := 4, name := "bob" }]).db.SharesFit := by
    unfold Db.SharesFit
    decide +kernel
  have hmatch : (smallStore [{ id := 4, name := "bob" }]).db.SharesMatch := by
    unfold Db.SharesMatch
    decide +kernel
  have hstored : (smallStore [{ id := 4, name := "bob" }]).db.Stored smallEnv.fc :=
    fun _ hp => (nomatch hp)
  have hroutes : RoutesWithin (smallStore [{ id := 4, name := "bob" }]).db.withdrawVestingRoutes :=
    fun _ => Int.zero_le_ofNat 10000
  exact ((shares_match_preserved smallEnv).blocks 2 _ _ _ 0 s' rfl
    ⟨⟨hstored, hroutes⟩, hmatch, hfit⟩ (fun _ _ => trivial) hs').2.1

end VizCore.Chain
