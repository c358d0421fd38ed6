import VizCore.Chain.Flow

/-!
# Vesting withdrawals

The per-block steps of `database.cpp` that turn vesting shares back into tokens:
`process_vesting_withdrawals`, and the clearing of the null, the anonymous and the
committee account.

* `processVestingWithdrawals_flow`: a withdrawal makes no tokens, and as long as the
  routes of an account take at most 100% it makes no shares;
* `burnBalance_flow`, `claimCommitteeAccountBalance_flow`: what a system account held
  is burnt, or goes to the committee fund.
-/

namespace VizCore.Chain

open VizCore.Lib VizCore.Protocol

/-- `CHAIN_VESTING_WITHDRAW_INTERVAL_SECONDS` -/
def vestingWithdrawInterval : Nat := 60 * 60 * 24

/-- The order of `by_next_vesting_withdrawal`. -/
def withdrawsBefore (a b : AccountObject) : Bool :=
  a.nextVestingWithdrawal < b.nextVestingWithdrawal ||
    (a.nextVestingWithdrawal == b.nextVestingWithdrawal && a.id < b.id)

/-- The shares that the next withdrawal of an account takes. -/
def withdrawalAmount (a : AccountObject) : Result Int := do
  let left ← safeSub a.toWithdraw a.withdrawn
  if left < a.vestingWithdrawRate then
    let last ← safeMod a.toWithdraw a.vestingWithdrawRate
    return max (min a.vestingShares last) 0
  else return max (min a.vestingShares a.vestingWithdrawRate) 0

/-- The shares that a route takes of a withdrawal of `amount`. -/
def routeDeposit (amount : Int) (r : WithdrawVestingRouteObject) : Result Int :=
  toSigned64 (toUint128 amount * r.percent % 2 ^ 128 / percent100)

/-- The account after a withdrawal: the last one ends the power down. -/
def afterWithdrawal (shares balance withdrawn : Int) (a : AccountObject) : AccountObject :=
  if a.toWithdraw ≤ withdrawn ∨ shares = 0 then
    { a with
      vestingShares := shares, balance := balance, withdrawn := withdrawn
      vestingWithdrawRate := 0, nextVestingWithdrawal := timeMaximum }
  else
    { a with
      vestingShares := shares, balance := balance, withdrawn := withdrawn
      nextVestingWithdrawal := (a.nextVestingWithdrawal + vestingWithdrawInterval) % 2 ^ 32 }

namespace Db

/-- Shares are cancelled and tokens leave the vesting fund. -/
def redeemVesting (db : Db) (tokens shares : Int) : Result Db := do
  let fund ← safeSub db.dgp.totalVestingFund tokens
  let total ← safeSub db.dgp.totalVestingShares shares
  return db.modifyDgp fun p => { p with totalVestingFund := fund, totalVestingShares := total }

def addVestingShares (db : Db) (name : AccountName) (v : Int) : Result Db := do
  let a ← db.getAccount name
  let shares ← safeAdd a.vestingShares v
  let db := db.modifyAccount name fun a => { a with vestingShares := shares }
  adjustProxiedWitnessVotes v maxProxyRecursionDepth db name

/-- The first pass over the routes: those that vest again. -/
def depositShares (amount : Int) (state : Int × Db) (r : WithdrawVestingRouteObject) :
    Result (Int × Db) :=
  if r.autoVest then do
    let deposit ← routeDeposit amount r
    let total ← safeAdd state.1 deposit
    if 0 < deposit then
      let a ← state.2.getAccountById r.toAccount
      let db ← state.2.addVestingShares a.name deposit
      return (total, db)
    else return (total, state.2)
  else .ok state

/-- The second pass: the routes that pay out tokens. -/
def depositTokens (amount : Int) (state : Int × Db) (r : WithdrawVestingRouteObject) :
    Result (Int × Db) :=
  if r.autoVest then .ok state
  else do
    let a ← state.2.getAccountById r.toAccount
    let deposit ← routeDeposit amount r
    let total ← safeAdd state.1 deposit
    let tokens ← state.2.sharesToTokens deposit
    if 0 < deposit then
      let db ← state.2.adjustBalance a.name tokens
      let db ← db.redeemVesting tokens deposit
      return (total, db)
    else return (total, state.2)

def finishWithdrawal (db : Db) (name : AccountName) (amount tokens : Int) : Result Db := do
  let a ← db.getAccount name
  let shares ← safeSub a.vestingShares amount
  let balance ← safeAdd a.balance tokens
  let withdrawn ← safeAdd a.withdrawn amount
  return db.modifyAccount name (afterWithdrawal shares balance withdrawn)

/-- One pass of the loop of `process_vesting_withdrawals`. -/
def withdrawFrom (db : Db) (a : AccountObject) : Result Db := do
  let amount ← withdrawalAmount a
  let routes := db.terms.routesOf a.id
  let (vested, db) ← routes.foldlM (depositShares amount) (0, db)
  let (paid, db) ← routes.foldlM (depositTokens amount) (0, db)
  let unpaid ← safeSub amount paid
  let rest ← safeSub unpaid vested
  let toConvert := max rest 0
  let tokens ← db.sharesToTokens toConvert
  let sent ← safeAdd paid toConvert
  let db ← db.sharesSenderRecalcEnergy a.name sent
  let db ← db.finishWithdrawal a.name amount tokens
  let db ← db.redeemVesting tokens toConvert
  if 0 < amount then adjustProxiedWitnessVotes (-amount) maxProxyRecursionDepth db a.name
  else return db

/-- The account that follows `a` in the index. -/
def nextWithdrawal (db : Db) (a : AccountObject) : Option AccountName :=
  ((orderBy withdrawsBefore db.accounts.rows).find? (withdrawsBefore a)).map (·.name)

/-- The iterator moves on before the account it stood on is processed. -/
def withdrawLoop : Nat → Db → Option AccountName → Result Db
  | 0, _, _ => .error .outOfFuel
  | _ + 1, db, none => .ok db
  | fuel + 1, db, some name => do
    let a ← db.getAccount name
    if a.nextVestingWithdrawal ≤ db.headBlockTime then
      let next := db.nextWithdrawal a
      let db ← db.withdrawFrom a
      withdrawLoop fuel db next
    else return db

/-- `process_vesting_withdrawals`; every pass delays the next withdrawal of an account by a
day. -/
def processVestingWithdrawals (db : Db) : Result Db :=
  withdrawLoop
    (db.accounts.rows.length * (db.headBlockTime / vestingWithdrawInterval + 2) + 1) db
    ((orderBy withdrawsBefore db.accounts.rows).head?.map (·.name))

/-! ## System accounts -/

def drainBalance (db : Db) (name : AccountName) : Result (Int × Db) := do
  let a ← db.getAccount name
  if 0 < a.balance then
    let db ← db.adjustBalance name (-a.balance)
    return (a.balance, db)
  else return (0, db)

def drainShares (db : Db) (name : AccountName) : Result (Int × Db) := do
  let a ← db.getAccount name
  if 0 < a.vestingShares then
    let tokens ← db.sharesToTokens a.vestingShares
    let db ← db.redeemVesting tokens a.vestingShares
    return (tokens, db.modifyAccount name fun a => { a with vestingShares := 0 })
  else return (0, db)

/-- All tokens of an account, those of its shares included. -/
def drainAccount (db : Db) (name : AccountName) : Result (Int × Db) := do
  let (balance, db) ← db.drainBalance name
  let (tokens, db) ← db.drainShares name
  let total ← safeAdd balance tokens
  return (total, db)

/-- What an account holds is burnt. -/
def burnBalance (db : Db) (name : AccountName) : Result Db := do
  let (total, db) ← db.drainAccount name
  if 0 < total then db.burnAsset (-total) else return db

def clearNullAccountBalance (db : Db) : Result Db := db.burnBalance "null"

def clearAnonymousAccountBalance (db : Db) : Result Db := db.burnBalance "anonymous"

def claimCommitteeAccountBalance (db : Db) : Result Db := do
  let (total, db) ← db.drainAccount "committee"
  if 0 < total then db.addCommitteeFund total else return db

/-! ## Redeeming shares -/

variable {fc : Fc} {g : Prop} {db db' : Db} {name : AccountName}

/-- The state in which shares can be turned into tokens: no amount is negative, the shares add
up, and the vesting fund is within bounds. -/
structure Redeemable (db : Db) : Prop where
  sound : db.ledger.Sound
  shares : db.ledger.shareGap = 0
  fund : db.dgp.totalVestingFund ≤ maxVest

theorem Ready.redeemable (h : db.Ready) : db.Redeemable :=
  ⟨h.sound, h.shares, h.sound.vestingFund_le_holdings.trans h.small⟩

/-- Shares are worth their part of the fund, rounded down, and the price does not fall. -/
theorem sharesToTokens_le {v t : Int} (hL : db.ledger.Sound) (hv : 0 ≤ v)
    (hv' : v ≤ db.dgp.totalVestingShares) (hfund : db.dgp.totalVestingFund ≤ maxVest)
    (h : db.sharesToTokens v = .ok t) :
    0 ≤ t ∧ t ≤ db.dgp.totalVestingFund ∧
      db.dgp.totalVestingShares - v ≤ 1000 * (db.dgp.totalVestingFund - t) := by
  have hF : 0 ≤ db.dgp.totalVestingFund := hL.vestingFund
  have hS : 0 ≤ db.dgp.totalVestingShares := hL.vestingShares
  have hprice : db.dgp.totalVestingShares ≤ 1000 * db.dgp.totalVestingFund := hL.price
  unfold maxVest at hfund
  unfold sharesToTokens at h
  generalize db.dgp.totalVestingFund = F at *
  generalize db.dgp.totalVestingShares = S at *
  split at h
  · have hzero : v = 0 := by omega
    subst hzero
    rw [mulDiv_eq_of_fits le_rfl (by norm_num) (by norm_num) (by norm_num) (by norm_num)
      (by norm_num) (by norm_num) (by norm_num), Except.ok.injEq] at h
    omega
  · rename_i hne
    rw [not_or] at hne
    have hpos : 0 < S := lt_of_le_of_ne hS (Ne.symm hne.2)
    have hle : v * F / S ≤ F := by
      refine Int.ediv_le_of_le_mul hpos ?_
      rw [mul_comm F S]
      exact mul_le_mul_of_nonneg_right hv' hF
    have hprod : v * F < 2 ^ 128 := by
      calc v * F ≤ 9223372036854775000 * 9223372036854775 :=
            mul_le_mul (by omega) hfund hF (by norm_num)
        _ < 2 ^ 128 := by norm_num
    rw [mulDiv_eq_of_fits hv (by omega) hF (by omega) hpos (by omega) hprod (by omega),
      Except.ok.injEq] at h
    subst h
    refine ⟨Int.ediv_nonneg (mul_nonneg hv hF) hS, hle, ?_⟩
    have hfloor : v * F / S * S ≤ v * F := Int.ediv_mul_le _ hpos.ne'
    have hrest : (S - v) * S ≤ 1000 * (F - v * F / S) * S := by
      have hscale : S * (S - v) ≤ 1000 * F * (S - v) :=
        mul_le_mul_of_nonneg_right hprice (by omega)
      nlinarith
    exact le_of_mul_le_mul_right hrest hpos

theorem redeemVesting_flow {t v : Int} (h : db.redeemVesting t v = .ok db')
    (ok : g → db.ledger.Sound → t ≤ db.dgp.totalVestingFund ∧ v ≤ db.dgp.totalVestingShares ∧
      db.dgp.totalVestingShares - v ≤ 1000 * (db.dgp.totalVestingFund - t)) :
    Flow fc g (-t) v db db' := by
  simp only [redeemVesting, bind_eq_ok, safeSub_eq_ok, pure_eq_ok] at h
  obtain ⟨_, ⟨-, rfl⟩, _, ⟨-, rfl⟩, rfl⟩ := h
  exact .of_move (.redeem db.ledger t v ok)

theorem redeemVesting_dgp {t v : Int} (h : db.redeemVesting t v = .ok db') :
    db'.dgp.totalVestingFund = db.dgp.totalVestingFund - t ∧
      db'.dgp.totalVestingShares = db.dgp.totalVestingShares - v := by
  simp only [redeemVesting, bind_eq_ok, safeSub_eq_ok, pure_eq_ok] at h
  obtain ⟨_, ⟨-, rfl⟩, _, ⟨-, rfl⟩, rfl⟩ := h
  exact ⟨rfl, rfl⟩

/-- The shares of the account that was read are set to what they were plus `v`. -/
theorem modifyAccount_grant {a : AccountObject} (ha : db.findAccount name = some a)
    (f : AccountObject → AccountObject) (v : Int)
    (hf : ∀ b, (f b).purse = { b.purse with shares := a.vestingShares + v })
    (ok : g → db.ledger.Sound → 0 ≤ a.vestingShares + v) :
    Flow fc g 0 v db (db.modifyAccount name f) := by
  refine .of_move ?_
  rw [ledger_modifyAccount_read ha f (·.addShares v)
    (fun p => { p with shares := a.vestingShares + v }) hf rfl]
  exact .grant _ name v a.purse (ledger_find_of_found ha) ok

/-! ## The parts of a withdrawal -/

end Db

/-- The part of a route, rounded down. -/
def routePart (amount : Int) (r : WithdrawVestingRouteObject) : Int := amount * r.percent / 10000

def vestedPart (amount : Int) (r : WithdrawVestingRouteObject) : Int :=
  if r.autoVest then routePart amount r else 0

def paidPart (amount : Int) (r : WithdrawVestingRouteObject) : Int :=
  if r.autoVest then 0 else routePart amount r

theorem routePart_nonneg {amount : Int} (h : 0 ≤ amount) (r : WithdrawVestingRouteObject) :
    0 ≤ routePart amount r :=
  Int.ediv_nonneg (mul_nonneg h (Int.natCast_nonneg _)) (by norm_num)

theorem vestedPart_nonneg {amount : Int} (h : 0 ≤ amount) (r : WithdrawVestingRouteObject) :
    0 ≤ vestedPart amount r := by
  unfold vestedPart
  split
  · exact routePart_nonneg h r
  · exact le_rfl

theorem paidPart_nonneg {amount : Int} (h : 0 ≤ amount) (r : WithdrawVestingRouteObject) :
    0 ≤ paidPart amount r := by
  unfold paidPart
  split
  · exact le_rfl
  · exact routePart_nonneg h r

/-- Routes that take at most 100% take at most the amount. -/
theorem sum_parts_le {amount : Int} (h : 0 ≤ amount) (routes : List WithdrawVestingRouteObject)
    (hsum : (routes.map (·.percent)).sum ≤ 10000) :
    (routes.map (vestedPart amount)).sum + (routes.map (paidPart amount)).sum ≤ amount := by
  have hparts : (routes.map (vestedPart amount)).sum + (routes.map (paidPart amount)).sum ≤
      amount * (routes.map (·.percent)).sum / 10000 := by
    clear hsum
    induction routes with
    | nil => simp
    | cons r rest ih =>
      have hsplit : vestedPart amount r + paidPart amount r = routePart amount r := by
        unfold vestedPart paidPart
        split <;> omega
      have hadd : routePart amount r + amount * (rest.map (·.percent)).sum / 10000 ≤
          amount * ((r :: rest).map (·.percent)).sum / 10000 := by
        simp only [routePart, List.map_cons, List.sum_cons, Nat.cast_add, mul_add]
        omega
      simp only [List.map_cons, List.sum_cons] at hadd ⊢
      omega
  have hall : amount * (routes.map (·.percent)).sum / 10000 ≤ amount := by
    refine Int.ediv_le_of_le_mul (by norm_num) ?_
    exact mul_le_mul_of_nonneg_left (by exact_mod_cast hsum) h
  exact hparts.trans hall

theorem routeDeposit_eq {amount d : Int} {r : WithdrawVestingRouteObject} (h₀ : 0 ≤ amount)
    (h₁ : amount < 2 ^ 63) (hp : r.percent ≤ 10000) (h : routeDeposit amount r = .ok d) :
    d = routePart amount r := by
  simp only [routeDeposit, toSigned64, percent100, bind_eq_ok, pure_eq_ok] at h
  obtain ⟨_, -, rfl⟩ := h
  lift amount to Nat using h₀
  have hamount : toUint128 (amount : Int) = amount := by
    have hcast := toUint128_of_nonneg (Int.natCast_nonneg amount) (by omega)
    exact_mod_cast hcast
  have hprod : amount * r.percent ≤ amount * 10000 := Nat.mul_le_mul_left amount hp
  have hbound : amount < 2 ^ 63 := by exact_mod_cast h₁
  rw [hamount, Nat.mod_eq_of_lt (by omega), toInt64_of_lt (by omega)]
  simp [routePart]

theorem withdrawalAmount_bounds {a : AccountObject} {amount : Int} (ha : 0 ≤ a.vestingShares)
    (h : withdrawalAmount a = .ok amount) : 0 ≤ amount ∧ amount ≤ a.vestingShares := by
  simp only [withdrawalAmount, bind_eq_ok] at h
  obtain ⟨left, -, h⟩ := h
  split at h
  · simp only [bind_eq_ok, pure_eq_ok] at h
    obtain ⟨last, -, rfl⟩ := h
    omega
  · rw [pure_eq_ok] at h
    omega

/-- No account has fewer shares than before. -/
def SharesGrow (L L' : Ledger) : Prop :=
  ∀ n q, L'.find n = some q → ∃ p, L.find n = some p ∧ p.shares ≤ q.shares

theorem SharesGrow.refl (L : Ledger) : SharesGrow L L := fun _ q hq => ⟨q, hq, le_rfl⟩

theorem SharesGrow.trans {L M N : Ledger} (h : SharesGrow L M) (h' : SharesGrow M N) :
    SharesGrow L N := by
  intro n r hr
  obtain ⟨q, hq, hqr⟩ := h' n r hr
  obtain ⟨p, hp, hpq⟩ := h n q hq
  exact ⟨p, hp, hpq.trans hqr⟩

theorem SharesGrow.modify {L : Ledger} {name : AccountName} {f : Purse → Purse}
    (hname : ∀ p, (f p).name = p.name)
    (hf : ∀ p, L.find name = some p → p.shares ≤ (f p).shares) :
    SharesGrow L (L.modify name f) := by
  intro n q hq
  rw [Ledger.find_modify L name n f hname] at hq
  split at hq
  · rename_i hn
    subst hn
    obtain ⟨p, hp, rfl⟩ := Option.map_eq_some_iff.1 hq
    exact ⟨p, hp, hf p hp⟩
  · exact ⟨q, hq, le_rfl⟩

namespace Db

variable {fc : Fc} {g : Prop} {db db' : Db} {name : AccountName}

theorem addVestingShares_ledger {v : Int} (h : db.addVestingShares name v = .ok db') :
    db'.ledger = db.ledger.modify name (·.addShares v) := by
  simp only [addVestingShares, getAccount, bind_eq_ok, getOrThrow_eq_ok, safeAdd_eq_ok] at h
  obtain ⟨a, ha, _, ⟨-, rfl⟩, hvotes⟩ := h
  rw [ledger_of_votesOnly (adjustProxiedWitnessVotes_votesOnly hvotes)]
  exact ledger_modifyAccount_read ha _ (·.addShares v)
    (fun p => { p with shares := a.vestingShares + v }) (fun _ => rfl) rfl

theorem addVestingShares_flow {v : Int} (hv : 0 ≤ v) (h : db.addVestingShares name v = .ok db') :
    Flow fc g 0 v db db' ∧ db'.dgp = db.dgp ∧ SharesGrow db.ledger db'.ledger := by
  have hadd := h
  simp only [addVestingShares, getAccount, bind_eq_ok, getOrThrow_eq_ok, safeAdd_eq_ok] at h
  obtain ⟨a, ha, _, ⟨-, rfl⟩, hvotes⟩ := h
  have honly := adjustProxiedWitnessVotes_votesOnly hvotes
  have hledger := ledger_of_votesOnly honly
  have hdgp := congrArg Db.dgp honly.1
  refine ⟨?_, hdgp, ?_⟩
  · refine Flow.then_same (modifyAccount_grant ha _ v (fun _ => rfl) fun _ hL => ?_) hledger
    have hpos := hL.purses a.purse (Table.get_mem (ledger_find_of_found ha))
    exact add_nonneg hpos.2.2.1 hv
  · rw [addVestingShares_ledger hadd]
    exact .modify (fun _ => rfl) fun p _ => le_add_of_nonneg_right hv

/-- What is known before the routes of a withdrawal are followed. -/
def RoutesFit (amount : Int) (routes : List WithdrawVestingRouteObject) : Prop :=
  0 ≤ amount ∧ amount < 2 ^ 63 ∧ ∀ r ∈ routes, r.percent ≤ 10000

theorem RoutesFit.tail {amount : Int} {r : WithdrawVestingRouteObject}
    {rest : List WithdrawVestingRouteObject} (h : RoutesFit amount (r :: rest)) :
    RoutesFit amount rest :=
  ⟨h.1, h.2.1, fun s hs => h.2.2 s (List.mem_cons_of_mem r hs)⟩

theorem depositShares_flow {amount v v' : Int} {r : WithdrawVestingRouteObject}
    (h : depositShares amount (v, db) r = .ok (v', db')) :
    (∃ s, Flow fc g 0 s db db' ∧ (RoutesFit amount [r] → s = vestedPart amount r)) ∧
      db'.dgp = db.dgp ∧ SharesGrow db.ledger db'.ledger ∧
      (RoutesFit amount [r] → v' = v + vestedPart amount r) := by
  unfold depositShares at h
  split at h
  · rename_i hauto
    simp only [bind_eq_ok, safeAdd_eq_ok] at h
    obtain ⟨d, hd, _, ⟨-, rfl⟩, h⟩ := h
    have hpart : RoutesFit amount [r] → d = vestedPart amount r := by
      intro hfit
      rw [vestedPart, if_pos hauto]
      exact routeDeposit_eq hfit.1 hfit.2.1 (hfit.2.2 r (by simp)) hd
    split at h
    · rename_i hpos
      simp only [bind_eq_ok, pure_eq_ok, Prod.mk.injEq] at h
      obtain ⟨a, -, db₁, hadd, rfl, rfl⟩ := h
      obtain ⟨hflow, hdgp, hgrow⟩ := @addVestingShares_flow fc g _ _ _ _ hpos.le hadd
      exact ⟨⟨d, hflow, hpart⟩, hdgp, hgrow, fun hfit => by rw [hpart hfit]⟩
    · rename_i hneg
      simp only [pure_eq_ok, Prod.mk.injEq] at h
      obtain ⟨rfl, rfl⟩ := h
      refine ⟨⟨0, .refl _, fun hfit => ?_⟩, rfl, .refl _, fun hfit => by rw [hpart hfit]⟩
      have hnonneg := vestedPart_nonneg hfit.1 r
      have hd' := hpart hfit
      omega
  · rename_i hauto
    cases h
    have hzero : vestedPart amount r = 0 := if_neg hauto
    exact ⟨⟨0, .refl _, fun _ => hzero.symm⟩, rfl, .refl _, fun _ => by rw [hzero, add_zero]⟩

/-- **The first pass** grants the shares of the routes that vest again. -/
theorem depositShares_run {amount v v' : Int} {routes : List WithdrawVestingRouteObject}
    (h : routes.foldlM (depositShares amount) (v, db) = .ok (v', db')) :
    (∃ s, Flow fc g 0 s db db' ∧
        (RoutesFit amount routes → s = (routes.map (vestedPart amount)).sum)) ∧
      db'.dgp = db.dgp ∧ SharesGrow db.ledger db'.ledger ∧
      (RoutesFit amount routes → v' = v + (routes.map (vestedPart amount)).sum) := by
  induction routes generalizing v db with
  | nil =>
    simp only [List.foldlM_nil, pure_eq_ok, Prod.mk.injEq] at h
    obtain ⟨rfl, rfl⟩ := h
    exact ⟨⟨0, .refl _, fun _ => rfl⟩, rfl, .refl _, fun _ => (add_zero v).symm⟩
  | cons r rest ih =>
    rw [List.foldlM_cons, bind_eq_ok] at h
    obtain ⟨⟨v₁, db₁⟩, hstep, hrest⟩ := h
    obtain ⟨⟨s, hflow, hs⟩, hdgp, hgrow, hv⟩ := @depositShares_flow fc g _ _ _ _ _ _ hstep
    obtain ⟨⟨s', hflow', hs'⟩, hdgp', hgrow', hv'⟩ := ih hrest
    have hone (hfit : RoutesFit amount (r :: rest)) : RoutesFit amount [r] :=
      ⟨hfit.1, hfit.2.1, fun q hq => hfit.2.2 q (by simp_all)⟩
    refine ⟨⟨s + s', (hflow.trans hflow').cast (add_zero 0) rfl, fun hfit => ?_⟩,
      hdgp'.trans hdgp, hgrow.trans hgrow', fun hfit => ?_⟩
    · rw [hs (hone hfit), hs' hfit.tail, List.map_cons, List.sum_cons]
    · rw [hv' hfit.tail, hv (hone hfit), List.map_cons, List.sum_cons]
      omega

/-- What is known before the second pass: the shares to be paid out are there. -/
structure PayFits (amount : Int) (routes : List WithdrawVestingRouteObject) (db : Db) : Prop where
  sound : db.ledger.Sound
  fund : db.dgp.totalVestingFund ≤ maxVest
  fit : RoutesFit amount routes
  shares : (routes.map (paidPart amount)).sum ≤ db.dgp.totalVestingShares

theorem adjustBalance_frame {x : Int} (h : db.adjustBalance name x = .ok db') :
    db'.dgp = db.dgp ∧ SharesGrow db.ledger db'.ledger := by
  simp only [adjustBalance, getAccount, bind_eq_ok, getOrThrow_eq_ok, safeAdd_eq_ok,
    pure_eq_ok] at h
  obtain ⟨a, ha, _, ⟨-, rfl⟩, rfl⟩ := h
  refine ⟨rfl, ?_⟩
  rw [ledger_modifyAccount_read ha _ (·.add x) (fun p => { p with balance := a.balance + x })
    (fun _ => rfl) rfl]
  exact .modify (fun _ => rfl) fun p _ => le_rfl

theorem redeemVesting_find {t v : Int} (h : db.redeemVesting t v = .ok db') (n : AccountName) :
    db'.ledger.find n = db.ledger.find n := by
  simp only [redeemVesting, bind_eq_ok, pure_eq_ok] at h
  obtain ⟨_, -, _, -, rfl⟩ := h
  rfl

/-- What one route of the second pass does. -/
theorem depositTokens_flow {amount v v' : Int} {r : WithdrawVestingRouteObject}
    (hfit : g → PayFits amount [r] db) (h : depositTokens amount (v, db) r = .ok (v', db')) :
    ∃ s, Flow fc g 0 s db db' ∧ SharesGrow db.ledger db'.ledger ∧
      (g → s = paidPart amount r ∧ v' = v + paidPart amount r ∧
        db'.dgp.totalVestingFund ≤ db.dgp.totalVestingFund ∧
        db'.dgp.totalVestingShares = db.dgp.totalVestingShares - paidPart amount r) := by
  unfold depositTokens at h
  split at h
  · rename_i hauto
    cases h
    have hzero : paidPart amount r = 0 := if_pos hauto
    refine ⟨0, .refl _, .refl _, fun _ => ?_⟩
    rw [hzero]
    exact ⟨rfl, (add_zero v).symm, le_rfl, (sub_zero _).symm⟩
  · rename_i hauto
    simp only [bind_eq_ok, safeAdd_eq_ok] at h
    obtain ⟨a, -, d, hd, _, ⟨-, rfl⟩, t, ht, h⟩ := h
    have hpart : g → d = paidPart amount r := by
      intro hg
      obtain ⟨h₀, h₁, hp⟩ := (hfit hg).fit
      rw [paidPart, if_neg hauto]
      exact routeDeposit_eq h₀ h₁ (hp r (by simp)) hd
    have hle : g → d ≤ db.dgp.totalVestingShares := by
      intro hg
      have hsum := (hfit hg).shares
      simp only [List.map_cons, List.map_nil, List.sum_cons, List.sum_nil, add_zero] at hsum
      exact (hpart hg).trans_le hsum
    split at h
    · rename_i hpos
      simp only [bind_eq_ok, pure_eq_ok, Prod.mk.injEq] at h
      obtain ⟨db₁, hpay, db₂, hredeem, rfl, rfl⟩ := h
      obtain ⟨hdgp, hgrow⟩ := adjustBalance_frame hpay
      obtain ⟨hF, hS⟩ := redeemVesting_dgp hredeem
      have htokens (hg : g) := sharesToTokens_le (hfit hg).sound hpos.le (hle hg) (hfit hg).fund ht
      have hcredit : Flow fc g t 0 db db₁ := adjustBalance_credit hpay fun hg _ => (htokens hg).1
      have hdebit : Flow fc g (-t) d db₁ db₂ := by
        refine redeemVesting_flow hredeem fun hg _ => ?_
        rw [hdgp]
        exact ⟨(htokens hg).2.1, hle hg, (htokens hg).2.2⟩
      refine ⟨d, (hcredit.trans hdebit).cast (by omega) (zero_add d), ?_, fun hg => ?_⟩
      · intro n q hq
        rw [redeemVesting_find hredeem] at hq
        exact hgrow n q hq
      · rw [hF, hS, hdgp, ← hpart hg]
        have ht₀ := (htokens hg).1
        refine ⟨rfl, rfl, by omega, rfl⟩
    · rename_i hneg
      simp only [pure_eq_ok, Prod.mk.injEq] at h
      obtain ⟨rfl, rfl⟩ := h
      refine ⟨0, .refl _, .refl _, fun hg => ?_⟩
      have hnonneg := paidPart_nonneg (hfit hg).fit.1 r
      have hd' := hpart hg
      refine ⟨by omega, by omega, le_rfl, by omega⟩

/-- **The second pass** redeems the shares of the routes that pay tokens. -/
theorem depositTokens_run {amount v v' : Int} {routes : List WithdrawVestingRouteObject}
    (hfit : g → PayFits amount routes db)
    (h : routes.foldlM (depositTokens amount) (v, db) = .ok (v', db')) :
    ∃ s, Flow fc g 0 s db db' ∧ SharesGrow db.ledger db'.ledger ∧
      (g → s = (routes.map (paidPart amount)).sum ∧
        v' = v + (routes.map (paidPart amount)).sum ∧
        db'.dgp.totalVestingFund ≤ db.dgp.totalVestingFund ∧
        db'.dgp.totalVestingShares =
          db.dgp.totalVestingShares - (routes.map (paidPart amount)).sum) := by
  induction routes generalizing v db with
  | nil =>
    simp only [List.foldlM_nil, pure_eq_ok, Prod.mk.injEq] at h
    obtain ⟨rfl, rfl⟩ := h
    exact ⟨0, .refl _, .refl _, fun _ => ⟨rfl, (add_zero v).symm, le_rfl, (sub_zero _).symm⟩⟩
  | cons r rest ih =>
    rw [List.foldlM_cons, bind_eq_ok] at h
    obtain ⟨⟨v₁, db₁⟩, hstep, hrest⟩ := h
    have hnonneg (hg : g) : 0 ≤ (rest.map (paidPart amount)).sum := by
      refine List.sum_nonneg fun x hx => ?_
      obtain ⟨q, -, rfl⟩ := List.mem_map.1 hx
      exact paidPart_nonneg (hfit hg).fit.1 q
    have hone (hg : g) : PayFits amount [r] db := by
      have hshares := (hfit hg).shares
      simp only [List.map_cons, List.sum_cons] at hshares
      refine ⟨(hfit hg).sound, (hfit hg).fund, ⟨(hfit hg).fit.1, (hfit hg).fit.2.1,
        fun q hq => (hfit hg).fit.2.2 q (by simp_all)⟩, ?_⟩
      have := hnonneg hg
      simp only [List.map_cons, List.map_nil, List.sum_cons, List.sum_nil]
      omega
    obtain ⟨s, hflow, hgrow, hs⟩ := @depositTokens_flow fc _ _ _ _ _ _ _ hone hstep
    have hfit' (hg : g) : PayFits amount rest db₁ := by
      obtain ⟨-, -, hF, hS⟩ := hs hg
      have hshares := (hfit hg).shares
      simp only [List.map_cons, List.sum_cons] at hshares
      exact ⟨hflow.sound hg (hfit hg).sound, hF.trans (hfit hg).fund, (hfit hg).fit.tail,
        by omega⟩
    obtain ⟨s', hflow', hgrow', hs'⟩ := ih hfit' hrest
    refine ⟨s + s', (hflow.trans hflow').cast (add_zero 0) rfl, hgrow.trans hgrow', fun hg => ?_⟩
    obtain ⟨hs₁, hv₁, hF₁, hS₁⟩ := hs hg
    obtain ⟨hs₂, hv₂, hF₂, hS₂⟩ := hs' hg
    simp only [List.map_cons, List.sum_cons]
    refine ⟨by omega, by omega, hF₂.trans hF₁, by omega⟩

/-! ## Whole withdrawals -/

theorem purse_afterWithdrawal (shares balance withdrawn : Int) (a : AccountObject) :
    (afterWithdrawal shares balance withdrawn a).purse =
      { a.purse with balance := balance, shares := shares } := by
  unfold afterWithdrawal
  split <;> rfl

theorem finishWithdrawal_ledger {amount tokens : Int}
    (h : db.finishWithdrawal name amount tokens = .ok db') :
    ∃ a, db.findAccount name = some a ∧
      db'.ledger = db.ledger.modify name fun p => (p.addShares (-amount)).add tokens := by
  simp only [finishWithdrawal, getAccount, bind_eq_ok, getOrThrow_eq_ok, safeSub_eq_ok,
    safeAdd_eq_ok, pure_eq_ok] at h
  obtain ⟨a, ha, _, ⟨-, rfl⟩, _, ⟨-, rfl⟩, withdrawn, -, rfl⟩ := h
  refine ⟨a, ha, ?_⟩
  exact ledger_modifyAccount_read ha _ (fun p => (p.addShares (-amount)).add tokens)
    (fun p => { p with balance := a.balance + tokens, shares := a.vestingShares - amount })
    (purse_afterWithdrawal _ _ _) rfl

theorem finishWithdrawal_dgp {amount tokens : Int}
    (h : db.finishWithdrawal name amount tokens = .ok db') : db'.dgp = db.dgp := by
  simp only [finishWithdrawal, bind_eq_ok, pure_eq_ok] at h
  obtain ⟨a, -, shares, -, balance, -, withdrawn, -, rfl⟩ := h
  rfl

theorem finishWithdrawal_flow {amount tokens : Int}
    (h : db.finishWithdrawal name amount tokens = .ok db')
    (ok : g → 0 ≤ tokens ∧ ∀ p, db.ledger.find name = some p → amount ≤ p.shares) :
    Flow fc g tokens (-amount) db db' ∧ db'.dgp = db.dgp := by
  refine ⟨?_, finishWithdrawal_dgp h⟩
  obtain ⟨a, ha, hbooked⟩ := finishWithdrawal_ledger h
  have hfind := ledger_find_of_found ha
  have hledger : db'.ledger =
      (db.ledger.modify name (·.addShares (-amount))).modify name (·.add tokens) := by
    rw [hbooked]
    exact (congrArg (fun t => { db.ledger with purses := t })
      (Table.update_update db.ledger.purses (·.name) name (·.addShares (-amount)) (·.add tokens)
        fun _ => rfl)).symm
  have hgrant : Move fc g (0, -amount) db.ledger _ :=
    .grant db.ledger name (-amount) a.purse hfind fun hg _ => by
      have hle := (ok hg).2 a.purse hfind
      omega
  have hfind' : (db.ledger.modify name (·.addShares (-amount))).find name =
      some (a.purse.addShares (-amount)) := by
    rw [Ledger.find_modify _ name name (·.addShares (-amount)) fun _ => rfl, if_pos rfl, hfind]
    rfl
  have hpay : Move fc g (tokens, 0) (db.ledger.modify name (·.addShares (-amount))) _ :=
    .pay _ name tokens _ hfind' fun hg hL => by
      have hpos := hL.purses _ (Table.get_mem hfind')
      exact add_nonneg hpos.1 (ok hg).1
  unfold Flow
  rw [hledger]
  have hwalk := (Walk.single hgrant).trans (Walk.single hpay)
  have hweight : ((0, -amount) : Int × Int) + (tokens, 0) = (tokens, -amount) := by simp
  rwa [hweight] at hwalk

theorem Redeemable.shares_le {a : AccountObject} (h : db.Redeemable)
    (ha : db.findAccount name = some a) :
    0 ≤ a.vestingShares ∧ a.vestingShares ≤ db.dgp.totalVestingShares := by
  have hpos : db.ledger.purses.All fun p => 0 ≤ p.shares := fun p hp => (h.sound.purses p hp).2.2.1
  have hmem := Table.get_mem (ledger_find_of_found ha)
  have hle : a.vestingShares ≤ db.ledger.purses.sum (·.shares) := Table.le_sum_of_mem hpos hmem
  have hgap : db.ledger.purses.sum (·.shares) - db.dgp.totalVestingShares = 0 := h.shares
  exact ⟨hpos _ hmem, by omega⟩

/-- **One withdrawal** makes no tokens; where the state allows to redeem shares it makes no
shares either. -/
theorem withdrawFrom_flow {a : AccountObject} (ha : db.findAccount a.name = some a)
    (h : db.withdrawFrom a = .ok db') :
    ∃ s, Flow fc db.Redeemable 0 s db db' ∧ (db.Redeemable → db'.Redeemable) := by
  simp only [withdrawFrom, bind_eq_ok] at h
  obtain ⟨amount, hamount, ⟨vested, db₁⟩, hpass₁, ⟨paid, db₂⟩, hpass₂, h⟩ := h
  simp only [safeSub_eq_ok, safeAdd_eq_ok] at h
  obtain ⟨_, ⟨-, rfl⟩, _, ⟨-, rfl⟩, tokens, htokens, _, -, db₃, henergy, db₄, hfinish, db₅, hredeem,
    h⟩ := h
  have hledger₃ := sharesSenderRecalcEnergy_ledger henergy
  have hvotes : db'.ledger = db₅.ledger := by
    split at h
    · exact ledger_of_votesOnly (adjustProxiedWitnessVotes_votesOnly h)
    · rw [pure_eq_ok] at h
      rw [h]
  generalize hroutes : db.terms.routesOf a.id = routes at hpass₁ hpass₂
  have hbounds (hg : db.Redeemable) := withdrawalAmount_bounds (hg.shares_le ha).1 hamount
  have hpercent (hg : db.Redeemable) : (routes.map (·.percent)).sum ≤ 10000 := by
    have hle := hg.sound.terms.routes a.id
    rw [← hroutes]
    exact hle
  have hfit (hg : db.Redeemable) : RoutesFit amount routes := by
    have hprice : db.dgp.totalVestingShares ≤ 1000 * db.dgp.totalVestingFund := hg.sound.price
    have hfund := hg.fund
    have hle := (hg.shares_le ha).2
    have hb := hbounds hg
    unfold maxVest at hfund
    refine ⟨hb.1, by omega, fun r hr => ?_⟩
    exact (List.single_le_sum (by simp) _ (List.mem_map_of_mem hr)).trans (hpercent hg)
  have hsum (hg : db.Redeemable) := sum_parts_le (hbounds hg).1 routes (hpercent hg)
  have hvestedPos (hg : db.Redeemable) : 0 ≤ (routes.map (vestedPart amount)).sum := by
    refine List.sum_nonneg fun x hx => ?_
    obtain ⟨q, -, rfl⟩ := List.mem_map.1 hx
    exact vestedPart_nonneg (hbounds hg).1 q
  obtain ⟨⟨s₁, hflow₁, hs₁⟩, hdgp₁, hgrow₁, hv₁⟩ :=
    @depositShares_run fc db.Redeemable _ _ _ _ _ _ hpass₁
  have hpay (hg : db.Redeemable) : PayFits amount routes db₁ := by
    refine ⟨hflow₁.sound hg hg.sound, ?_, hfit hg, ?_⟩
    · rw [hdgp₁]
      exact hg.fund
    · have h₁ := hsum hg
      have h₂ := hvestedPos hg
      have h₃ := (hbounds hg).2
      have h₄ := (hg.shares_le ha).2
      rw [hdgp₁]
      omega
  obtain ⟨s₂, hflow₂, hgrow₂, hs₂⟩ := @depositTokens_run fc _ _ _ _ _ _ _ hpay hpass₂
  have hrest (hg : db.Redeemable) : max (amount - paid - vested) 0 = amount - paid - vested ∧
      0 ≤ amount - paid - vested ∧ amount - paid - vested ≤ db₂.dgp.totalVestingShares ∧
      db₂.dgp.totalVestingFund ≤ maxVest ∧ s₁ = vested ∧ s₂ = paid := by
    have h₁ := hsum hg
    have h₂ := hvestedPos hg
    have h₃ := (hbounds hg).2
    have h₄ := (hg.shares_le ha).2
    have h₅ := hv₁ (hfit hg)
    have h₆ := hs₁ (hfit hg)
    have h₇ := hg.fund
    obtain ⟨h₈, h₉, h₁₀, h₁₁⟩ := hs₂ hg
    rw [hdgp₁] at h₁₀ h₁₁
    refine ⟨by omega, by omega, by omega, by omega, by omega, by omega⟩
  have hsound₂ (hg : db.Redeemable) : db₂.ledger.Sound :=
    hflow₂.sound hg (hflow₁.sound hg hg.sound)
  have hconvert (hg : db.Redeemable) := by
    obtain ⟨hmax, hpos, hle, hfund, -, -⟩ := hrest hg
    rw [hmax] at htokens
    exact sharesToTokens_le (hsound₂ hg) hpos hle hfund htokens
  obtain ⟨hflow₄, hdgp₄⟩ := @finishWithdrawal_flow fc db.Redeemable _ _ _ _ _ hfinish
    fun hg => by
      refine ⟨(hconvert hg).1, fun q hq => ?_⟩
      rw [hledger₃] at hq
      obtain ⟨p, hp, hpq⟩ := (hgrow₁.trans hgrow₂) a.name q hq
      rw [ledger_find_of_found ha] at hp
      cases hp
      exact (hbounds hg).2.trans hpq
  have hF₃ : db₃.dgp.totalVestingFund = db₂.dgp.totalVestingFund :=
    congrArg Ledger.vestingFund hledger₃
  have hS₃ : db₃.dgp.totalVestingShares = db₂.dgp.totalVestingShares :=
    congrArg Ledger.vestingShares hledger₃
  have hflow₅ : Flow fc db.Redeemable (-tokens) (max (amount - paid - vested) 0) db₄ db₅ := by
    refine redeemVesting_flow hredeem fun hg _ => ?_
    obtain ⟨hmax, hpos, hle, -⟩ := hrest hg
    rw [hdgp₄, hF₃, hS₃, hmax]
    exact ⟨(hconvert hg).2.1, hle, (hconvert hg).2.2⟩
  have hflow : Flow fc db.Redeemable 0
      (s₁ + s₂ + -amount + max (amount - paid - vested) 0) db db' := by
    have h₃ := (hflow₁.trans hflow₂).then_same hledger₃
    have h₅ := ((h₃.trans hflow₄).trans hflow₅).then_same hvotes
    exact h₅.cast (by omega) rfl
  refine ⟨_, hflow, fun hg => ?_⟩
  obtain ⟨hmax, hpos, hle, hfund, hvested, hpaid⟩ := hrest hg
  refine ⟨hflow.sound hg hg.sound, ?_, ?_⟩
  · rw [hflow.shareGap, hg.shares]
    omega
  · have hF' : db'.dgp.totalVestingFund = db₅.dgp.totalVestingFund :=
      congrArg Ledger.vestingFund hvotes
    have ht := (hconvert hg).1
    rw [hF', (redeemVesting_dgp hredeem).1, hdgp₄, hF₃]
    omega

theorem withdrawLoop_flow {fuel : Nat} {next : Option AccountName}
    (h : withdrawLoop fuel db next = .ok db') :
    ∃ s, Flow fc db.Redeemable 0 s db db' ∧ (db.Redeemable → db'.Redeemable) := by
  induction fuel generalizing db next with
  | zero => cases h
  | succ fuel ih =>
    cases next with
    | none =>
      cases h
      exact ⟨0, .refl _, id⟩
    | some name =>
      simp only [withdrawLoop, getAccount, bind_eq_ok, getOrThrow_eq_ok] at h
      obtain ⟨a, ha, h⟩ := h
      split at h
      · simp only [bind_eq_ok] at h
        obtain ⟨db₁, hstep, hrest⟩ := h
        have hname : a.name = name := Table.get_key ha
        obtain ⟨s, hflow, hkeep⟩ := @withdrawFrom_flow fc _ _ _ (hname ▸ ha) hstep
        obtain ⟨s', hflow', hkeep'⟩ := ih hrest
        exact ⟨s + s', (hflow.trans (hflow'.mono hkeep)).cast (add_zero 0) rfl, hkeep' ∘ hkeep⟩
      · rw [pure_eq_ok] at h
        subst h
        exact ⟨0, .refl _, id⟩

/-- **Withdrawals** make no tokens, and in a state whose shares can be redeemed no shares. -/
theorem processVestingWithdrawals_flow (h : db.processVestingWithdrawals = .ok db') :
    ∃ s, Flow fc db.Ready 0 s db db' ∧ (db.Ready → s = 0) := by
  obtain ⟨s, hflow, hkeep⟩ := @withdrawLoop_flow fc _ _ _ _ h
  refine ⟨s, hflow.mono Ready.redeemable, fun hready => ?_⟩
  have hgap := hflow.shareGap
  rw [hready.shares, (hkeep hready.redeemable).shares] at hgap
  omega

/-! ## Clearing system accounts -/

/-- What an account holds is worth no negative number of tokens. -/
def Clearable (db : Db) (name : AccountName) : Prop :=
  ∀ a, db.findAccount name = some a → 0 < a.vestingShares →
    ∀ t, db.sharesToTokens a.vestingShares = .ok t → 0 ≤ max 0 a.balance + t

/-- Shares that are part of the total are worth no negative amount. -/
theorem sharesToTokens_nonneg {v t : Int} (hF : 0 ≤ db.dgp.totalVestingFund)
    (hF' : db.dgp.totalVestingFund < 2 ^ 63) (hS : db.dgp.totalVestingShares < 2 ^ 63)
    (hv : 0 < v) (hle : v ≤ db.dgp.totalVestingShares) (h : db.sharesToTokens v = .ok t) :
    0 ≤ t := by
  unfold sharesToTokens at h
  generalize db.dgp.totalVestingFund = F at *
  generalize db.dgp.totalVestingShares = S at *
  split at h
  · rw [mulDiv_eq_of_fits hv.le (by omega) (by norm_num) (by norm_num) (by norm_num) (by norm_num)
      (by omega) (by omega), Except.ok.injEq] at h
    omega
  · have hpos : 0 < S := by omega
    have hquot : v * F / S ≤ F := by
      refine Int.ediv_le_of_le_mul hpos ?_
      rw [mul_comm F S]
      exact mul_le_mul_of_nonneg_right hle hF
    have hprod : v * F < 2 ^ 128 := by
      calc v * F ≤ 2 ^ 63 * 2 ^ 63 := mul_le_mul (by omega) hF'.le hF (by norm_num)
        _ < 2 ^ 128 := by norm_num
    rw [mulDiv_eq_of_fits hv.le (by omega) hF (by omega) hpos (by omega) hprod (by omega),
      Except.ok.injEq] at h
    rw [← h]
    exact Int.ediv_nonneg (mul_nonneg hv.le hF) hpos.le

/-- Where the shares add up, every account can be cleared. -/
theorem Ready.clearable (h : db.Ready) (name : AccountName) : db.Clearable name := by
  intro a ha hpos t ht
  have hfund := h.redeemable.fund
  have hprice : db.dgp.totalVestingShares ≤ 1000 * db.dgp.totalVestingFund := h.sound.price
  unfold maxVest at hfund
  have htokens := sharesToTokens_nonneg h.sound.vestingFund (by omega) (by omega) hpos
    (h.redeemable.shares_le ha).2 ht
  exact add_nonneg (le_max_left 0 _) htokens

theorem drainBalance_flow {total : Int} (h : db.drainBalance name = .ok (total, db')) :
    Flow fc g (-total) 0 db db' ∧ db'.dgp = db.dgp ∧
      ∀ b, db'.findAccount name = some b → ∃ a, db.findAccount name = some a ∧
        a.vestingShares = b.vestingShares ∧ total = max 0 a.balance := by
  simp only [drainBalance, getAccount, bind_eq_ok, getOrThrow_eq_ok] at h
  obtain ⟨a, ha, h⟩ := h
  split at h
  · rename_i hpos
    simp only [bind_eq_ok, pure_eq_ok, Prod.mk.injEq] at h
    obtain ⟨db₁, hpay, rfl, rfl⟩ := h
    refine ⟨adjustBalance_debit hpay ha le_rfl, (adjustBalance_frame hpay).1, ?_⟩
    intro b hb
    obtain ⟨c, hc, hc'⟩ := adjustBalance_find hpay
    rw [hc'] at hb
    cases hb
    rw [ha, Option.some.injEq] at hc
    subst hc
    exact ⟨a, ha, rfl, (max_eq_right hpos.le).symm⟩
  · rename_i hnot
    simp only [pure_eq_ok, Prod.mk.injEq] at h
    obtain ⟨rfl, rfl⟩ := h
    refine ⟨.refl _, rfl, fun b hb => ⟨b, hb, rfl, ?_⟩⟩
    rw [ha, Option.some.injEq] at hb
    subst hb
    exact (max_eq_left (not_lt.1 hnot)).symm

theorem drainShares_flow {total : Int} (hg : g → db.Redeemable)
    (h : db.drainShares name = .ok (total, db')) :
    Flow fc g (-total) 0 db db' ∧ ∃ a, db.findAccount name = some a ∧
      (total = 0 ∨ 0 < a.vestingShares ∧ db.sharesToTokens a.vestingShares = .ok total) := by
  simp only [drainShares, getAccount, bind_eq_ok, getOrThrow_eq_ok] at h
  obtain ⟨a, ha, h⟩ := h
  split at h
  · rename_i hpos
    simp only [bind_eq_ok, pure_eq_ok, Prod.mk.injEq] at h
    obtain ⟨tokens, htokens, db₁, hredeem, rfl, rfl⟩ := h
    have hflow₁ : Flow fc g (-tokens) a.vestingShares db db₁ := by
      refine redeemVesting_flow hredeem fun hg' hL => ?_
      have hle := ((hg hg').shares_le ha).2
      have ht := sharesToTokens_le hL hpos.le hle (hg hg').fund htokens
      exact ⟨ht.2.1, hle, ht.2.2⟩
    have ha₁ : db₁.findAccount name = some a := by
      simp only [redeemVesting, bind_eq_ok, pure_eq_ok] at hredeem
      obtain ⟨_, -, _, -, rfl⟩ := hredeem
      exact ha
    have hzero : a.vestingShares + -a.vestingShares = 0 := by omega
    have hflow₂ : Flow fc g 0 (-a.vestingShares) db₁
        (db₁.modifyAccount name fun a => { a with vestingShares := 0 }) := by
      refine modifyAccount_grant ha₁ _ _ (fun b => ?_) fun _ _ => hzero.ge
      rw [hzero]
      rfl
    exact ⟨(hflow₁.trans hflow₂).cast (add_zero _) (by omega), a, ha, .inr ⟨hpos, htokens⟩⟩
  · simp only [pure_eq_ok, Prod.mk.injEq] at h
    obtain ⟨rfl, rfl⟩ := h
    exact ⟨.refl _, a, ha, .inl rfl⟩

theorem drainAccount_flow {total : Int} (h : db.drainAccount name = .ok (total, db')) :
    Flow fc db.Ready (-total) 0 db db' ∧ (db.Clearable name → 0 ≤ total) := by
  simp only [drainAccount, bind_eq_ok] at h
  obtain ⟨⟨x, db₁⟩, hbalance, ⟨y, db₂⟩, hshares, h⟩ := h
  simp only [safeAdd_eq_ok, pure_eq_ok, Prod.mk.injEq] at h
  obtain ⟨_, ⟨-, rfl⟩, rfl, rfl⟩ := h
  obtain ⟨hflow₁, hdgp, hfind⟩ := @drainBalance_flow fc db.Ready _ _ _ _ hbalance
  have hredeem (hg : db.Ready) : db₁.Redeemable := by
    refine ⟨hflow₁.sound hg hg.sound, ?_, ?_⟩
    · rw [hflow₁.shareGap, hg.shares]
      rfl
    · rw [hdgp]
      exact hg.redeemable.fund
  obtain ⟨hflow₂, b, hb, hy⟩ := @drainShares_flow fc _ _ _ _ _ hredeem hshares
  refine ⟨(hflow₁.trans hflow₂).cast (by omega) (add_zero 0), fun hclear => ?_⟩
  obtain ⟨a, ha, hshares', hx⟩ := hfind b hb
  rw [hx]
  rcases hy with hy | ⟨hpos, hy⟩
  · rw [hy, add_zero]
    exact le_max_left 0 _
  · have hworth : db.sharesToTokens a.vestingShares = .ok y := by
      rw [hshares', ← hy]
      unfold sharesToTokens
      rw [hdgp]
    exact hclear a ha (hshares' ▸ hpos) y hworth

/-- **Burning** the holdings of an account takes them out of the supply. -/
theorem burnBalance_flow (h : db.burnBalance name = .ok db') :
    ∃ t, Flow fc db.Ready t 0 db db' ∧ (db.Clearable name → t = 0) := by
  simp only [burnBalance, bind_eq_ok] at h
  obtain ⟨⟨total, db₁⟩, hdrain, h⟩ := h
  obtain ⟨hflow, hpos⟩ := @drainAccount_flow fc _ _ _ _ hdrain
  simp only at h
  split at h
  · have hburn : Flow fc db.Ready (- -total) 0 db₁ db' := burnAsset_flow h
    exact ⟨0, (hflow.trans hburn).cast (by omega) (add_zero 0), fun _ => rfl⟩
  · rename_i hneg
    rw [pure_eq_ok] at h
    subst h
    refine ⟨-total, hflow, fun hclear => ?_⟩
    have := hpos hclear
    omega

theorem claimCommitteeAccountBalance_flow (h : db.claimCommitteeAccountBalance = .ok db') :
    ∃ t, Flow fc db.Ready t 0 db db' ∧ (db.Clearable "committee" → t = 0) := by
  simp only [claimCommitteeAccountBalance, bind_eq_ok] at h
  obtain ⟨⟨total, db₁⟩, hdrain, h⟩ := h
  obtain ⟨hflow, hpos⟩ := @drainAccount_flow fc _ _ _ _ hdrain
  simp only at h
  split at h
  · rename_i htotal
    have hfund : Flow fc db.Ready total 0 db₁ db' := addCommitteeFund_flow h fun _ => htotal.le
    exact ⟨0, (hflow.trans hfund).cast (by omega) (add_zero 0), fun _ => rfl⟩
  · rename_i hneg
    rw [pure_eq_ok] at h
    subst h
    refine ⟨-total, hflow, fun hclear => ?_⟩
    have := hpos hclear
    omega

end Db

end VizCore.Chain
