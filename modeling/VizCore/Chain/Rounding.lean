import VizCore.Chain.Conservation

/-!
# Rounding in vesting

Tokens are converted to shares and back at the price of the moment, rounded down.  What the
rounding cuts off stays in the vesting fund.

* `createVesting_price`, `processVestingWithdrawals_paysOut`, `drainAccount_reprices`: no
  conversion lowers the price of a share;
* `Conversions.got_le_put`: converting to and fro brings nobody a profit;
* `rounding_favours_the_fund`: both, and a fund without tokens has no shares along a run in
  which every bid that is kept is covered.
-/

namespace VizCore.Chain

open VizCore.Lib VizCore.Protocol

namespace Db

/-- A vesting fund with tokens and shares, as 64-bit amounts. -/
structure Priced (db : Db) : Prop where
  fund : 0 < db.dgp.totalVestingFund ∧ db.dgp.totalVestingFund < 2 ^ 63
  shares : 0 < db.dgp.totalVestingShares ∧ db.dgp.totalVestingShares < 2 ^ 63

/-- A share is worth no less: `F / V ≤ F' / V'`. -/
def PriceGrows (db db' : Db) : Prop :=
  db.dgp.totalVestingFund * db'.dgp.totalVestingShares ≤
    db'.dgp.totalVestingFund * db.dgp.totalVestingShares

variable {db db' : Db} {name : AccountName}

theorem PriceGrows.trans {a b c : Db} (hab : a.PriceGrows b) (hbc : b.PriceGrows c)
    (ha : 0 ≤ a.dgp.totalVestingShares) (hb : 0 < b.dgp.totalVestingShares)
    (hc : 0 ≤ c.dgp.totalVestingShares) : a.PriceGrows c := by
  unfold PriceGrows at *
  have hleft := mul_le_mul_of_nonneg_right hab hc
  have hright := mul_le_mul_of_nonneg_right hbc ha
  refine le_of_mul_le_mul_right ?_ hb
  calc a.dgp.totalVestingFund * c.dgp.totalVestingShares * b.dgp.totalVestingShares
      = a.dgp.totalVestingFund * b.dgp.totalVestingShares * c.dgp.totalVestingShares := by ring
    _ ≤ b.dgp.totalVestingFund * a.dgp.totalVestingShares * c.dgp.totalVestingShares := hleft
    _ = b.dgp.totalVestingFund * c.dgp.totalVestingShares * a.dgp.totalVestingShares := by ring
    _ ≤ c.dgp.totalVestingFund * b.dgp.totalVestingShares * a.dgp.totalVestingShares := hright
    _ = c.dgp.totalVestingFund * a.dgp.totalVestingShares * b.dgp.totalVestingShares := by ring

/-- With a positive price the fund stays positive. -/
theorem PriceGrows.fund_pos {a b : Db} (h : a.PriceGrows b) (ha : a.Priced)
    (hb : 0 < b.dgp.totalVestingShares) : 0 < b.dgp.totalVestingFund := by
  have hpos : 0 < b.dgp.totalVestingFund * a.dgp.totalVestingShares :=
    (mul_pos ha.fund.1 hb).trans_le h
  exact pos_of_mul_pos_left hpos ha.shares.1.le

/-! ## Vesting -/

theorem tokensToShares_mul_le {t v : Int} (hdb : db.Priced) (ht : 0 ≤ t)
    (h : db.tokensToShares t = .ok v) :
    v * db.dgp.totalVestingFund ≤ t * db.dgp.totalVestingShares := by
  have hF := hdb.fund
  have hV := hdb.shares
  unfold tokensToShares at h
  rw [if_neg (by omega)] at h
  exact mulDiv_mul_le ht hV.1.le (by omega) h

theorem createVesting_totals {t : Int} (h : db.createVesting name t = .ok db') :
    ∃ v, db.tokensToShares t = .ok v ∧
      db'.dgp.totalVestingFund = db.dgp.totalVestingFund + t ∧
      db'.dgp.totalVestingShares = db.dgp.totalVestingShares + v ∧
      db'.dgp.totalVestingFund < 2 ^ 63 ∧ db'.dgp.totalVestingShares < 2 ^ 63 := by
  simp only [createVesting, bind_eq_ok, safeAdd_eq_ok] at h
  obtain ⟨v, hv, a, -, _, -, _, ⟨hfund, rfl⟩, _, ⟨htotal, rfl⟩, h⟩ := h
  have hdgp := congrArg Db.dgp (adjustProxiedWitnessVotes_votesOnly h).1
  rw [hdgp]
  exact ⟨v, hv, rfl, rfl, hfund.2, htotal.2⟩

/-- **Vesting** does not lower the price. -/
theorem createVesting_price {t : Int} (hdb : db.Priced) (ht : 0 ≤ t)
    (h : db.createVesting name t = .ok db') : db.PriceGrows db' := by
  obtain ⟨v, hv, hF, hV, -, -⟩ := createVesting_totals h
  have hle := tokensToShares_mul_le hdb ht hv
  unfold PriceGrows
  rw [hF, hV, mul_add, add_mul]
  linarith [mul_comm v db.dgp.totalVestingFund]

/-! ## Converting back -/

/-- Shares are cancelled, and as long as some are left the price has not fallen. -/
structure Reprices (db db' : Db) : Prop where
  shares : db'.dgp.totalVestingShares ≤ db.dgp.totalVestingShares
  price : db.Priced → 0 < db'.dgp.totalVestingShares →
    db.PriceGrows db' ∧ db'.dgp.totalVestingFund < 2 ^ 63

namespace Reprices

variable {a b c : Db}

theorem of_totals (hF : b.dgp.totalVestingFund = a.dgp.totalVestingFund)
    (hV : b.dgp.totalVestingShares = a.dgp.totalVestingShares) : Reprices a b := by
  refine ⟨hV.le, fun ha _ => ⟨?_, ?_⟩⟩
  · unfold PriceGrows
    rw [hF, hV]
  · rw [hF]
    exact ha.fund.2

theorem of_dgp (h : b.dgp = a.dgp) : Reprices a b := of_totals (by rw [h]) (by rw [h])

theorem priced (h : Reprices a b) (ha : a.Priced) (hb : 0 < b.dgp.totalVestingShares) :
    b.Priced := by
  obtain ⟨hprice, hfund⟩ := h.price ha hb
  exact ⟨⟨hprice.fund_pos ha hb, hfund⟩, hb, h.shares.trans_lt ha.shares.2⟩

theorem trans (h : Reprices a b) (h' : Reprices b c) : Reprices a c := by
  refine ⟨h'.shares.trans h.shares, fun ha hc => ?_⟩
  have hb : 0 < b.dgp.totalVestingShares := hc.trans_le h'.shares
  obtain ⟨hbc, hfund⟩ := h'.price (h.priced ha hb) hc
  exact ⟨(h.price ha hb).1.trans hbc ha.shares.1.le hb hc.le, hfund⟩

end Reprices

theorem sharesToTokens_mul_le {s t : Int} (hdb : db.Priced) (hs : 0 ≤ s)
    (h : db.sharesToTokens s = .ok t) :
    t * db.dgp.totalVestingShares ≤ s * db.dgp.totalVestingFund := by
  have hF := hdb.fund
  have hV := hdb.shares
  unfold sharesToTokens at h
  rw [if_neg (by omega)] at h
  exact mulDiv_mul_le hs hF.1.le (by omega) h

/-- One conversion: `s` shares are cancelled for the tokens that they are worth. -/
theorem redeemVesting_reprices {db₁ : Db} {s t : Int} (hs : 0 ≤ s)
    (ht : db.sharesToTokens s = .ok t) (hdgp : db₁.dgp = db.dgp)
    (h : db₁.redeemVesting t s = .ok db') : Reprices db db' := by
  simp only [redeemVesting, hdgp, bind_eq_ok, safeSub_eq_ok, pure_eq_ok] at h
  obtain ⟨_, ⟨hfund, rfl⟩, _, ⟨-, rfl⟩, rfl⟩ := h
  constructor
  · show db.dgp.totalVestingShares - s ≤ db.dgp.totalVestingShares
    omega
  · intro hdb _
    have hle := sharesToTokens_mul_le hdb hs ht
    refine ⟨?_, hfund.2⟩
    show db.dgp.totalVestingFund * (db.dgp.totalVestingShares - s) ≤
      (db.dgp.totalVestingFund - t) * db.dgp.totalVestingShares
    rw [mul_sub, sub_mul]
    linarith [mul_comm s db.dgp.totalVestingFund]

/-- The tokens in balances and in the vesting fund. -/
def cash (db : Db) : Int := db.ledger.purses.sum (·.balance) + db.dgp.totalVestingFund

/-- A conversion whose tokens go to the balances. -/
structure PaysOut (db db' : Db) : Prop extends Reprices db db' where
  cash : db'.cash = db.cash

theorem PaysOut.of_ledger_eq (h : db'.ledger = db.ledger) : PaysOut db db' where
  toReprices := .of_totals (congrArg Ledger.vestingFund h) (congrArg Ledger.vestingShares h)
  cash := by
    have hF : db'.dgp.totalVestingFund = db.dgp.totalVestingFund := congrArg Ledger.vestingFund h
    unfold Db.cash
    rw [h, hF]

theorem PaysOut.trans {a b c : Db} (h : PaysOut a b) (h' : PaysOut b c) : PaysOut a c :=
  ⟨h.toReprices.trans h'.toReprices, h'.cash.trans h.cash⟩

/-- A change of shares keeps the balances. -/
theorem addVestingShares_paysOut {v : Int} (h : db.addVestingShares name v = .ok db') :
    PaysOut db db' := by
  simp only [addVestingShares, bind_eq_ok] at h
  obtain ⟨a, -, shares, -, hvotes⟩ := h
  have hledger := ledger_of_votesOnly (adjustProxiedWitnessVotes_votesOnly hvotes)
  refine PaysOut.trans ?_ (.of_ledger_eq hledger)
  have hmodify := ledger_modifyAccount db name (fun a => { a with vestingShares := shares })
    (fun p => { p with shares := shares }) fun _ => rfl
  have hsum := Ledger.sum_modify_of_same db.ledger name (fun p => { p with shares := shares })
    (·.balance) fun _ => rfl
  refine ⟨.of_dgp rfl, ?_⟩
  unfold Db.cash
  rw [hmodify, hsum]
  rfl

/-- Tokens that are credited before they leave the fund. -/
theorem redeemVesting_paysOut {db₁ : Db} {s t : Int} (hs : 0 ≤ s)
    (ht : db.sharesToTokens s = .ok t) (hdgp : db₁.dgp = db.dgp)
    (hpaid : db₁.ledger.purses.sum (·.balance) = db.ledger.purses.sum (·.balance) + t)
    (h : db₁.redeemVesting t s = .ok db') : PaysOut db db' := by
  refine ⟨redeemVesting_reprices hs ht hdgp h, ?_⟩
  have htotals := redeemVesting_dgp h
  have hpurses : db'.ledger.purses = db₁.ledger.purses := by
    simp only [redeemVesting, bind_eq_ok, pure_eq_ok] at h
    obtain ⟨_, -, _, -, rfl⟩ := h
    rfl
  unfold Db.cash
  rw [hpurses, hpaid, htotals.1, hdgp]
  omega

theorem adjustBalance_balances {x : Int} (h : db.adjustBalance name x = .ok db') :
    db'.ledger.purses.sum (·.balance) = db.ledger.purses.sum (·.balance) + x ∧
      db'.dgp = db.dgp := by
  refine ⟨?_, (adjustBalance_frame h).1⟩
  obtain ⟨hfound, hledger⟩ := adjustBalance_ledger h
  obtain ⟨a, ha⟩ := Option.isSome_iff_exists.1 hfound
  rw [hledger]
  exact Ledger.sum_modify (f := (·.add x)) (·.balance) x
    (Option.isSome_of_eq_some (ledger_find_of_found ha)) fun _ => rfl

theorem finishWithdrawal_balances {amount tokens : Int}
    (h : db.finishWithdrawal name amount tokens = .ok db') :
    db'.ledger.purses.sum (·.balance) = db.ledger.purses.sum (·.balance) + tokens ∧
      db'.dgp = db.dgp := by
  refine ⟨?_, finishWithdrawal_dgp h⟩
  obtain ⟨a, ha, hledger⟩ := finishWithdrawal_ledger h
  rw [hledger]
  exact Ledger.sum_modify (f := fun p => (p.addShares (-amount)).add tokens) (·.balance) tokens
    (Option.isSome_of_eq_some (ledger_find_of_found ha)) fun _ => rfl

theorem depositShares_paysOut {amount v v' : Int} {r : WithdrawVestingRouteObject}
    (h : depositShares amount (v, db) r = .ok (v', db')) : PaysOut db db' := by
  unfold depositShares at h
  split at h
  · simp only [bind_eq_ok] at h
    obtain ⟨d, -, _, -, h⟩ := h
    split at h
    · simp only [bind_eq_ok, pure_eq_ok, Prod.mk.injEq] at h
      obtain ⟨a, -, db₁, hadd, -, rfl⟩ := h
      exact addVestingShares_paysOut hadd
    · simp only [pure_eq_ok, Prod.mk.injEq] at h
      obtain ⟨-, rfl⟩ := h
      exact .of_ledger_eq rfl
  · cases h
    exact .of_ledger_eq rfl

theorem depositTokens_paysOut {amount v v' : Int} {r : WithdrawVestingRouteObject}
    (h : depositTokens amount (v, db) r = .ok (v', db')) : PaysOut db db' := by
  unfold depositTokens at h
  split at h
  · cases h
    exact .of_ledger_eq rfl
  · simp only [bind_eq_ok] at h
    obtain ⟨a, -, d, -, _, -, t, ht, h⟩ := h
    split at h
    · rename_i hpos
      simp only [bind_eq_ok, pure_eq_ok, Prod.mk.injEq] at h
      obtain ⟨db₁, hpay, db₂, hredeem, -, rfl⟩ := h
      obtain ⟨hbalances, hdgp⟩ := adjustBalance_balances hpay
      exact redeemVesting_paysOut hpos.le ht hdgp hbalances hredeem
    · simp only [pure_eq_ok, Prod.mk.injEq] at h
      obtain ⟨-, rfl⟩ := h
      exact .of_ledger_eq rfl

/-- A pass over the routes is as good as its steps. -/
theorem routes_paysOut {deposit : Int × Db → WithdrawVestingRouteObject → Result (Int × Db)}
    (hstep : ∀ v db r v' db', deposit (v, db) r = .ok (v', db') → PaysOut db db')
    {routes : List WithdrawVestingRouteObject} {v v' : Int}
    (h : routes.foldlM deposit (v, db) = .ok (v', db')) : PaysOut db db' :=
  foldlM_invariant (fun s : Int × Db => PaysOut db s.2) deposit routes
    (fun r _ s s' hs hr => hs.trans (hstep s.1 s.2 r s'.1 s'.2 hr)) (v, db) (v', db')
    (.of_ledger_eq rfl) h

theorem sharesSenderRecalcEnergy_dgp {shares : Int}
    (h : db.sharesSenderRecalcEnergy name shares = .ok db') : db'.dgp = db.dgp := by
  simp only [sharesSenderRecalcEnergy, bind_eq_ok] at h
  obtain ⟨a, -, effective, -, h⟩ := h
  split at h
  · rw [pure_eq_ok] at h
    rw [← h]
    rfl
  · rw [pure_eq_ok] at h
    rw [h]

/-- **One withdrawal**: every part of it is converted at the price of its moment. -/
theorem withdrawFrom_paysOut {a : AccountObject} (h : db.withdrawFrom a = .ok db') :
    PaysOut db db' := by
  simp only [withdrawFrom, bind_eq_ok] at h
  obtain ⟨amount, -, ⟨vested, db₁⟩, hvest, ⟨paid, db₂⟩, hpay, _, -, rest, -, tokens, htokens, _, -,
    db₃, hrecalc, db₄, hfinish, db₅, hredeem, h⟩ := h
  have hfirst : PaysOut db db₁ := routes_paysOut (fun _ _ _ _ _ => depositShares_paysOut) hvest
  have hsecond : PaysOut db₁ db₂ := routes_paysOut (fun _ _ _ _ _ => depositTokens_paysOut) hpay
  have hledger := sharesSenderRecalcEnergy_ledger hrecalc
  have hdgp₃ := sharesSenderRecalcEnergy_dgp hrecalc
  obtain ⟨hbalances, hdgp₄⟩ := finishWithdrawal_balances hfinish
  rw [hledger] at hbalances
  have hlast : PaysOut db₂ db₅ :=
    redeemVesting_paysOut (le_max_right rest 0) htokens (hdgp₄.trans hdgp₃) hbalances hredeem
  have hall := (hfirst.trans hsecond).trans hlast
  split at h
  · exact hall.trans (.of_ledger_eq (ledger_of_votesOnly (adjustProxiedWitnessVotes_votesOnly h)))
  · rw [pure_eq_ok] at h
    subst h
    exact hall

theorem withdrawLoop_paysOut {fuel : Nat} {next : Option AccountName}
    (h : withdrawLoop fuel db next = .ok db') : PaysOut db db' := by
  induction fuel generalizing db next with
  | zero => cases h
  | succ fuel ih =>
    cases next with
    | none =>
      cases h
      exact .of_ledger_eq rfl
    | some name =>
      simp only [withdrawLoop, bind_eq_ok] at h
      obtain ⟨a, -, h⟩ := h
      split at h
      · simp only [bind_eq_ok] at h
        obtain ⟨db₁, hstep, hrest⟩ := h
        exact (withdrawFrom_paysOut hstep).trans (ih hrest)
      · rw [pure_eq_ok] at h
        subst h
        exact .of_ledger_eq rfl

/-- **Withdrawals** do not lower the price as long as there are shares. -/
theorem processVestingWithdrawals_paysOut (h : db.processVestingWithdrawals = .ok db') :
    PaysOut db db' :=
  withdrawLoop_paysOut h

/-! ## System accounts -/

/-- **Clearing an account** converts its shares at the price of the moment. -/
theorem drainAccount_reprices {total : Int} (h : db.drainAccount name = .ok (total, db')) :
    Reprices db db' := by
  simp only [drainAccount, bind_eq_ok, pure_eq_ok, Prod.mk.injEq] at h
  obtain ⟨⟨balance, db₁⟩, hbalance, ⟨tokens, db₂⟩, hshares, _, -, -, rfl⟩ := h
  have hdgp : db₁.dgp = db.dgp := by
    simp only [drainBalance, bind_eq_ok] at hbalance
    obtain ⟨a, -, hbalance⟩ := hbalance
    split at hbalance
    · simp only [bind_eq_ok, pure_eq_ok, Prod.mk.injEq] at hbalance
      obtain ⟨_, hpay, -, rfl⟩ := hbalance
      exact (adjustBalance_balances hpay).2
    · simp only [pure_eq_ok, Prod.mk.injEq] at hbalance
      rw [hbalance.2]
  refine (Reprices.of_dgp hdgp).trans ?_
  simp only [drainShares, bind_eq_ok] at hshares
  obtain ⟨a, -, hshares⟩ := hshares
  split at hshares
  · rename_i hpos
    simp only [bind_eq_ok, pure_eq_ok, Prod.mk.injEq] at hshares
    obtain ⟨t, ht, db₃, hredeem, -, rfl⟩ := hshares
    exact (redeemVesting_reprices hpos.le ht rfl hredeem).trans (.of_dgp rfl)
  · simp only [pure_eq_ok, Prod.mk.injEq] at hshares
    rw [← hshares.2]
    exact .of_dgp rfl

theorem burnBalance_reprices (h : db.burnBalance name = .ok db') : Reprices db db' := by
  simp only [burnBalance, bind_eq_ok] at h
  obtain ⟨⟨total, db₁⟩, hdrain, h⟩ := h
  refine (drainAccount_reprices hdrain).trans ?_
  split at h
  · simp only [burnAsset, bind_eq_ok, pure_eq_ok] at h
    obtain ⟨_, -, rfl⟩ := h
    exact .of_totals rfl rfl
  · rw [pure_eq_ok] at h
    subst h
    exact .of_dgp rfl

theorem claimCommitteeAccountBalance_reprices (h : db.claimCommitteeAccountBalance = .ok db') :
    Reprices db db' := by
  simp only [claimCommitteeAccountBalance, bind_eq_ok] at h
  obtain ⟨⟨total, db₁⟩, hdrain, h⟩ := h
  refine (drainAccount_reprices hdrain).trans ?_
  split at h
  · simp only [addCommitteeFund, bind_eq_ok, pure_eq_ok] at h
    obtain ⟨_, -, rfl⟩ := h
    exact .of_totals rfl rfl
  · rw [pure_eq_ok] at h
    subst h
    exact .of_dgp rfl

/-! ## Converting to and fro -/

/-- What an account does that only converts: it vests tokens, or a withdrawal of it is processed.
The weight is what was put in and what was paid out. -/
inductive Conversion (name : AccountName) : Int × Int → Db → Db → Prop
  | vest (db db' : Db) (t : Int) (ht : 0 ≤ t) (h : db.createVesting name t = .ok db') :
      Conversion name (t, 0) db db'
  | withdraw (db db' : Db) (a : AccountObject) (ha : db.findAccount name = some a)
      (h : db.withdrawFrom a = .ok db') :
      Conversion name
        (0, db'.ledger.purses.sum (·.balance) - db.ledger.purses.sum (·.balance)) db db'

/-- Conversions of one account between which there are shares. -/
def Conversions (name : AccountName) : Int × Int → Db → Db → Prop :=
  Walk fun w db db' => Conversion name w db db' ∧ 0 < db'.dgp.totalVestingShares

/-- A conversion keeps the price and moves tokens between the fund and the account. -/
theorem Conversion.step {w : Int × Int} (h : Conversion name w db db') (hdb : db.Priced)
    (hpos : 0 < db'.dgp.totalVestingShares) :
    db'.Priced ∧ db.PriceGrows db' ∧
      db'.dgp.totalVestingFund = db.dgp.totalVestingFund + w.1 - w.2 := by
  cases h with
  | vest _ _ t ht h =>
    obtain ⟨v, -, hF, -, hfund, hshares⟩ := createVesting_totals h
    have hprice := createVesting_price hdb ht h
    refine ⟨⟨⟨hprice.fund_pos hdb hpos, hfund⟩, hpos, hshares⟩, hprice, ?_⟩
    rw [hF, sub_zero]
  | withdraw _ _ a ha h =>
    have hpays := withdrawFrom_paysOut h
    refine ⟨hpays.priced hdb hpos, (hpays.price hdb hpos).1, ?_⟩
    have hcash := hpays.cash
    unfold Db.cash at hcash
    simp only
    omega

theorem Conversions.price {w : Int × Int} (h : Conversions name w db db') (hdb : db.Priced) :
    db'.Priced ∧ db.PriceGrows db' ∧
      db'.dgp.totalVestingFund = db.dgp.totalVestingFund + w.1 - w.2 := by
  induction h with
  | refl => exact ⟨hdb, le_rfl, by simp⟩
  | tail hwalk hstep ih =>
    obtain ⟨hmid, hgrow, hfund⟩ := ih hdb
    obtain ⟨hlast, hgrow', hfund'⟩ := hstep.1.step hmid hstep.2
    refine ⟨hlast, hgrow.trans hgrow' hdb.shares.1.le hmid.shares.1 hlast.shares.1.le, ?_⟩
    rw [hfund', hfund, Prod.fst_add, Prod.snd_add]
    omega

/-- **No profit.**  An account that has not converted back more shares than it got has not got
back more tokens than it put in. -/
theorem Conversions.got_le_put {put got : Int} (h : Conversions name (put, got) db db')
    (hdb : db.Priced) (hshares : db.dgp.totalVestingShares ≤ db'.dgp.totalVestingShares) :
    got ≤ put := by
  obtain ⟨-, hgrow, hfund⟩ := h.price hdb
  have hle : db.dgp.totalVestingFund * db.dgp.totalVestingShares ≤
      db'.dgp.totalVestingFund * db.dgp.totalVestingShares :=
    (mul_le_mul_of_nonneg_left hshares hdb.fund.1.le).trans hgrow
  have hfund' := le_of_mul_le_mul_right hle hdb.shares.1
  simp only at hfund
  omega

end Db

/-- A fund without tokens has no shares, so the fixed price is only used without shares. -/
def Db.EmptyTogether (db : Db) : Prop :=
  db.dgp.totalVestingFund = 0 → db.dgp.totalVestingShares = 0

theorem Db.Solvent.emptyTogether {fc : Fc} {db : Db} (h : db.Solvent fc) : db.EmptyTogether := by
  intro hF
  have hfund : db.ledger.vestingFund = 0 := hF
  have hshares : 0 ≤ db.dgp.totalVestingShares := h.sound.vestingShares
  have hprice : db.dgp.totalVestingShares ≤ 1000 * db.ledger.vestingFund := h.sound.price
  omega

/-- **Rounding favours the fund.**  No conversion lowers the price of a share while there are
shares; nobody profits from converting to and fro; and along a run in which every bid that is
kept is covered, a fund without tokens has no shares. -/
theorem rounding_favours_the_fund (env : Env) :
    (∀ (db db' : Db) name t, db.Priced → 0 ≤ t → db.createVesting name t = .ok db' →
        db.PriceGrows db') ∧
      (∀ (db db' : Db), db.Priced → 0 < db'.dgp.totalVestingShares →
        (db.processVestingWithdrawals = .ok db' ∨ db.clearNullAccountBalance = .ok db' ∨
          db.clearAnonymousAccountBalance = .ok db' ∨
          db.claimCommitteeAccountBalance = .ok db') → db.PriceGrows db') ∧
      (∀ (db db' : Db) name put got, db.Priced → Db.Conversions name (put, got) db db' →
        db.dgp.totalVestingShares ≤ db'.dgp.totalVestingShares → got ≤ put) ∧
      ∀ fuel skip (s s' : Store) bs n, skip.validateOperations = false →
        s.db.Solvent env.fc → (∀ e ∈ (s.applyBlocks env fuel skip bs n).1, e.Covered) →
        (s.applyBlocks env fuel skip bs n).2 = .ok s' → s'.db.EmptyTogether := by
  refine ⟨?_, ?_, ?_, ?_⟩
  · intro db db' name t hdb ht h
    exact Db.createVesting_price hdb ht h
  · intro db db' hdb hpos h
    have hreprices : Db.Reprices db db' := by
      rcases h with h | h | h | h
      · exact (Db.processVestingWithdrawals_paysOut h).toReprices
      · exact Db.burnBalance_reprices h
      · exact Db.burnBalance_reprices h
      · exact Db.claimCommitteeAccountBalance_reprices h
    exact (hreprices.price hdb hpos).1
  · intro db db' name put got hdb h hshares
    exact h.got_le_put hdb hshares
  · intro fuel skip s s' bs n hskip hdb hC h
    have hsolvent := Store.applyBlocks_ensures (solvent_keepsBlock env) fuel hskip bs hdb n hC s' h
    exact hsolvent.emptyTogether

/-- bob has announced the withdrawal of 5000 shares, which he does not have yet. -/
def roundTripDb : Db :=
  (smallStore [{ id := 4, name := "bob", vestingWithdrawRate := 5000, toWithdraw := 5000
                 nextVestingWithdrawal := 30 }]).db

/-- bob vests five tokens and withdraws the shares again. -/
theorem rounding_favours_the_fund_roundTrip :
    (∃ vested, roundTripDb.createVesting "bob" 5 = .ok vested ∧ roundTripDb.PriceGrows vested ∧
      (∃ processed, vested.processVestingWithdrawals = .ok processed ∧
        vested.PriceGrows processed) ∧
      ∃ withdrawn got, Db.Conversions "bob" (5, got) roundTripDb withdrawn ∧ got ≤ 5) ∧
      ∃ s', ((smallStore [{ id := 4, name := "bob" }]).applyBlocks smallEnv 2
        { merkleCheck := true } [smallBlock [smallTransfer]] 0).2 = .ok s' ∧
          s'.db.EmptyTogether := by
  obtain ⟨hvesting, hpayments, hconversions, hblocks⟩ := rounding_favours_the_fund smallEnv
  have hstart : roundTripDb.Priced := ⟨⟨by decide, by decide⟩, by decide, by decide⟩
  constructor
  · have hrun : returns (roundTripDb.createVesting "bob" 5) (fun db =>
        decide (0 < db.dgp.totalVestingFund ∧ db.dgp.totalVestingFund < 2 ^ 63 ∧
          0 < db.dgp.totalVestingShares ∧ db.dgp.totalVestingShares < 2 ^ 63) &&
        returns db.processVestingWithdrawals (fun db' => decide (0 < db'.dgp.totalVestingShares)) &&
        (db.findAccount "bob").any fun a => returns (db.withdrawFrom a) fun db' =>
          decide (roundTripDb.dgp.totalVestingShares ≤ db'.dgp.totalVestingShares)) = true := by
      decide +kernel
    obtain ⟨vested, hvested, hrest⟩ := returns_eq_true hrun
    rw [Bool.and_eq_true, Bool.and_eq_true, decide_eq_true_eq] at hrest
    obtain ⟨⟨⟨hfund, hfund', hshares, hshares'⟩, hprocess⟩, hwithdraw⟩ := hrest
    obtain ⟨processed, hprocessed, hpos⟩ := returns_eq_true hprocess
    obtain ⟨a, ha, hpaid⟩ := (Option.any_eq_true _ _).1 hwithdraw
    obtain ⟨withdrawn, hwithdrawn, hmore⟩ := returns_eq_true hpaid
    have hmore := of_decide_eq_true hmore
    refine ⟨vested, hvested, hvesting _ _ "bob" 5 hstart (by decide) hvested, ?_, ?_⟩
    · exact ⟨processed, hprocessed, hpayments vested processed ⟨⟨hfund, hfund'⟩, hshares, hshares'⟩
        (of_decide_eq_true hpos) (.inl hprocessed)⟩
    · have hvest : Db.Conversions "bob" (5, 0) roundTripDb vested :=
        .single ⟨.vest _ _ 5 (by decide) hvested, hshares⟩
      have hwalk : Db.Conversions "bob" _ roundTripDb withdrawn :=
        Walk.tail hvest ⟨.withdraw _ _ a ha hwithdrawn, hstart.shares.1.trans_le hmore⟩
      rw [Prod.mk_add_mk, add_zero, zero_add] at hwalk
      exact ⟨withdrawn, _, hwalk, hconversions _ _ "bob" 5 _ hstart hwalk hmore⟩
  · have hrun : returns ((smallStore [{ id := 4, name := "bob" }]).applyBlocks smallEnv 2
        { merkleCheck := true } [smallBlock [smallTransfer]] 0).2 (fun _ => true) = true := by
      decide +kernel
    have hplain : ∀ e ∈ ((smallStore [{ id := 4, name := "bob" }]).applyBlocks smallEnv 2
        { merkleCheck := true } [smallBlock [smallTransfer]] 0).1, e.plain = true := by
      decide +kernel
    obtain ⟨s', hs', -⟩ := returns_eq_true hrun
    exact ⟨s', hs', hblocks 2 _ _ s' _ 0 rfl (smallStore_solvent _)
      (fun e he => Event.covered_of_plain (hplain e he)) hs'⟩

/-! ## A fund without tokens and a negative number of shares -/

/-- A whale is about to withdraw almost all shares there are, and dave sells carol's account. -/
def whaleStore : Store :=
  let s := smallStore [{ id := 4, name := "bob" },
    { id := 5, name := "carol", accountOnSale := true, accountSeller := "dave"
      accountOfferPrice := 100, accountOnSaleStartTime := 333, accountOnAuction := true },
    { id := 6, name := "dave" },
    { id := 7, name := "whale", vestingShares := 10 ^ 17
      vestingWithdrawRate := 10 ^ 17 - 1000615, toWithdraw := 10 ^ 17 - 1000615
      nextVestingWithdrawal := 336 }]
  { s with db := { s.db with
      dgp := { s.db.dgp with
        currentSupply := 10 ^ 14 + 3000, totalVestingFund := 10 ^ 14 + 1000
        totalVestingShares := 10 ^ 17 + 1000000 }
      blockSummaries := ⟨(List.range 4).map fun i => ⟨10 + i, ⟨10, 30⟩⟩, 65536⟩ } }

theorem whaleStore_solvent (fc : Fc) : whaleStore.db.Solvent fc :=
  Db.solvent_of_quiet fc rfl rfl rfl (by decide +kernel) ⟨by decide, by decide, by decide⟩
    le_rfl le_rfl (by decide +kernel) (smallStore_terms [])

/-- bob, who has nothing, bids for carol's account; when the auction is over dave vests what he
was paid, and the number of shares that it makes is negative as a signed amount. -/
def whaleBlocks : List SignedBlock :=
  let bid : Operation := .buyAccount
    { buyer := "bob", account := "carol", accountOfferPrice := ⟨18446744073707551, tokenSymbol⟩
      accountAuthoritiesKey := 7, tokensToShares := ⟨1000, tokenSymbol⟩ }
  let vest : Operation := .transferToVesting
    { fromAccount := "dave", toAccount := "bob", amount := ⟨18446744073707551, tokenSymbol⟩ }
  [smallBlock [bid],
    { smallBlock [] with previous := ⟨11, 33⟩, timestamp := 333, transactions := [] },
    { smallBlock [] with
      previous := ⟨12, 333⟩, timestamp := 336
      transactions := [⟨⟨10, 30, 340, [vest]⟩, [7]⟩] }]

/-- After an uncovered bid the fund can be empty while the number of shares is not zero. -/
theorem empty_fund_with_shares :
    ¬ ∀ (env : Env) fuel skip (s s' : Store) bs n, skip.validateOperations = false →
      s.db.Solvent env.fc → (s.applyBlocks env fuel skip bs n).2 = .ok s' →
      s'.db.EmptyTogether := by
  intro hall
  have hrun : returns (whaleStore.applyBlocks smallEnv 2 { merkleCheck := true } whaleBlocks 0).2
      (fun s => s.db.dgp.totalVestingFund = 0 && s.db.dgp.totalVestingShares = -1) = true := by
    decide +kernel
  obtain ⟨s', hs', hempty⟩ := returns_eq_true hrun
  rw [Bool.and_eq_true, decide_eq_true_eq, decide_eq_true_eq] at hempty
  have hzero := hall smallEnv 2 { merkleCheck := true } whaleStore s' whaleBlocks 0 rfl
    (whaleStore_solvent _) hs' hempty.1
  rw [hempty.2] at hzero
  exact absurd hzero (by decide)

end VizCore.Chain
