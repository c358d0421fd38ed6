import VizCore.Chain.Funds
import VizCore.Chain.Rewards

/-!
# The energy of a fixed award

The energy that `fixed_award` charges is computed backwards from the amount asked for, rounded
down, and raised by one.

* `rsharesOf_eq`, `calcRshareAward_fund`: nothing wraps in an accepted award;
* `fixedAwardQuote_energy`: the energy of a quote;
* `fixedAward_respects_iff`: when an accepted award keeps the caller's limit.
-/

namespace VizCore.Chain

open VizCore.Lib VizCore.Protocol

namespace Db

variable {db db' : Db}

/-- Reward shares that are positive come from shares that are not negative, and nothing wraps. -/
theorem rsharesOf_eq {effective rshares : Int} {energy : Nat} (heffective : InInt64 effective)
    (henergy : energy ≤ 10000) (h : rsharesOf effective energy = .ok rshares)
    (hpos : 0 < rshares) : rshares = effective * energy / 10000 := by
  simp only [rsharesOf, toSigned64, bind_eq_ok, fcAssert_eq_ok, pure_eq_ok] at h
  obtain ⟨_, hsmall, rfl⟩ := h
  have hcast : ((toUint128 effective * toUint128 energy % 2 ^ 128 : Nat) : Int) =
      effective * energy % 2 ^ 128 := by
    push_cast
    rw [toUint128_cast, toUint128_cast]
    exact (Int.mul_emod effective energy (2 ^ 128)).symm
  have hbound : effective * energy < 2 ^ 63 * 10000 ∧ -(2 ^ 63 * 10000) ≤ effective * energy := by
    obtain ⟨hlow, hhigh⟩ := heffective
    have hnat : (0 : Int) ≤ energy := Int.natCast_nonneg _
    constructor <;> nlinarith
  obtain ⟨hhigh, hlow⟩ := hbound
  generalize hprod : toUint128 effective * toUint128 energy % 2 ^ 128 = n at *
  generalize effective * (energy : Int) = p at *
  unfold percent100 at *
  rcases lt_or_ge p 0 with hneg | hnonneg
  · -- a negative product wraps to a number that does not fit 64 bits
    have hwrap : p % 2 ^ 128 = p + 2 ^ 128 := by
      rw [← Int.add_emod_right]
      exact Int.emod_eq_of_lt (by omega) (by omega)
    rw [hwrap] at hcast
    omega
  · rw [Int.emod_eq_of_lt hnonneg (by omega)] at hcast
    rw [toInt64_of_lt (by omega)]
    omega

/-- An accepted calculation has a fund that is not negative: a negative one wraps to a payout that
does not fit 64 bits. -/
theorem calcRshareAward_fund {rshares payout : Int} (hfund : InInt64 db.dgp.totalRewardFund)
    (hshares : db.dgp.totalRewardShares < 2 ^ 128) (hrange : InInt64 rshares)
    (h : db.calcRshareAward rshares = .ok payout) :
    0 ≤ db.dgp.totalRewardFund ∧ payout ≤ db.dgp.totalRewardFund := by
  have hpos := calcRshareAward_pos h
  have hnonneg : 0 ≤ db.dgp.totalRewardFund := by
    by_contra hneg
    simp only [calcRshareAward, bind_eq_ok, fcAssert_eq_ok, pure_eq_ok] at h
    obtain ⟨_, -, _, hfits, rfl⟩ := h
    have hrs := toUint256_of_nonneg hpos.le hrange.2
    have hcast : ((toUint256 db.dgp.totalRewardFund * toUint256 rshares % 2 ^ 256 : Nat) : Int) =
        db.dgp.totalRewardFund * rshares % 2 ^ 256 := by
      push_cast
      rw [hrs]
      unfold toUint256
      rw [Int.toNat_of_nonneg (Int.emod_nonneg _ (by norm_num))]
      have hmul := Int.mul_emod (db.dgp.totalRewardFund % 2 ^ 256) rshares (2 ^ 256)
      rw [Int.emod_emod, ← Int.mul_emod] at hmul
      exact hmul
    have hbound : -(2 ^ 126) ≤ db.dgp.totalRewardFund * rshares ∧
        db.dgp.totalRewardFund * rshares < 0 := by
      have hlow := hfund.1
      have hhigh := hrange.2
      constructor <;> nlinarith
    have hwrap : db.dgp.totalRewardFund * rshares % 2 ^ 256 =
        db.dgp.totalRewardFund * rshares + 2 ^ 256 := by
      rw [← Int.add_emod_right]
      exact Int.emod_eq_of_lt (by omega) (by omega)
    rw [hwrap] at hcast
    have hdivisor : db.dgp.totalRewardShares + toUint256 rshares ≤ 2 ^ 129 := by
      have hhigh := hrange.2
      omega
    generalize toUint256 db.dgp.totalRewardFund * toUint256 rshares % 2 ^ 256 = n at *
    have hlarge : 2 ^ 129 * 2 ^ 63 ≤ n := by omega
    have hquotient : 2 ^ 63 ≤ n / (db.dgp.totalRewardShares + toUint256 rshares) := by
      rw [Nat.le_div_iff_mul_le (by omega)]
      calc 2 ^ 63 * (db.dgp.totalRewardShares + toUint256 rshares)
          ≤ 2 ^ 63 * 2 ^ 129 := Nat.mul_le_mul_left _ hdivisor
        _ ≤ n := by omega
    omega
  refine ⟨hnonneg, ?_⟩
  rw [calcRshareAward_floor hnonneg hfund.2 hrange h]
  refine Int.ediv_le_of_le_mul (by omega) ?_
  have hnat : (0 : Int) ≤ db.dgp.totalRewardShares := Int.natCast_nonneg _
  nlinarith

/-- The limit is 100%, or it is worth more reward shares than the amount needs. -/
def LimitHasRoom (db : Db) (o : FixedAwardOperation) : Prop :=
  o.maxEnergy = 10000 ∨ ∃ a, db.findAccount o.initiator = some a ∧
    o.rewardAmount.amount * db.dgp.totalRewardShares <
      (a.vestingShares - a.delegatedVestingShares + a.receivedVestingShares) * o.maxEnergy / 10000 *
        (db.dgp.totalRewardFund - o.rewardAmount.amount)

/-- The shares that an amount needs, for amounts below the fund. -/
theorem neededShares_eq {amount fund : Int} {shares : Nat} (hamount : 0 < amount)
    (hlt : amount < fund) (hfund : fund < 2 ^ 63) (hshares : shares < 2 ^ 128) :
    toUint256 amount * shares % 2 ^ 256 / ((toUint256 fund + 2 ^ 256 - toUint256 amount) % 2 ^ 256) =
      (amount.toNat * shares) / (fund - amount).toNat := by
  have hra := toUint256_of_nonneg hamount.le (by omega)
  have hrf := toUint256_of_nonneg (by omega) hfund
  have hprod : toUint256 amount * shares < 2 ^ 256 := by
    calc toUint256 amount * shares ≤ 2 ^ 63 * 2 ^ 128 := Nat.mul_le_mul (by omega) hshares.le
      _ < 2 ^ 256 := by norm_num
  have hrest : (toUint256 fund + 2 ^ 256 - toUint256 amount) % 2 ^ 256 = (fund - amount).toNat := by
    omega
  have hnat : toUint256 amount = amount.toNat := by omega
  rw [Nat.mod_eq_of_lt hprod, hrest, hnat]

/-- The energy for `shares` of the `limit` reward shares that `energy` is worth, rounded down and
raised by one, stays within `energy` when the shares are fewer than the limit. -/
theorem energyFor_le_iff {shares energy : Nat} {limit needed : Int} (hpos : 0 < limit)
    (hfits : limit < 2 ^ 63) (hle : (shares : Int) ≤ limit) (henergy : energy ≤ 10000)
    (hzero : 0 < energy)
    (h : toSigned64 (shares * energy % 2 ^ 128 / toUint128 limit) = .ok needed) :
    0 ≤ needed ∧ (min (wrapInt64 (needed + 1)) percent100 ≤ (energy : Int) ↔
      energy = 10000 ∨ (shares : Int) < limit) ∧ 0 ≤ min (wrapInt64 (needed + 1)) percent100 := by
  simp only [toSigned64, bind_eq_ok, fcAssert_eq_ok, pure_eq_ok] at h
  obtain ⟨_, -, rfl⟩ := h
  have hlimit := toUint128_of_nonneg hpos.le (by omega)
  have hprod : shares * energy < 2 ^ 128 := by
    calc shares * energy ≤ 2 ^ 63 * 10000 := Nat.mul_le_mul (by omega) henergy
      _ < 2 ^ 128 := by norm_num
  rw [Nat.mod_eq_of_lt hprod]
  have hdivisor : 0 < toUint128 limit := by omega
  have hquotient : shares * energy / toUint128 limit ≤ energy := by
    refine Nat.div_le_of_le_mul ?_
    exact Nat.mul_le_mul_right energy (by omega)
  have hless : shares * energy / toUint128 limit < energy ↔ shares < toUint128 limit := by
    rw [Nat.div_lt_iff_lt_mul hdivisor, Nat.mul_comm energy]
    exact Nat.mul_lt_mul_right hzero
  rw [toInt64_of_lt (by omega)]
  generalize shares * energy / toUint128 limit = n at *
  have hwrap : wrapInt64 ((n : Int) + 1) = n + 1 := by
    unfold wrapInt64
    exact Int.bmod_eq_of_le_mul_two (by omega) (by omega)
  rw [hwrap]
  unfold percent100
  refine ⟨by omega, ?_, by omega⟩
  constructor
  · intro hmin
    omega
  · rintro (hall | hlt)
    · omega
    · omega

/-- **The energy of a quote** keeps the limit exactly when the limit has room. -/
theorem fixedAwardQuote_energy {o : FixedAwardOperation} {quote : FixedAwardQuote}
    (hpositive : 0 < o.rewardAmount.amount) (hlimit : o.maxEnergy ≤ 10000)
    (hfund : InInt64 db.dgp.totalRewardFund) (hshares : db.dgp.totalRewardShares < 2 ^ 128)
    (h : db.fixedAwardQuote o = .ok quote) :
    ∃ a, db.findAccount o.initiator = some a ∧
      quote.currentEnergy = a.currentEnergy db.headBlockTime ∧
      (o.maxEnergy : Int) ≤ quote.currentEnergy ∧ quote.currentEnergy ≤ 10000 ∧
      0 ≤ quote.needEnergy ∧ quote.needEnergy ≤ 10000 ∧
      (quote.needEnergy ≤ o.maxEnergy ↔ db.LimitHasRoom o) := by
  simp only [fixedAwardQuote, getAccount, bind_eq_ok, getOrThrow_eq_ok, fcAssert_eq_ok,
    pure_eq_ok] at h
  obtain ⟨a, ha, _, -, _, -, _, henough, effective, heffective, limit, hrshares, reward, hreward, _,
    hcover, _, hrest, _, -, _, hle, needed, hneeded, rshares, -, tokens, htokens, _, hcovered, _, -,
    rfl⟩ := h
  obtain ⟨hfits, heq⟩ := effectiveVestingShares_eq heffective
  have hpos := calcRshareAward_pos hreward
  have hrange := rsharesOf_inInt64 hrshares
  have hworth := rsharesOf_eq hfits hlimit hrshares hpos
  have hzero : 0 < o.maxEnergy := by
    by_contra hnot
    have hnone : o.maxEnergy = 0 := by omega
    rw [hnone] at hworth
    simp at hworth
    omega
  obtain ⟨hnonneg, hpaid⟩ := calcRshareAward_fund hfund hshares hrange hreward
  -- the payout for the limit is less than the fund, and covers the amount
  have hfloor := calcRshareAward_floor hnonneg hfund.2 hrange hreward
  have hamount : o.rewardAmount.amount < 2 ^ 63 := by
    unfold countedAward at htokens
    split at htokens
    · cases htokens
      omega
    · simp only [calcRshareAward, bind_eq_ok, fcAssert_eq_ok, pure_eq_ok] at htokens
      obtain ⟨_, -, _, hsmall, rfl⟩ := htokens
      omega
  have hbelow : o.rewardAmount.amount < db.dgp.totalRewardFund := by
    rw [require_eq_ok] at hrest
    have hreward₀ := calcRshareAward_nonneg hreward
    have hra := toUint128_of_nonneg hpositive.le (by omega)
    have hmax := toUint128_of_nonneg hreward₀ (by have := hfund.2; omega)
    have hle' : o.rewardAmount.amount ≤ db.dgp.totalRewardFund := by omega
    refine lt_of_le_of_ne hle' fun hsame => hrest ?_
    rw [hsame, Nat.add_sub_cancel_left, Nat.mod_self]
  rw [neededShares_eq hpositive hbelow hfund.2 hshares] at hle hneeded
  obtain ⟨-, hiff, hneed⟩ := energyFor_le_iff hpos hrange.2 hle hlimit hzero hneeded
  have hrest' : 0 < (db.dgp.totalRewardFund - o.rewardAmount.amount).toNat := by omega
  have hroom : ((o.rewardAmount.amount.toNat * db.dgp.totalRewardShares /
      (db.dgp.totalRewardFund - o.rewardAmount.amount).toNat : Nat) : Int) < limit ↔
      o.rewardAmount.amount * db.dgp.totalRewardShares <
        limit * (db.dgp.totalRewardFund - o.rewardAmount.amount) := by
    have hlimitNat : (limit.toNat : Int) = limit := Int.toNat_of_nonneg hpos.le
    have hamountNat := Int.toNat_of_nonneg hpositive.le
    have hrestNat := Int.toNat_of_nonneg (a := db.dgp.totalRewardFund - o.rewardAmount.amount)
      (by omega)
    rw [← hlimitNat, Int.ofNat_lt, Nat.div_lt_iff_lt_mul hrest', ← Int.ofNat_lt, Int.natCast_mul,
      Int.natCast_mul, hamountNat, hrestNat]
  refine ⟨a, ha, rfl, henough, min_le_right _ _, hneed, min_le_right _ _, ?_⟩
  rw [hiff, hroom, hworth, heq]
  unfold LimitHasRoom
  constructor
  · rintro (hall | hlt)
    · exact .inl hall
    · exact .inr ⟨a, ha, hlt⟩
  · rintro (hall | ⟨b, hb, hlt⟩)
    · exact .inl hall
    · rw [ha] at hb
      cases hb
      exact .inr hlt

/-- What an accepted fixed award leaves of the energy of its initiator. -/
theorem fixedAward_spends {producing : Bool} {o : FixedAwardOperation} {a : AccountObject}
    (ha : db.findAccount o.initiator = some a) (h : db.fixedAward producing o = .ok db') :
    ∃ quote b, db.fixedAwardQuote o = .ok quote ∧ db'.findAccount o.initiator = some b ∧
      b.energy = wrapInt16 (quote.currentEnergy - quote.needEnergy) := by
  simp only [fixedAward, bind_eq_ok, safeSub_eq_ok] at h
  obtain ⟨quote, hquote, ⟨tokens, db₁⟩, hclaim, _, -, _, -, _, -, _, -, ⟨total, db₂⟩, hben, _, -,
    db₃, hrec, h⟩ := h
  have hlast : FundsOnly db₃ db' := by
    split at h
    · exact addCommitteeFund_fundsOnly h
    · cases h
      exact .refl _
  have hpaid := (payBeneficiaries_fundsOnly _ hben).trans ((payReceiver_fundsOnly hrec).trans hlast)
  have ha₁ : db₁.findAccount o.initiator = some a := by
    obtain ⟨-, hdb₁⟩ := claimRshareAward_eq hclaim
    rw [hdb₁]
    exact ha
  have hspent : (db₁.spendEnergy o.initiator (quote.currentEnergy - quote.needEnergy)).findAccount
      o.initiator = some { a with
        energy := wrapInt16 (quote.currentEnergy - quote.needEnergy)
        lastVoteTime := db₁.headBlockTime
        voteCount := (a.voteCount + 1) % 2 ^ 32 } :=
    (Table.get_update_same db₁.accounts (·.name) o.initiator (fun a => { a with
      energy := wrapInt16 (quote.currentEnergy - quote.needEnergy)
      lastVoteTime := db₁.headBlockTime
      voteCount := (a.voteCount + 1) % 2 ^ 32 }) fun _ => rfl).trans (by
        rw [show db₁.accounts.get (·.name) o.initiator = some a from ha₁]
        rfl)
  obtain ⟨b, hb, hsame⟩ := hpaid.find hspent
  exact ⟨quote, b, hquote, hb, congrArg AccountObject.energy hsame⟩

end Db

/-- A fixed award charges no more energy than its limit, leaves the initiator's energy not negative,
and pays at least the amount asked for out of the fund. -/
def Db.RespectsLimit (db db' : Db) (o : FixedAwardOperation) : Prop :=
  (∃ a b, db.findAccount o.initiator = some a ∧ db'.findAccount o.initiator = some b ∧
    a.currentEnergy db.headBlockTime - b.energy ≤ o.maxEnergy ∧ 0 ≤ b.energy) ∧
  o.rewardAmount.amount ≤ db.dgp.totalRewardFund - db'.dgp.totalRewardFund

/-- **The limit of a fixed award.**  An accepted fixed award respects the limit exactly when the
limit has room for the unit by which the energy is raised; it always pays the amount. -/
theorem fixedAward_respects_iff (fc : Fc) (producing : Bool) (db db' : Db) (o : FixedAwardOperation)
    (hv : o.validate fc = .ok ()) (hfund : InInt64 db.dgp.totalRewardFund)
    (hshares : db.dgp.totalRewardShares < 2 ^ 128) (h : db.fixedAward producing o = .ok db') :
    (db.RespectsLimit db' o ↔ db.LimitHasRoom o) ∧
      o.rewardAmount.amount ≤ db.dgp.totalRewardFund - db'.dgp.totalRewardFund := by
  simp only [FixedAwardOperation.validate, validateAwardTail, bind_eq_ok, fcAssert_eq_ok] at hv
  obtain ⟨_, -, _, -, _, -, _, hpositive, _, hlimit, -⟩ := hv
  have hpaid : o.rewardAmount.amount ≤ db.dgp.totalRewardFund - db'.dgp.totalRewardFund := by
    obtain ⟨-, -, hreward⟩ := Db.fixedAward_funds h
    have hclaimed : o.rewardAmount.amount ≤ db.fixedAwardPayout o := by
      simp only [Db.fixedAward, bind_eq_ok] at h
      obtain ⟨quote, hquote, ⟨tokens, db₁⟩, hclaim, -⟩ := h
      obtain ⟨hcalc, -⟩ := Db.claimRshareAward_eq hclaim
      have hcover := Db.fixedAwardQuote_covers hquote hcalc
      simp only [Db.fixedAwardPayout, hquote, bind, Except.bind, hcalc]
      exact hcover
    omega
  refine ⟨?_, hpaid⟩
  have hinitiator : ∃ a, db.findAccount o.initiator = some a := by
    simp only [Db.fixedAward, Db.fixedAwardQuote, Db.getAccount, bind_eq_ok, getOrThrow_eq_ok] at h
    obtain ⟨_, ⟨a, ha, -⟩, -⟩ := h
    exact ⟨a, ha⟩
  obtain ⟨a, ha⟩ := hinitiator
  obtain ⟨quote, b, hquote, hb, henergy⟩ := Db.fixedAward_spends ha h
  obtain ⟨a', ha', hcurrent, henough, hfull, hneed, hcap, hiff⟩ :=
    Db.fixedAwardQuote_energy hpositive hlimit hfund hshares hquote
  rw [ha] at ha'
  cases ha'
  have hwrap : wrapInt16 (quote.currentEnergy - quote.needEnergy) =
      quote.currentEnergy - quote.needEnergy := by
    unfold wrapInt16
    exact Int.bmod_eq_of_le_mul_two (by omega) (by omega)
  rw [hwrap] at henergy
  rw [← hiff]
  constructor
  · rintro ⟨⟨a₁, b₁, ha₁, hb₁, hcharged, -⟩, -⟩
    rw [ha] at ha₁
    rw [hb] at hb₁
    cases ha₁
    cases hb₁
    omega
  · intro hle
    refine ⟨⟨a, b, ha, hb, by omega, by omega⟩, hpaid⟩

/-- alice's energy is at 10%, and she has a hundredth of the reward shares of the others. -/
def tightExample : Db :=
  { dgp :=
      { totalVestingFund := 1000000000, totalVestingShares := 1000000000000
        totalRewardFund := 2000000000, totalRewardShares := 100000000000 }
    accounts :=
      { rows := [{ id := 0, name := "alice", vestingShares := 1000000000000, energy := 1000 },
          { id := 1, name := "bob" }]
        nextId := 2 } }

/-- alice asks for `amount` and admits 10% of energy. -/
def tightOp (amount : Int) : FixedAwardOperation :=
  { initiator := "alice", receiver := "bob", rewardAmount := ⟨amount, tokenSymbol⟩
    maxEnergy := 1000, customSequence := 0, memo := "", beneficiaries := [] }

theorem fixedAward_respects_iff_smaller :
    ∃ db', tightExample.fixedAward false (tightOp 900000000) = .ok db' ∧
      (tightExample.RespectsLimit db' (tightOp 900000000) ↔
        tightExample.LimitHasRoom (tightOp 900000000)) := by
  have hrun : returns (tightExample.fixedAward false (tightOp 900000000)) (fun _ => true) = true := by
    decide +kernel
  obtain ⟨db', hdb', -⟩ := returns_eq_true hrun
  exact ⟨db', hdb', (fixedAward_respects_iff smallEnv.fc false tightExample db' _ (by decide +kernel)
    (by decide) (by decide) hdb').1⟩

/-- For 1000000 tokens she needs all the shares that 10% are worth: she is charged 10.01%, and her
energy is negative afterwards. -/
theorem fixedAward_overcharges : ∃ db', (tightOp 1000000000).validate smallEnv.fc = .ok () ∧
    tightExample.fixedAward false (tightOp 1000000000) = .ok db' ∧
    (db'.findAccount "alice").map AccountObject.energy = some (-1) ∧
    ¬ tightExample.RespectsLimit db' (tightOp 1000000000) := by
  have hrun : returns (tightExample.fixedAward false (tightOp 1000000000)) (fun d =>
      (d.findAccount "alice").map AccountObject.energy = some (-1)) = true := by decide +kernel
  obtain ⟨db', hdb', henergy⟩ := returns_eq_true hrun
  have hnegative := of_decide_eq_true henergy
  refine ⟨db', by decide +kernel, hdb', hnegative, ?_⟩
  rintro ⟨⟨a, b, -, hb, -, hnonneg⟩, -⟩
  change db'.findAccount "alice" = some b at hb
  rw [hb] at hnegative
  have hvalue : b.energy = -1 := Option.some.inj hnegative
  omega

end VizCore.Chain
