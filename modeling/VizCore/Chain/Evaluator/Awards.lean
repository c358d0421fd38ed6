import VizCore.Chain.Flow

/-!
# Awards

`award` spends energy for a share of the reward fund; `fixed_award` asks for a given
amount of tokens and computes the energy it costs.

* `fixedAward_balanced_iff`: a `fixed_award` pays out what it takes exactly when the
  parts of its beneficiaries, which are taken of the whole payout, fit the amount
  asked for;
* `award_flow`: an award moves tokens from the reward fund into shares;
* `fixedAward_flow`: a fixed award brings in what its parts exceed the amount asked for.
-/

namespace VizCore.Chain

open VizCore.Lib VizCore.Protocol

namespace Db

/-- The reward shares that an energy is worth: `effective * energy / 100%` in 128 bits. -/
def rsharesOf (effective energy : Int) : Result Int :=
  toSigned64 (toUint128 effective * toUint128 energy % 2 ^ 128 / percent100)

/-- A beneficiary's part of `tokens`. -/
def beneficiaryPart (tokens : Int) (b : BeneficiaryRoute) : Result Int := do
  let product ← safeMul tokens b.weight
  safeDiv product percent100

/-- The loop over the beneficiaries; returns the sum of their parts. -/
def payBeneficiaries (tokens : Int) : List BeneficiaryRoute → Int → Db → Result (Int × Db)
  | [], total, db => .ok (total, db)
  | b :: rest, total, db => do
    fcAssert (db.findAccount b.account).isSome "Beneficiary must exist."
    let part ← beneficiaryPart tokens b
    let db ← db.createVesting b.account part
    let a ← db.getAccount b.account
    let awards ← safeAdd a.benefactorAwards part
    let db := db.modifyAccount b.account fun a => { a with benefactorAwards := awards }
    let total ← safeAdd total part
    payBeneficiaries tokens rest total db

/-- What is left goes to the receiver, if it is positive. -/
def payReceiver (receiver : AccountName) (tokens : Int) (db : Db) : Result Db :=
  if 0 < tokens then do
    let db ← db.createVesting receiver tokens
    let a ← db.getAccount receiver
    let awards ← safeAdd a.receiverAwards tokens
    return db.modifyAccount receiver fun a => { a with receiverAwards := awards }
  else .ok db

/-- Energy is spent and the vote counted. -/
def spendEnergy (db : Db) (name : AccountName) (energy : Int) : Db :=
  db.modifyAccount name fun a =>
    { a with
      energy := wrapInt16 energy
      lastVoteTime := db.headBlockTime
      voteCount := (a.voteCount + 1) % 2 ^ 32 }

def assertBeneficiaryCount (producing : Bool) (beneficiaries : List BeneficiaryRoute) :
    Result Unit :=
  fcAssert (producing = true → beneficiaries.length ≤ 64)
    "Cannot specify more than $\x7bm\x7d beneficiaries."

/-- Reward shares below the consensus minimum are worth nothing. -/
def countedAward (db : Db) (rshares : Int) : Result Int :=
  if rshares < db.medianProps.voteAccountingMinRshares then .ok 0
  else db.calcRshareAward rshares

def claimCountedAward (db : Db) (rshares : Int) : Result (Int × Db) :=
  if rshares < db.medianProps.voteAccountingMinRshares then .ok (0, db)
  else db.claimRshareAward rshares

/-- `award_evaluator::do_apply` -/
def award (producing : Bool) (db : Db) (o : AwardOperation) : Result Db := do
  let initiator ← db.getAccount o.initiator
  let _ ← db.getAccount o.receiver
  let currentEnergy := initiator.currentEnergy db.headBlockTime
  fcAssert (0 < currentEnergy) "Account currently does not have voting energy."
  fcAssert (o.energy ≤ currentEnergy) "Account does not have enough energy to award."
  let effective ← initiator.effectiveVestingShares
  let rshares ← rsharesOf effective o.energy
  let (tokens, db) ← db.claimCountedAward rshares
  let db := db.spendEnergy o.initiator (currentEnergy - o.energy)
  if 0 < tokens then
    assertBeneficiaryCount producing o.beneficiaries
    let (total, db) ← payBeneficiaries tokens o.beneficiaries 0 db
    let receiverTokens ← safeSub tokens total
    payReceiver o.receiver receiverTokens db
  else return db

/-- What `fixed_award` computes before it changes anything. -/
structure FixedAwardQuote where
  currentEnergy : Int
  needEnergy : Int
  rshares : Int

/-- The checks of `fixed_award` up to the claim, and the energy and reward shares it is
going to use. -/
def fixedAwardQuote (db : Db) (o : FixedAwardOperation) : Result FixedAwardQuote := do
  let initiator ← db.getAccount o.initiator
  let _ ← db.getAccount o.receiver
  let currentEnergy := initiator.currentEnergy db.headBlockTime
  fcAssert (0 < currentEnergy) "Account currently does not have voting energy."
  fcAssert (o.maxEnergy ≤ currentEnergy) "Account does not have enough energy to award."
  let effective ← initiator.effectiveVestingShares
  let maxRshares ← rsharesOf effective o.maxEnergy
  let maxReward ← db.calcRshareAward maxRshares
  fcAssert (toUint128 o.rewardAmount.amount ≤ toUint128 maxReward)
    "Max available reward: $\x7br\x7d, requested reward amount: $\x7bu\x7d"
  -- rs = (ra * total_rshares) / (rf - ra)
  let ra := toUint256 o.rewardAmount.amount
  let rest := (toUint256 db.dgp.totalRewardFund + 2 ^ 256 - ra) % 2 ^ 256
  require (rest ≠ 0) Exception.divideByZero
  let rs : Nat := ra * db.dgp.totalRewardShares % 2 ^ 256 / rest
  fcAssert (rs ≤ 2 ^ 63 - 1) "rs_calc <= int64_t max"
  fcAssert ((rs : Int) ≤ maxRshares) "Account does not have enough potential to fixed award."
  let needed ← toSigned64 (rs * o.maxEnergy % 2 ^ 128 / toUint128 maxRshares)
  let needEnergy := min (wrapInt64 (needed + 1)) percent100
  let rshares ← rsharesOf effective needEnergy
  let tokens ← db.countedAward rshares
  fcAssert (o.rewardAmount.amount ≤ tokens)
    "Calculated reward is lesser than fixed reward amount."
  fcAssert (¬ rshares < db.medianProps.voteAccountingMinRshares ∧ rshares ≠ 0)
    "Potential rshares is 0"
  return ⟨currentEnergy, needEnergy, rshares⟩

/-- `fixed_award_evaluator::do_apply` -/
def fixedAward (producing : Bool) (db : Db) (o : FixedAwardOperation) : Result Db := do
  let quote ← db.fixedAwardQuote o
  let (tokens, db) ← db.claimRshareAward quote.rshares
  fcAssert (0 < tokens) "Potential reward is 0"
  let db := db.spendEnergy o.initiator (quote.currentEnergy - quote.needEnergy)
  assertBeneficiaryCount producing o.beneficiaries
  let donation ← safeSub tokens o.rewardAmount.amount
  let receiverTokens ← safeSub tokens donation
  -- the parts are taken of the whole payout, not of the fixed reward
  let (total, db) ← payBeneficiaries tokens o.beneficiaries 0 db
  let receiverTokens ← safeSub receiverTokens total
  let db ← payReceiver o.receiver receiverTokens db
  if 0 < donation then db.addCommitteeFund donation else return db

/-! ## What a fixed award moves -/

/-- The sum of the beneficiaries' parts of `tokens`, each rounded down. -/
def partsOf (tokens : Int) (beneficiaries : List BeneficiaryRoute) : Int :=
  (beneficiaries.map fun b => tokens * b.weight / percent100).sum

/-- The payout of the reward fund for the energy that a fixed award will use. -/
def fixedAwardPayout (db : Db) (o : FixedAwardOperation) : Int :=
  match db.fixedAwardQuote o >>= fun quote => db.calcRshareAward quote.rshares with
  | .ok tokens => tokens
  | .error _ => 0

/-- What was vested and donated is what left the reward fund, and the amount vested is the
amount asked for. -/
def FixedAwardBalanced (o : FixedAwardOperation) (db db' : Db) : Prop :=
  (db'.dgp.totalVestingFund - db.dgp.totalVestingFund) +
      (db'.dgp.committeeFund - db.dgp.committeeFund) =
    db.dgp.totalRewardFund - db'.dgp.totalRewardFund ∧
  db'.dgp.totalVestingFund - db.dgp.totalVestingFund = o.rewardAmount.amount

theorem beneficiaryPart_eq {tokens part : Int} {b : BeneficiaryRoute} (ht : 0 ≤ tokens)
    (h : beneficiaryPart tokens b = .ok part) : part = tokens * b.weight / percent100 := by
  simp only [beneficiaryPart, bind_eq_ok, safeMul_eq_ok, safeDiv_eq_ok] at h
  obtain ⟨_, ⟨-, rfl⟩, -, -, rfl⟩ := h
  have hprod : 0 ≤ tokens * b.weight := mul_nonneg ht (Int.natCast_nonneg _)
  exact Int.tdiv_eq_ediv_of_nonneg hprod

theorem createVesting_funds {db db' : Db} {name : AccountName} {tokens : Int}
    (h : db.createVesting name tokens = .ok db') :
    db'.dgp.totalVestingFund = db.dgp.totalVestingFund + tokens ∧
      db'.dgp.committeeFund = db.dgp.committeeFund ∧
      db'.dgp.totalRewardFund = db.dgp.totalRewardFund := by
  obtain ⟨a, v, -, -, -, hvotes⟩ := createVesting_eq h
  have hdgp := congrArg Db.dgp hvotes.1
  rw [hdgp]
  exact ⟨rfl, rfl, rfl⟩

theorem payBeneficiaries_funds {tokens total total' : Int} (ht : 0 ≤ tokens)
    (l : List BeneficiaryRoute) {db db' : Db}
    (h : payBeneficiaries tokens l total db = .ok (total', db')) :
    total' = total + partsOf tokens l ∧
      db'.dgp.totalVestingFund = db.dgp.totalVestingFund + partsOf tokens l ∧
      db'.dgp.committeeFund = db.dgp.committeeFund ∧
      db'.dgp.totalRewardFund = db.dgp.totalRewardFund := by
  induction l generalizing total db with
  | nil =>
    simp only [payBeneficiaries, Except.ok.injEq, Prod.mk.injEq] at h
    obtain ⟨rfl, rfl⟩ := h
    simp [partsOf]
  | cons b rest ih =>
    simp only [payBeneficiaries, bind_eq_ok, safeAdd_eq_ok] at h
    obtain ⟨_, -, part, hpart, db₁, hvest, a, -, awards, -, _, ⟨-, rfl⟩, h⟩ := h
    obtain ⟨htotal, hfund, hcommittee, hreward⟩ := ih h
    obtain ⟨hfund₁, hcommittee₁, hreward₁⟩ := createVesting_funds hvest
    have hp : part = tokens * b.weight / percent100 := beneficiaryPart_eq ht hpart
    have hsum : partsOf tokens (b :: rest) = part + partsOf tokens rest := by
      rw [hp]
      simp [partsOf]
    simp only [modifyAccount] at hfund hcommittee hreward
    rw [hsum]
    refine ⟨by omega, by omega, by omega, by omega⟩

theorem payReceiver_funds {receiver : AccountName} {tokens : Int} {db db' : Db}
    (h : payReceiver receiver tokens db = .ok db') :
    db'.dgp.totalVestingFund = db.dgp.totalVestingFund + max tokens 0 ∧
      db'.dgp.committeeFund = db.dgp.committeeFund ∧
      db'.dgp.totalRewardFund = db.dgp.totalRewardFund := by
  unfold payReceiver at h
  split at h
  · rename_i hpos
    simp only [bind_eq_ok, pure_eq_ok] at h
    obtain ⟨db₁, hvest, a, -, awards, -, rfl⟩ := h
    obtain ⟨hfund, hcommittee, hreward⟩ := createVesting_funds hvest
    rw [max_eq_left hpos.le]
    exact ⟨hfund, hcommittee, hreward⟩
  · cases h
    rw [max_eq_right (by omega)]
    simp

/-- The payout for the energy of a quote covers the amount asked for. -/
theorem fixedAwardQuote_covers {db : Db} {o : FixedAwardOperation} {quote : FixedAwardQuote}
    {tokens : Int} (h : db.fixedAwardQuote o = .ok quote)
    (hcalc : db.calcRshareAward quote.rshares = .ok tokens) : o.rewardAmount.amount ≤ tokens := by
  simp only [fixedAwardQuote, bind_eq_ok, fcAssert_eq_ok, pure_eq_ok] at h
  obtain ⟨_, -, _, -, _, -, _, -, _, -, _, -, _, -, _, -, _, -, _, -, _, -, _, -, _, -, counted,
    hcounted, _, hle, _, ⟨hmin, -⟩, rfl⟩ := h
  simp only [countedAward, hmin, if_false, hcalc, Except.ok.injEq] at hcounted
  omega

/-- What an accepted fixed award does to the three funds. -/
theorem fixedAward_funds {producing : Bool} {db db' : Db} {o : FixedAwardOperation}
    (h : db.fixedAward producing o = .ok db') :
    db'.dgp.totalVestingFund = db.dgp.totalVestingFund +
        max o.rewardAmount.amount (partsOf (db.fixedAwardPayout o) o.beneficiaries) ∧
      db'.dgp.committeeFund =
        db.dgp.committeeFund + (db.fixedAwardPayout o - o.rewardAmount.amount) ∧
      db'.dgp.totalRewardFund = db.dgp.totalRewardFund - db.fixedAwardPayout o := by
  simp only [fixedAward, bind_eq_ok, fcAssert_eq_ok, safeSub_eq_ok] at h
  obtain ⟨quote, hquote, ⟨tokens, db₁⟩, hclaim, _, -, _, -, _, ⟨-, rfl⟩, _, ⟨-, rfl⟩,
    ⟨total, db₂⟩, hben, _, ⟨-, rfl⟩, db₃, hrec, h⟩ := h
  obtain ⟨hcalc, hdb₁⟩ := claimRshareAward_eq hclaim
  have hpayout : db.fixedAwardPayout o = tokens := by
    simp [fixedAwardPayout, hquote, bind, Except.bind, hcalc]
  have hcover := fixedAwardQuote_covers hquote hcalc
  obtain ⟨htotal, hfund₂, hcommittee₂, hreward₂⟩ :=
    payBeneficiaries_funds (calcRshareAward_nonneg hcalc) _ hben
  obtain ⟨hfund₃, hcommittee₃, hreward₃⟩ := payReceiver_funds hrec
  let start := db₁.spendEnergy o.initiator (quote.currentEnergy - quote.needEnergy)
  have hstart₁ : start.dgp.totalVestingFund = db.dgp.totalVestingFund :=
    congrArg (fun d => d.dgp.totalVestingFund) hdb₁
  have hstart₂ : start.dgp.committeeFund = db.dgp.committeeFund :=
    congrArg (fun d => d.dgp.committeeFund) hdb₁
  have hstart₃ : start.dgp.totalRewardFund = db.dgp.totalRewardFund - tokens :=
    congrArg (fun d => d.dgp.totalRewardFund) hdb₁
  rw [hpayout]
  -- the donation is only paid when it is positive, and it is never negative
  have hdonation : db'.dgp.totalVestingFund = db₃.dgp.totalVestingFund ∧
      db'.dgp.committeeFund = db₃.dgp.committeeFund + (tokens - o.rewardAmount.amount) ∧
      db'.dgp.totalRewardFund = db₃.dgp.totalRewardFund := by
    split at h
    · simp only [addCommitteeFund, bind_eq_ok, safeAdd_eq_ok, pure_eq_ok] at h
      obtain ⟨_, ⟨-, rfl⟩, rfl⟩ := h
      exact ⟨rfl, rfl, rfl⟩
    · rw [pure_eq_ok] at h
      subst h
      exact ⟨rfl, by omega, rfl⟩
  obtain ⟨hfund, hcommittee, hreward⟩ := hdonation
  simp only at htotal hfund₃ hcommittee₃ hreward₃
  refine ⟨?_, ?_, ?_⟩
  · rw [hfund, hfund₃, hfund₂, hstart₁, htotal]
    omega
  · rw [hcommittee, hcommittee₃, hcommittee₂, hstart₂]
  · rw [hreward, hreward₃, hreward₂, hstart₃]

/-- **Fixed awards.**  An accepted fixed award is balanced exactly when the beneficiaries'
parts of the payout do not exceed the amount asked for. -/
theorem fixedAward_balanced_iff (producing : Bool) (db db' : Db) (o : FixedAwardOperation)
    (h : db.fixedAward producing o = .ok db') :
    FixedAwardBalanced o db db' ↔
      partsOf (db.fixedAwardPayout o) o.beneficiaries ≤ o.rewardAmount.amount := by
  obtain ⟨hfund, hcommittee, hreward⟩ := fixedAward_funds h
  unfold FixedAwardBalanced
  rw [hfund, hcommittee, hreward]
  constructor
  · rintro ⟨-, hvested⟩
    omega
  · intro hfit
    rw [max_eq_left hfit]
    constructor <;> omega

/-- Three accounts, one of them with vesting shares, and a reward fund. -/
def awardExample : Db :=
  { dgp :=
      { totalVestingFund := 1000000000, totalVestingShares := 1000000000000
        totalRewardFund := 1000000000, totalRewardShares := 10000000000 }
    accounts :=
      { rows := [{ id := 0, name := "alice", vestingShares := 10000000000 },
          { id := 1, name := "bob" }, { id := 2, name := "carol" }]
        nextId := 3 } }

/-- alice asks for 100000 tokens for bob. -/
def awardExampleOp (beneficiaries : List BeneficiaryRoute) : FixedAwardOperation :=
  { initiator := "alice", receiver := "bob", rewardAmount := ⟨100000000, tokenSymbol⟩
    maxEnergy := 10000, customSequence := 0, memo := "", beneficiaries := beneficiaries }

theorem fixedAward_balanced_example :
    ∃ db', awardExample.fixedAward false (awardExampleOp [⟨"carol", 6000⟩]) = .ok db' ∧
      FixedAwardBalanced (awardExampleOp [⟨"carol", 6000⟩]) awardExample db' := by
  have hrun : (fun db' : Db => db'.dgp.totalVestingFund) <$>
      awardExample.fixedAward false (awardExampleOp [⟨"carol", 6000⟩]) = .ok 1100000000 := by
    decide +kernel
  obtain ⟨db', h, -⟩ := (map_eq_ok _ _ _).1 hrun
  have hfit : partsOf (awardExample.fixedAwardPayout (awardExampleOp [⟨"carol", 6000⟩]))
      [⟨"carol", 6000⟩] ≤ 100000000 := by decide +kernel
  exact ⟨db', h, (fixedAward_balanced_iff false _ db' _ h).2 hfit⟩

/-- With a beneficiary of 100% the reward fund pays 100071.994 tokens for the 100000 asked
for: carol gets all of them, and the surplus is donated a second time. -/
theorem fixedAward_pays_twice :
    ¬ ∀ (producing : Bool) (db db' : Db) (o : FixedAwardOperation),
      db.fixedAward producing o = .ok db' → FixedAwardBalanced o db db' := by
  intro hall
  let op := awardExampleOp [⟨"carol", 10000⟩]
  have hrun : (fun db' : Db => db'.dgp.totalVestingFund) <$>
      awardExample.fixedAward false op = .ok 1100071994 := by decide +kernel
  obtain ⟨db', h, hfund⟩ := (map_eq_ok _ _ _).1 hrun
  have hvested := (hall false awardExample db' op h).2
  rw [hfund] at hvested
  simp [awardExample, op, awardExampleOp] at hvested

/-! ## What awards do to the ledger -/

variable {fc : Fc} {g : Prop}

/-- Rounding down every part leaves the sum below the whole. -/
theorem partsOf_le {tokens : Int} (ht : 0 ≤ tokens) (l : List BeneficiaryRoute)
    (hsum : (l.map (·.weight)).sum ≤ 10000) : partsOf tokens l ≤ tokens := by
  have hparts : partsOf tokens l * percent100 ≤ tokens * (l.map (·.weight)).sum := by
    clear hsum
    induction l with
    | nil => simp [partsOf]
    | cons b rest ih =>
      have hpart : tokens * b.weight / percent100 * percent100 ≤ tokens * b.weight :=
        Int.ediv_mul_le _ (by decide)
      have hcons : partsOf tokens (b :: rest) =
          tokens * b.weight / percent100 + partsOf tokens rest := by
        simp [partsOf]
      rw [hcons, add_mul, List.map_cons, List.sum_cons, Nat.cast_add, mul_add]
      exact add_le_add hpart ih
  have hcap : tokens * (l.map (·.weight)).sum ≤ tokens * percent100 :=
    mul_le_mul_of_nonneg_left (by exact_mod_cast hsum) ht
  have h := hparts.trans hcap
  exact le_of_mul_le_mul_right h (by decide)

theorem partsOf_nonneg {tokens : Int} (ht : 0 ≤ tokens) (l : List BeneficiaryRoute) :
    0 ≤ partsOf tokens l := by
  refine List.sum_nonneg fun x hx => ?_
  obtain ⟨b, -, rfl⟩ := List.mem_map.1 hx
  exact Int.ediv_nonneg (mul_nonneg ht (Int.natCast_nonneg _)) (by decide)

/-- A part is not negative and does not exceed the whole. -/
theorem beneficiaryPart_le {tokens part : Int} {b : BeneficiaryRoute} (ht : 0 ≤ tokens)
    (hweight : b.weight ≤ 10000) (h : beneficiaryPart tokens b = .ok part) :
    0 ≤ part ∧ part ≤ tokens := by
  have hone : partsOf tokens [b] = part := by simp [partsOf, beneficiaryPart_eq ht h]
  rw [← hone]
  exact ⟨partsOf_nonneg ht [b], partsOf_le ht [b] (by simpa using hweight)⟩

theorem payBeneficiaries_flow {tokens total total' : Int} (ht : 0 ≤ tokens)
    (l : List BeneficiaryRoute) (hsum : (l.map (·.weight)).sum ≤ 10000) {db db' : Db}
    (h : payBeneficiaries tokens l total db = .ok (total', db')) (ok : g → tokens ≤ maxVest) :
    Flow fc g (partsOf tokens l) 0 db db' := by
  induction l generalizing total db with
  | nil =>
    simp only [payBeneficiaries, Except.ok.injEq, Prod.mk.injEq] at h
    obtain ⟨-, rfl⟩ := h
    exact .refl _
  | cons b rest ih =>
    simp only [payBeneficiaries, bind_eq_ok, safeAdd_eq_ok] at h
    obtain ⟨_, -, part, hpart, db₁, hvest, a, -, awards, -, _, ⟨-, rfl⟩, h⟩ := h
    simp only [List.map_cons, List.sum_cons] at hsum
    have hp : part = tokens * b.weight / percent100 := beneficiaryPart_eq ht hpart
    obtain ⟨hpos, hle⟩ := beneficiaryPart_le ht (by omega) hpart
    have hflow : Flow fc g part 0 db db₁ :=
      createVesting_flow hvest fun hg _ => ⟨hpos, hle.trans (ok hg)⟩
    have hrest := ih (by omega) h
    have hsame := ledger_modifyAccount_of_same db₁ b.account
      (fun a => { a with benefactorAwards := awards }) fun _ => rfl
    refine ((hflow.then_same hsame).trans hrest).cast ?_ rfl
    rw [hp]
    simp [partsOf]

theorem payReceiver_flow {receiver : AccountName} {tokens : Int} {db db' : Db}
    (h : payReceiver receiver tokens db = .ok db') (ok : g → tokens ≤ maxVest) :
    Flow fc g (max tokens 0) 0 db db' := by
  unfold payReceiver at h
  split at h
  · rename_i hpos
    simp only [bind_eq_ok, pure_eq_ok] at h
    obtain ⟨db₁, hvest, a, -, awards, -, rfl⟩ := h
    have hflow : Flow fc g tokens 0 db db₁ :=
      createVesting_flow hvest fun hg _ => ⟨hpos.le, ok hg⟩
    rw [max_eq_left hpos.le]
    exact hflow.then_same (ledger_modifyAccount_of_same db₁ receiver _ fun _ => rfl)
  · cases h
    rw [max_eq_right (by omega)]
    exact .refl _

theorem spendEnergy_ledger (db : Db) (name : AccountName) (energy : Int) :
    (db.spendEnergy name energy).ledger = db.ledger :=
  ledger_modifyAccount_of_same db name _ fun _ => rfl

/-- A claim never pays more than the fund. -/
theorem calcRshareAward_le {db : Db} {rshares payout : Int} (hfund : 0 ≤ db.dgp.totalRewardFund)
    (h : db.calcRshareAward rshares = .ok payout) : payout ≤ db.dgp.totalRewardFund := by
  simp only [calcRshareAward, bind_eq_ok, fcAssert_eq_ok, pure_eq_ok] at h
  obtain ⟨_, -, _, -, rfl⟩ := h
  have hrf : (toUint256 db.dgp.totalRewardFund : Int) ≤ db.dgp.totalRewardFund := by
    unfold toUint256
    rw [Int.toNat_of_nonneg (Int.emod_nonneg _ (by norm_num))]
    omega
  have hquot : toUint256 db.dgp.totalRewardFund * toUint256 rshares % 2 ^ 256 /
      (db.dgp.totalRewardShares + toUint256 rshares) ≤ toUint256 db.dgp.totalRewardFund := by
    refine Nat.div_le_of_le_mul ?_
    calc toUint256 db.dgp.totalRewardFund * toUint256 rshares % 2 ^ 256
        ≤ toUint256 db.dgp.totalRewardFund * toUint256 rshares := Nat.mod_le _ _
      _ = toUint256 rshares * toUint256 db.dgp.totalRewardFund := Nat.mul_comm _ _
      _ ≤ (db.dgp.totalRewardShares + toUint256 rshares) * toUint256 db.dgp.totalRewardFund :=
          Nat.mul_le_mul_right _ (by omega)
  exact (Int.ofNat_le.2 hquot).trans hrf

/-- In a ready database a payout is covered by the reward fund and may be vested. -/
theorem Ready.payout_le {db : Db} {rshares payout : Int} (hdb : db.Ready)
    (h : db.calcRshareAward rshares = .ok payout) :
    payout ≤ db.dgp.totalRewardFund ∧ payout ≤ maxVest := by
  have hle := calcRshareAward_le hdb.sound.rewardFund h
  exact ⟨hle, hle.trans (hdb.sound.rewardFund_le_holdings.trans hdb.small)⟩

/-- A payout of a fund of that size may be vested. -/
theorem payout_le {db : Db} {rshares payout : Int} (hfund : 0 ≤ db.dgp.totalRewardFund)
    (hsmall : db.dgp.totalRewardFund ≤ maxVest) (h : db.calcRshareAward rshares = .ok payout) :
    0 ≤ payout ∧ payout ≤ maxVest :=
  ⟨calcRshareAward_nonneg h, (calcRshareAward_le hfund h).trans hsmall⟩

theorem award_weights {o : AwardOperation} (hv : o.validate fc = .ok ()) :
    (o.beneficiaries.map (·.weight)).sum ≤ 10000 := by
  simp only [AwardOperation.validate, validateAwardTail, bind_eq_ok] at hv
  obtain ⟨_, -, _, -, _, -, _, -, _, -, hben⟩ := hv
  exact validateBeneficiaries_sum hben

theorem award_flow {producing : Bool} {db db' : Db} {o : AwardOperation}
    (hv : o.validate fc = .ok ()) (h : db.award producing o = .ok db') :
    Flow fc db.Ready 0 0 db db' := by
  have hsum := award_weights hv
  simp only [award, bind_eq_ok] at h
  obtain ⟨initiator, -, _, -, _, -, _, -, effective, -, rshares, -, ⟨tokens, db₁⟩, hclaim, h⟩ := h
  unfold claimCountedAward at hclaim
  split at hclaim
  · cases hclaim
    rw [if_neg (lt_irrefl 0), pure_eq_ok] at h
    rw [← h]
    exact .of_ledger_eq (spendEnergy_ledger _ _ _)
  · obtain ⟨hcalc, -⟩ := claimRshareAward_eq hclaim
    have htokens := calcRshareAward_nonneg hcalc
    have hspend := spendEnergy_ledger db₁ o.initiator
      (initiator.currentEnergy db.headBlockTime - o.energy)
    have htake : Flow fc db.Ready (-tokens) 0 db _ :=
      (claimRshareAward_flow hclaim fun hfund => calcRshareAward_le hfund hcalc).then_same hspend
    split at h
    · simp only [bind_eq_ok, safeSub_eq_ok] at h
      obtain ⟨_, -, ⟨total, db₂⟩, hben, _, ⟨-, rfl⟩, hrec⟩ := h
      have htotal := (payBeneficiaries_funds htokens _ hben).1
      have hfit := partsOf_le htokens o.beneficiaries hsum
      have hparts : Flow fc db.Ready (partsOf tokens o.beneficiaries) 0 _ db₂ :=
        payBeneficiaries_flow htokens _ hsum hben fun hg => (hg.payout_le hcalc).2
      have hrest : Flow fc db.Ready (max (tokens - total) 0) 0 db₂ db' := by
        refine payReceiver_flow hrec fun hg => ?_
        have hmax := (hg.payout_le hcalc).2
        have hnonneg : 0 ≤ partsOf tokens o.beneficiaries := partsOf_nonneg htokens _
        omega
      exact ((htake.trans hparts).trans hrest).cast (by omega) rfl
    · rename_i hzero
      rw [pure_eq_ok] at h
      rw [← h]
      exact htake.cast (by omega) rfl

theorem fixedAward_weights {o : FixedAwardOperation} (hv : o.validate fc = .ok ()) :
    (o.beneficiaries.map (·.weight)).sum ≤ 10000 := by
  simp only [FixedAwardOperation.validate, validateAwardTail, bind_eq_ok] at hv
  obtain ⟨_, -, _, -, _, -, _, -, _, -, _, -, _, -, hben⟩ := hv
  exact validateBeneficiaries_sum hben

/-- A fixed award brings in as many tokens as the parts of its beneficiaries exceed the
amount asked for. -/
theorem fixedAward_flow {producing : Bool} {db db' : Db} {o : FixedAwardOperation}
    (hv : o.validate fc = .ok ()) (h : db.fixedAward producing o = .ok db') :
    Flow fc db.Ready
      (max (partsOf (db.fixedAwardPayout o) o.beneficiaries - o.rewardAmount.amount) 0) 0 db db' := by
  have hsum := fixedAward_weights hv
  simp only [fixedAward, bind_eq_ok, fcAssert_eq_ok, safeSub_eq_ok] at h
  obtain ⟨quote, hquote, ⟨tokens, db₁⟩, hclaim, _, -, _, -, _, ⟨-, rfl⟩, _, ⟨-, rfl⟩,
    ⟨total, db₂⟩, hben, _, ⟨-, rfl⟩, db₃, hrec, h⟩ := h
  obtain ⟨hcalc, -⟩ := claimRshareAward_eq hclaim
  have htokens := calcRshareAward_nonneg hcalc
  have hcover := fixedAwardQuote_covers hquote hcalc
  have hpayout : db.fixedAwardPayout o = tokens := by
    simp [fixedAwardPayout, hquote, bind, Except.bind, hcalc]
  rw [hpayout]
  have htake : Flow fc db.Ready (-tokens) 0 db _ :=
    (claimRshareAward_flow hclaim fun hfund => calcRshareAward_le hfund hcalc).then_same
      (spendEnergy_ledger db₁ o.initiator (quote.currentEnergy - quote.needEnergy))
  have htotal := (payBeneficiaries_funds htokens _ hben).1
  have hparts : Flow fc db.Ready (partsOf tokens o.beneficiaries) 0 _ db₂ :=
    payBeneficiaries_flow htokens _ hsum hben fun hg => (hg.payout_le hcalc).2
  have hrest : Flow fc db.Ready (max (tokens - (tokens - o.rewardAmount.amount) - total) 0) 0
      db₂ db₃ := by
    refine payReceiver_flow hrec fun hg => ?_
    have hmax := (hg.payout_le hcalc).2
    have hnonneg : 0 ≤ partsOf tokens o.beneficiaries := partsOf_nonneg htokens _
    omega
  have hdonate : Flow fc db.Ready (tokens - o.rewardAmount.amount) 0 db₃ db' := by
    split at h
    · rename_i hpos
      exact addCommitteeFund_flow h fun _ => hpos.le
    · rw [pure_eq_ok] at h
      rw [← h]
      exact (Flow.refl db₃).cast (by omega) rfl
  exact (((htake.trans hparts).trans hrest).trans hdonate).cast (by omega) rfl

end Db

end VizCore.Chain
