import VizCore.Chain.Objects

/-!
# Vesting, witness votes, energy and the reward fund

The helpers of `database.cpp` that the evaluators and the per-block steps share.

* `adjustProxiedWitnessVotes_votesOnly`: moving votes changes vote tallies and
  witnesses, nothing else;
* `createVesting_eq`: what creating vesting shares does to the database;
* `claimRshareAward_eq`: what a claim takes from the reward fund.
-/

namespace VizCore.Chain

open VizCore.Lib VizCore.Protocol

/-- `CHAIN_100_PERCENT` -/
def percent100 : Nat := 10000

/-- `CHAIN_ENERGY_REGENERATION_SECONDS` -/
def energyRegenerationSeconds : Nat := 5 * 60 * 60 * 24

/-- `CHAIN_MAX_PROXY_RECURSION_DEPTH` -/
def maxProxyRecursionDepth : Nat := 4

/-- Unchecked 64-bit arithmetic keeps the value modulo `2 ^ 64`. -/
def wrapInt64 (x : Int) : Int := Int.bmod x (2 ^ 64)

def wrapInt16 (x : Int) : Int := Int.bmod x (2 ^ 16)

/-- `u256(int64_t)` -/
def toUint256 (x : Int) : Nat := (x % 2 ^ 256).toNat

/-! ## Accounts -/

namespace AccountObject

variable (a : AccountObject)

/-- vesting shares used in voting and bandwidth calculation -/
def effectiveVestingShares : Result Int := do
  let own ← safeSub a.vestingShares a.delegatedVestingShares
  safeAdd own a.receivedVestingShares

/-- vesting shares that can be delegated or withdrawn -/
def availableVestingShares (considerWithdrawal : Bool) : Result Int := do
  let have_ ← safeSub a.vestingShares a.delegatedVestingShares
  if considerWithdrawal then
    let pending ← safeSub a.toWithdraw a.withdrawn
    safeSub have_ pending
  else return have_

/-- `std::accumulate` over the proxied votes. -/
def accumulate (init : Int) (votes : List Int) : Result Int := votes.foldlM safeAdd init

def witnessVoteWeight : Result Int := accumulate a.vestingShares a.proxiedVsfVotes

def witnessVoteFairWeight : Result Int := do
  let weight ← a.witnessVoteWeight
  if 0 < a.witnessesVotedFor then
    toSigned64 (toUint128 weight / a.witnessesVotedFor)
  else return 0

/-- The energy at `now`: regenerated since the last vote, at most 100%. -/
def currentEnergy (now : TimePointSec) : Int :=
  let elapsed : Int := (now : Int) - a.lastVoteTime
  let regenerated := (wrapInt64 (percent100 * elapsed)).tdiv energyRegenerationSeconds
  min (a.energy + regenerated) percent100

end AccountObject

namespace Db

/-- `adjust_balance` with a token amount. -/
def adjustBalance (db : Db) (name : AccountName) (delta : Int) : Result Db := do
  let a ← db.getAccount name
  let balance ← safeAdd a.balance delta
  return db.modifyAccount name fun a => { a with balance := balance }

/-- `burn_asset` with a token amount; a negative amount burns. -/
def burnAsset (db : Db) (delta : Int) : Result Db := do
  let supply ← safeAdd db.dgp.currentSupply delta
  return db.modifyDgp fun p => { p with currentSupply := supply }

def addCommitteeFund (db : Db) (delta : Int) : Result Db := do
  let fund ← safeAdd db.dgp.committeeFund delta
  return db.modifyDgp fun p => { p with committeeFund := fund }

/-- A fee that an account pays to the committee fund. -/
def payFee (db : Db) (name : AccountName) (fee : Int) (msg : String) : Result Db := do
  let a ← db.getAccount name
  fcAssert (fee ≤ a.balance) msg
  let db ← db.adjustBalance name (-fee)
  db.addCommitteeFund fee

def sharesSenderRecalcEnergy (db : Db) (name : AccountName) (shares : Int) : Result Db := do
  let a ← db.getAccount name
  let effective ← a.effectiveVestingShares
  if 0 < effective then
    let cost := (wrapInt64 (percent100 * shares)).tdiv effective
    let energy := max (a.currentEnergy db.headBlockTime - cost) (-percent100)
    return db.modifyAccount name fun a =>
      { a with energy := wrapInt16 energy, lastVoteTime := db.headBlockTime }
  else return db

/-! ## Witness votes -/

/-- The new state of a witness whose votes change by `delta`. -/
def adjustedWitness (db : Db) (w : WitnessObject) (delta : Int) : Result WitnessObject := do
  let now := db.witnessSchedule.currentVirtualTime
  let deltaPos := toUint128 w.countedVotes * ((now + 2 ^ 128 - w.virtualLastUpdate) % 2 ^ 128)
  let position := (w.virtualPosition + deltaPos) % 2 ^ 128
  let sum ← safeAdd w.votes delta
  let votes := max sum 0
  let penalty := toUint128 votes * min w.penaltyPercent percent100 % 2 ^ 128 / percent100
  let countedVotes ← toSigned64 ((toUint128 votes + 2 ^ 128 - penalty) % 2 ^ 128)
  fcAssert (votes ≤ db.dgp.totalVestingShares) "w.votes <= total_vesting_shares"
  let lap := (2 ^ 128 - 1 - position) / toUint128 (wrapInt64 (countedVotes + 1))
  let scheduled := (now + lap) % 2 ^ 128
  return { w with
    virtualPosition := position
    virtualLastUpdate := now
    votes := votes
    countedVotes := countedVotes
    -- a low number of votes could overflow the time field
    virtualScheduledTime := if scheduled < now then 2 ^ 128 - 1 else scheduled }

def adjustWitnessVote (db : Db) (witness : Nat) (delta : Int) : Result Db := do
  let w ← getOrThrow (db.witnesses.get (·.id) witness) (.unknownKey "witness by_id")
  let w' ← db.adjustedWitness w delta
  return { db with witnesses := db.witnesses.update (·.id) witness fun _ => w' }

/-- The votes of an account in the order of `by_account_witness`. -/
def votesOf (db : Db) (account : Nat) : List WitnessVoteObject :=
  orderBy (fun v w => v.witness < w.witness) (db.witnessVotes.rows.filter (·.account = account))

def adjustWitnessVotes (db : Db) (name : AccountName) (delta : Int) : Result Db := do
  let a ← db.getAccount name
  if 0 < a.witnessesVotedFor then
    let fairDelta ← safeDiv delta a.witnessesVotedFor
    let weight ← safeAdd a.witnessesVoteWeight fairDelta
    let db := db.modifyAccount name fun a => { a with witnessesVoteWeight := weight }
    (db.votesOf a.id).foldlM (fun db v => db.adjustWitnessVote v.witness fairDelta) db
  else return db

/-- Add `delta` to the proxied votes of level `depth`. -/
def addProxiedVotes (votes : List Int) (depth : Nat) (delta : Int) : Result (List Int) := do
  let v ← safeAdd (votes.getD depth 0) delta
  return votes.set depth v

/-- `adjust_proxied_witness_votes(a, delta, depth)`; `levels` counts down from the maximal
recursion depth. -/
def adjustProxiedWitnessVotes (delta : Int) : Nat → Db → AccountName → Result Db
  | 0, db, name => do
    let a ← db.getAccount name
    if a.proxy = "" then db.adjustWitnessVotes name delta else return db
  | levels + 1, db, name => do
    let a ← db.getAccount name
    if a.proxy = "" then db.adjustWitnessVotes name delta
    else
      let proxy ← db.getAccount a.proxy
      let votes ← addProxiedVotes proxy.proxiedVsfVotes (maxProxyRecursionDepth - 1 - levels) delta
      let db := db.modifyAccount a.proxy fun p => { p with proxiedVsfVotes := votes }
      adjustProxiedWitnessVotes delta levels db a.proxy

/-- The overload with one delta for each level, used when a proxy is set or cleared. -/
def adjustProxiedWitnessVotesArray (delta : List Int) : Nat → Db → AccountName → Result Db
  | 0, db, name => do
    let a ← db.getAccount name
    if a.proxy = "" then db.adjustWitnessVotes name (delta.getD 0 0) else return db
  | levels + 1, db, name => do
    let a ← db.getAccount name
    let depth := maxProxyRecursionDepth - 1 - levels
    if a.proxy = "" then
      let total ← (delta.take (levels + 2)).reverse.foldlM safeAdd 0
      db.adjustWitnessVotes name total
    else
      let proxy ← db.getAccount a.proxy
      let votes ← (List.range (levels + 1)).reverse.foldlM
        (fun votes i => addProxiedVotes votes (i + depth) (delta.getD i 0)) proxy.proxiedVsfVotes
      let db := db.modifyAccount a.proxy fun p => { p with proxiedVsfVotes := votes }
      adjustProxiedWitnessVotesArray delta levels db a.proxy

def clearWitnessVotes (db : Db) (name : AccountName) : Result Db := do
  let a ← db.getAccount name
  let db := { db with witnessVotes := db.witnessVotes.filter (·.account ≠ a.id) }
  return db.modifyAccount name fun a => { a with witnessesVotedFor := 0, witnessesVoteWeight := 0 }

/-! ## Vesting -/

/-- `tokens * get_vesting_share_price()` -/
def tokensToShares (db : Db) (tokens : Int) : Result Int :=
  if db.dgp.totalVestingFund = 0 ∨ db.dgp.totalVestingShares = 0 then mulDiv tokens 1000000 1000
  else mulDiv tokens db.dgp.totalVestingShares db.dgp.totalVestingFund

/-- `shares * get_vesting_share_price()` -/
def sharesToTokens (db : Db) (shares : Int) : Result Int :=
  if db.dgp.totalVestingFund = 0 ∨ db.dgp.totalVestingShares = 0 then mulDiv shares 1000 1000000
  else mulDiv shares db.dgp.totalVestingFund db.dgp.totalVestingShares

def createVesting (db : Db) (name : AccountName) (tokens : Int) : Result Db := do
  let newVesting ← db.tokensToShares tokens
  let a ← db.getAccount name
  let shares ← safeAdd a.vestingShares newVesting
  let db := db.modifyAccount name fun a => { a with vestingShares := shares }
  let fund ← safeAdd db.dgp.totalVestingFund tokens
  let total ← safeAdd db.dgp.totalVestingShares newVesting
  let db := db.modifyDgp fun p => { p with totalVestingFund := fund, totalVestingShares := total }
  adjustProxiedWitnessVotes newVesting maxProxyRecursionDepth db name

/-! ## The reward fund -/

/-- The payout that `calc_rshare_award` and `claim_rshare_award` compute. -/
def calcRshareAward (db : Db) (rshares : Int) : Result Int := do
  fcAssert (0 < rshares) "rshares > 0"
  let rs := toUint256 rshares
  let rf := toUint256 db.dgp.totalRewardFund
  let payout : Nat := rf * rs % 2 ^ 256 / (db.dgp.totalRewardShares + rs)
  fcAssert (payout ≤ 2 ^ 63 - 1) "payout_u256 <= int64_t max"
  return (payout : Int)

def claimRshareAward (db : Db) (rshares : Int) : Result (Int × Db) := do
  let payout ← db.calcRshareAward rshares
  let fund ← safeSub db.dgp.totalRewardFund payout
  let db := db.modifyDgp fun p =>
    { p with
      totalRewardFund := fund
      totalRewardShares := (p.totalRewardShares + toUint128 rshares) % 2 ^ 128 }
  let expires := (db.headBlockTime + energyRegenerationSeconds) % 2 ^ 32
  let db := { db with
    awardSharesExpires := db.awardSharesExpires.create fun id => ⟨id, expires, rshares⟩ }
  return (payout, db)

/-! ## Authorities -/

/-- An authority of one key. -/
def singleKey (key : PublicKey) : Authority := { weightThreshold := 1, keyAuths := [(key, 1)] }

/-- A new account controlled by one key, with its authority and an empty metadata record. -/
def registerAccount (db : Db) (mk : Nat → AccountObject) (name : AccountName) (key : PublicKey) :
    Result Db := do
  let db ← db.createAccount mk
  let db := db.createAuthority fun id =>
    { id := id, account := name, master := singleKey key, active := singleKey key
      regular := singleKey key, lastMasterUpdate := 0 }
  return { db with accountMetadata := db.accountMetadata.create fun id => ⟨id, name, ""⟩ }

def updateMasterAuthority (db : Db) (name : AccountName) (master : Authority) : Result Db := do
  let auth ← db.getAuthority name
  let db := if 1 ≤ db.headBlockNum then
    { db with
      masterAuthorityHistory := db.masterAuthorityHistory.create fun id =>
        ⟨id, name, auth.master, db.headBlockTime⟩ } else db
  return { db with
    accountAuthorities := db.accountAuthorities.update (·.account) name fun a =>
      { a with master := master, lastMasterUpdate := db.headBlockTime } }

/-- `store_account_json_metadata` -/
def storeAccountJsonMetadata (db : Db) (name : AccountName) (json : String)
    (skipEmpty : Bool := false) : Db :=
  if skipEmpty && json.isEmpty then db
  else
    match db.accountMetadata.get (·.account) name with
    | some _ =>
      { db with
        accountMetadata := db.accountMetadata.update (·.account) name fun m =>
          { m with jsonMetadata := json } }
    | none =>
      { db with accountMetadata := db.accountMetadata.create fun id => ⟨id, name, json⟩ }

end Db

/-! ## What moving votes changes -/

/-- An account without its vote tallies. -/
def AccountObject.withoutVotes (a : AccountObject) : AccountObject :=
  { a with witnessesVoteWeight := 0, proxiedVsfVotes := [] }

/-- A witness without its votes and its place in the virtual schedule. -/
def WitnessObject.withoutVotes (w : WitnessObject) : WitnessObject :=
  { w with
    votes := 0
    countedVotes := 0
    virtualLastUpdate := 0
    virtualPosition := 0
    virtualScheduledTime := 0 }

/-- The two databases differ in vote tallies of accounts and witnesses only. -/
def VotesOnly (db db' : Db) : Prop :=
  db' = { db with accounts := db'.accounts, witnesses := db'.witnesses } ∧
    db'.accounts.image AccountObject.withoutVotes = db.accounts.image AccountObject.withoutVotes ∧
    db'.witnesses.image WitnessObject.withoutVotes = db.witnesses.image WitnessObject.withoutVotes

theorem VotesOnly.refl (db : Db) : VotesOnly db db := ⟨rfl, rfl, rfl⟩

theorem VotesOnly.trans {a b c : Db} (hab : VotesOnly a b) (hbc : VotesOnly b c) :
    VotesOnly a c := by
  obtain ⟨hb, hbaccounts, hbwitnesses⟩ := hab
  obtain ⟨hc, hcaccounts, hcwitnesses⟩ := hbc
  refine ⟨?_, hcaccounts.trans hbaccounts, hcwitnesses.trans hbwitnesses⟩
  rw [hc, hb]

theorem votesOnly_modifyAccount (db : Db) (name : AccountName)
    (f : AccountObject → AccountObject) (hf : ∀ a, (f a).withoutVotes = a.withoutVotes) :
    VotesOnly db (db.modifyAccount name f) :=
  ⟨rfl, Table.image_update_of_same _ _ _ _ _ hf, rfl⟩

namespace Db

theorem adjustWitnessVote_votesOnly {db db' : Db} {witness : Nat} {delta : Int}
    (h : db.adjustWitnessVote witness delta = .ok db') : VotesOnly db db' := by
  simp only [adjustWitnessVote, bind_eq_ok, pure_eq_ok, getOrThrow_eq_ok] at h
  obtain ⟨w, hw, w', hw', rfl⟩ := h
  let moved := fun x : WitnessObject => { x with
    votes := w'.votes
    countedVotes := w'.countedVotes
    virtualLastUpdate := w'.virtualLastUpdate
    virtualPosition := w'.virtualPosition
    virtualScheduledTime := w'.virtualScheduledTime }
  have hmoved : w' = moved w := by
    simp only [adjustedWitness, bind_eq_ok, pure_eq_ok] at hw'
    obtain ⟨_, -, _, -, _, -, rfl⟩ := hw'
    rfl
  refine ⟨rfl, rfl, ?_⟩
  have hsame : db.witnesses.update (·.id) witness (fun _ => w') =
      db.witnesses.update (·.id) witness moved := by
    refine Table.update_congr _ _ _ _ _ fun x hx => ?_
    rw [hw, Option.some.injEq] at hx
    rw [← hx]
    exact hmoved
  rw [hsame]
  exact Table.image_update_of_same _ _ _ _ _ fun _ => rfl

theorem adjustWitnessVotes_votesOnly {db db' : Db} {name : AccountName} {delta : Int}
    (h : db.adjustWitnessVotes name delta = .ok db') : VotesOnly db db' := by
  simp only [adjustWitnessVotes, bind_eq_ok] at h
  obtain ⟨a, -, h⟩ := h
  split at h
  · simp only [bind_eq_ok] at h
    obtain ⟨fair, -, weight, -, h⟩ := h
    have hstart := votesOnly_modifyAccount db name
      (fun a => { a with witnessesVoteWeight := weight }) fun _ => rfl
    exact foldlM_invariant (VotesOnly db) _ _
      (fun v _ s s' hs hv => hs.trans (adjustWitnessVote_votesOnly hv)) _ _ hstart h
  · rw [pure_eq_ok] at h
    exact h ▸ VotesOnly.refl db

theorem adjustProxiedWitnessVotes_votesOnly {delta : Int} {levels : Nat} {db db' : Db}
    {name : AccountName} (h : adjustProxiedWitnessVotes delta levels db name = .ok db') :
    VotesOnly db db' := by
  induction levels generalizing db name with
  | zero =>
    simp only [adjustProxiedWitnessVotes, bind_eq_ok] at h
    obtain ⟨a, -, h⟩ := h
    split at h
    · exact adjustWitnessVotes_votesOnly h
    · rw [pure_eq_ok] at h
      exact h ▸ VotesOnly.refl db
  | succ levels ih =>
    simp only [adjustProxiedWitnessVotes, bind_eq_ok] at h
    obtain ⟨a, -, h⟩ := h
    split at h
    · exact adjustWitnessVotes_votesOnly h
    · simp only [bind_eq_ok] at h
      obtain ⟨proxy, -, votes, -, h⟩ := h
      refine VotesOnly.trans ?_ (ih h)
      exact votesOnly_modifyAccount db a.proxy _ fun _ => rfl

theorem adjustProxiedWitnessVotesArray_votesOnly {delta : List Int} {levels : Nat} {db db' : Db}
    {name : AccountName} (h : adjustProxiedWitnessVotesArray delta levels db name = .ok db') :
    VotesOnly db db' := by
  induction levels generalizing db name with
  | zero =>
    simp only [adjustProxiedWitnessVotesArray, bind_eq_ok] at h
    obtain ⟨a, -, h⟩ := h
    split at h
    · exact adjustWitnessVotes_votesOnly h
    · rw [pure_eq_ok] at h
      exact h ▸ VotesOnly.refl db
  | succ levels ih =>
    simp only [adjustProxiedWitnessVotesArray, bind_eq_ok] at h
    obtain ⟨a, -, h⟩ := h
    split at h
    · rw [bind_eq_ok] at h
      obtain ⟨total, -, h⟩ := h
      exact adjustWitnessVotes_votesOnly h
    · simp only [bind_eq_ok] at h
      obtain ⟨proxy, -, votes, -, h⟩ := h
      refine VotesOnly.trans ?_ (ih h)
      exact votesOnly_modifyAccount db a.proxy _ fun _ => rfl

/-! ## What vesting and claims change -/

theorem effectiveVestingShares_eq {a : AccountObject} {effective : Int}
    (h : a.effectiveVestingShares = .ok effective) :
    InInt64 effective ∧
      effective = a.vestingShares - a.delegatedVestingShares + a.receivedVestingShares := by
  simp only [AccountObject.effectiveVestingShares, bind_eq_ok, safeSub_eq_ok, safeAdd_eq_ok] at h
  obtain ⟨_, ⟨-, rfl⟩, hrange, rfl⟩ := h
  exact ⟨hrange, rfl⟩

/-- **Creating vesting.**  The account and the totals gain the new shares, the vesting fund
gains the tokens, and votes move along. -/
theorem createVesting_eq {db db' : Db} {name : AccountName} {tokens : Int}
    (h : db.createVesting name tokens = .ok db') :
    ∃ a v, db.findAccount name = some a ∧ db.tokensToShares tokens = .ok v ∧
      InInt64 (a.vestingShares + v) ∧ VotesOnly
        ((db.modifyAccount name fun x => { x with vestingShares := a.vestingShares + v }).modifyDgp
          fun p => { p with
            totalVestingFund := db.dgp.totalVestingFund + tokens
            totalVestingShares := db.dgp.totalVestingShares + v }) db' := by
  simp only [createVesting, getAccount, bind_eq_ok, getOrThrow_eq_ok, safeAdd_eq_ok] at h
  obtain ⟨v, hv, a, ha, _, ⟨hfits, rfl⟩, _, ⟨-, rfl⟩, _, ⟨-, rfl⟩, h⟩ := h
  exact ⟨a, v, ha, hv, hfits, adjustProxiedWitnessVotes_votesOnly h⟩

theorem calcRshareAward_nonneg {db : Db} {rshares payout : Int}
    (h : db.calcRshareAward rshares = .ok payout) : 0 ≤ payout := by
  simp only [calcRshareAward, bind_eq_ok, fcAssert_eq_ok, pure_eq_ok] at h
  obtain ⟨_, -, _, -, rfl⟩ := h
  exact Int.natCast_nonneg _

theorem claimRshareAward_eq {db db' : Db} {rshares payout : Int}
    (h : db.claimRshareAward rshares = .ok (payout, db')) :
    db.calcRshareAward rshares = .ok payout ∧
      db' = { db with
        dgp := { db.dgp with
          totalRewardFund := db.dgp.totalRewardFund - payout
          totalRewardShares := (db.dgp.totalRewardShares + toUint128 rshares) % 2 ^ 128 }
        awardSharesExpires := db'.awardSharesExpires } := by
  simp only [claimRshareAward, bind_eq_ok, pure_eq_ok, safeSub_eq_ok, Prod.mk.injEq] at h
  obtain ⟨p, hp, _, ⟨-, rfl⟩, rfl, rfl⟩ := h
  exact ⟨hp, rfl⟩

end Db

end VizCore.Chain
