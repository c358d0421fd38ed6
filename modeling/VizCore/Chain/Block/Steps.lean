import VizCore.Chain.Block.Payouts
import VizCore.Chain.Block.Schedule
import VizCore.Chain.Block.Upkeep
import VizCore.Chain.Block.Withdrawals

/-!
# The steps of a block

`_validate_block`, and the steps of `_apply_block` around the transactions as one
function over the names of the steps.

* `BlockStep.run_flow`: no step makes tokens or shares, as long as the shares of the
  system accounts that are cleared are part of the total.
-/

namespace VizCore.Chain

open VizCore.Lib VizCore.Protocol

/-! ## The block itself -/

/-- One round of pairing: adjacent digests are hashed, an odd last one is carried up. -/
def pairDigests (hashPair : Nat → Nat → Nat) : List Nat → List Nat
  | [] => []
  | [x] => [x]
  | x :: y :: rest => hashPair x y :: pairDigests hashPair rest

theorem length_pairDigests_le (hashPair : Nat → Nat → Nat) (l : List Nat) :
    (pairDigests hashPair l).length ≤ l.length := by
  induction l using pairDigests.induct with
  | case1 => exact le_rfl
  | case2 x => exact le_rfl
  | case3 x y rest ih =>
    simp only [pairDigests, List.length_cons]
    omega

def merkleFold (hashPair : Nat → Nat → Nat) : List Nat → Nat
  | [] => 0
  | [x] => x
  | x :: y :: rest => merkleFold hashPair (hashPair x y :: pairDigests hashPair rest)
termination_by l => l.length
decreasing_by
  have := length_pairDigests_le hashPair rest
  simp only [List.length_cons]
  omega

/-- `calculate_merkle_root` -/
def calculateMerkleRoot (env : Env) (b : SignedBlock) : Nat :=
  if b.transactions = [] then 0
  else env.checksum (merkleFold env.hashPair (b.transactions.map env.merkleDigest))

namespace Db

/-- `_validate_block` -/
def validateBlock (env : Env) (skip : Skip) (db : Db) (b : SignedBlock) : Result Unit := do
  unlessSkipped skip.merkleCheck do
    let root := calculateMerkleRoot env b
    fcAssert (b.transactionMerkleRoot = root ∨ (b.blockNum, root) ∈ sharedDbMerkle)
      "Merkle check failed"
  unlessSkipped skip.blockSizeCheck do
    fcAssert (env.blockSize b ≤ db.dgp.maximumBlockSize) "Block Size is too Big"

/-- What `_apply_block` does before the transactions. -/
def openBlock (env : Env) (skip : Skip) (b : SignedBlock) (db : Db) : Result Db := do
  db.validateBlock env skip b
  db.validateBlockHeader env skip b
  let db := db.modifyDgp fun p => { p with currentWitness := b.witness }
  db.processHeaderExtensions b

theorem openBlock_ledger {env : Env} {skip : Skip} {b : SignedBlock} {db db' : Db}
    (h : openBlock env skip b db = .ok db') : db'.ledger = db.ledger := by
  simp only [openBlock, bind_eq_ok] at h
  obtain ⟨_, -, _, -, h⟩ := h
  have hledger := processHeaderExtensions_ledger h
  exact hledger

end Db

namespace BlockStep

/-- What a step does to the database. -/
def run (env : Env) (skip : Skip) (b : SignedBlock) (db : Db) : BlockStep → Result Db
  | .openBlock => db.openBlock env skip b
  | .updateGlobalDynamicData => db.updateGlobalDynamicData env skip b
  | .updateSigningWitness => .ok (db.updateSigningWitness b)
  | .createBlockSummary => db.createBlockSummary env b
  | .clearExpiredTransactions => .ok db.clearExpiredTransactions
  | .clearExpiredDelegations => db.clearExpiredDelegations
  | .clearUsedInvites => .ok db.clearUsedInvites
  | .clearClosedCommitteeRequests => .ok db.clearClosedCommitteeRequests
  | .updateBandwidthReserveCandidates => db.updateBandwidthReserveCandidates
  | .updateWitnessSchedule => db.updateWitnessSchedule
  | .processInflationRecalc => .ok db.processInflationRecalc
  | .expireAwardSharesProcessing => .ok db.expireAwardSharesProcessing
  | .processFunds => db.processFunds
  | .processVestingWithdrawals => db.processVestingWithdrawals
  | .accountRecoveryProcessing => db.accountRecoveryProcessing
  | .expireEscrowRatification => db.expireEscrowRatification
  | .accountOnAuctionExpiration => db.accountOnAuctionExpiration
  | .clearNullAccountBalance => db.clearNullAccountBalance
  | .clearAnonymousAccountBalance => db.clearAnonymousAccountBalance
  | .claimCommitteeAccountBalance => db.claimCommitteeAccountBalance
  | .committeeProcessing => db.committeeProcessing
  | .paidSubscribeProcessing => db.paidSubscribeProcessing
  | .processHardforks => db.processHardforks

/-- What a step relies on: an account that is cleared holds shares of the total. -/
def Fits (db : Db) : BlockStep → Prop
  | .clearNullAccountBalance => db.Clearable "null"
  | .clearAnonymousAccountBalance => db.Clearable "anonymous"
  | .claimCommitteeAccountBalance => db.Clearable "committee"
  | _ => True

/-- What the ledger has to know of a step: its weight in tokens is zero where the step fits,
its weight in shares is zero in a state that is ready. -/
def Balanced (fc : Fc) (s : BlockStep) (db db' : Db) : Prop :=
  ∃ t v, Flow fc db.Ready t v db db' ∧ (s.Fits db → t = 0) ∧ (db.Ready → v = 0)

variable {fc : Fc} {s : BlockStep} {db db' : Db}

theorem Balanced.of_flow {g : Prop} (hg : db.Ready → g) (h : Flow fc g 0 0 db db') :
    s.Balanced fc db db' :=
  ⟨0, 0, h.mono hg, fun _ => rfl, fun _ => rfl⟩

theorem Balanced.of_ledger_eq (h : db'.ledger = db.ledger) : s.Balanced fc db db' :=
  .of_flow id (.of_ledger_eq h)

/-- **The flow of every step.** -/
theorem run_flow {env : Env} {skip : Skip} {b : SignedBlock} (hs : db.ledger.Settled fc)
    (h : s.run env skip b db = .ok db') : s.Balanced fc db db' := by
  cases s with
  | openBlock => exact .of_ledger_eq (Db.openBlock_ledger h)
  | updateGlobalDynamicData => exact .of_ledger_eq (Db.updateGlobalDynamicData_ledger h)
  | updateSigningWitness =>
    cases h
    exact .of_ledger_eq (Db.updateSigningWitness_ledger db)
  | createBlockSummary => exact .of_ledger_eq (Db.createBlockSummary_ledger h)
  | clearExpiredTransactions =>
    cases h
    exact .of_ledger_eq (Db.clearExpiredTransactions_ledger db)
  | clearExpiredDelegations => exact .of_ledger_eq (Db.clearExpiredDelegations_ledger h)
  | clearUsedInvites =>
    cases h
    exact .of_flow id (Db.clearUsedInvites_flow hs)
  | clearClosedCommitteeRequests =>
    cases h
    exact .of_flow id (Db.clearClosedCommitteeRequests_flow db)
  | updateBandwidthReserveCandidates =>
    exact .of_ledger_eq (Db.updateBandwidthReserveCandidates_ledger h)
  | updateWitnessSchedule => exact .of_flow id (Db.updateWitnessSchedule_flow h)
  | processInflationRecalc =>
    cases h
    exact .of_flow id (Db.processInflationRecalc_flow db)
  | expireAwardSharesProcessing =>
    cases h
    exact .of_ledger_eq (Db.expireAwardSharesProcessing_ledger db)
  | processFunds => exact .of_flow id (Db.processFunds_flow h)
  | processVestingWithdrawals =>
    obtain ⟨v, hflow, hv⟩ := Db.processVestingWithdrawals_flow h
    exact ⟨0, v, hflow, fun _ => rfl, hv⟩
  | accountRecoveryProcessing => exact .of_ledger_eq (Db.accountRecoveryProcessing_ledger h)
  | expireEscrowRatification => exact .of_flow id (Db.expireEscrowRatification_flow h)
  | accountOnAuctionExpiration => exact .of_flow id (Db.accountOnAuctionExpiration_flow h)
  | clearNullAccountBalance =>
    obtain ⟨t, hflow, ht⟩ := Db.burnBalance_flow h
    exact ⟨t, 0, hflow, ht, fun _ => rfl⟩
  | clearAnonymousAccountBalance =>
    obtain ⟨t, hflow, ht⟩ := Db.burnBalance_flow h
    exact ⟨t, 0, hflow, ht, fun _ => rfl⟩
  | claimCommitteeAccountBalance =>
    obtain ⟨t, hflow, ht⟩ := Db.claimCommitteeAccountBalance_flow h
    exact ⟨t, 0, hflow, ht, fun _ => rfl⟩
  | committeeProcessing => exact .of_flow id (Db.committeeProcessing_flow h)
  | paidSubscribeProcessing => exact .of_flow id (Db.paidSubscribeProcessing_flow h)
  | processHardforks =>
    simp only [run, Db.processHardforks, bind_eq_ok, pure_eq_ok] at h
    obtain ⟨_, -, rfl⟩ := h
    exact .of_ledger_eq rfl

end BlockStep

end VizCore.Chain
