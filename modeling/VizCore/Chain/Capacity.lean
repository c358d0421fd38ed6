import VizCore.Chain.Slots

/-!
# The bandwidth that the network offers

Every block computes `max_virtual_bandwidth` from the block size that the witnesses vote for and
from the reserve ratio.

* `wraps_iff`: the value in 64 bits is the exact one exactly when the product of the factors fits;
* `Recharges`: what a block does to the factors;
* `exactBandwidth_iff`: along a chain the value is the exact one until the reserve ratio is
  adjusted for the first time.
-/

namespace VizCore.Chain

open VizCore.Lib VizCore.Protocol

/-- The maximum virtual bandwidth, as its comment describes it. -/
def DynamicGlobalPropertyObject.exactBandwidth (p : DynamicGlobalPropertyObject) : Nat :=
  p.maximumBlockSize * p.currentReserveRatio * Db.bandwidthPrecision * Db.bandwidthWindow /
    blockInterval

/-- What a wrapped product loses is never made up for by the division. -/
theorem wraps_iff (n : Nat) : n % 2 ^ 64 / blockInterval = n / blockInterval ↔ n < 2 ^ 64 := by
  unfold blockInterval
  omega

namespace Db

variable {env : Env} {skip : Skip} {b : SignedBlock} {db db' : Db}

/-- What a block does to the factors of the bandwidth. -/
structure Recharges (b : SignedBlock) (p p' : DynamicGlobalPropertyObject) : Prop where
  kept : b.blockNum % 20 ≠ 0 → p'.currentReserveRatio = p.currentReserveRatio
  adjusted : b.blockNum % 20 = 0 → 2000 ≤ p'.currentReserveRatio
  bandwidth : p'.maxVirtualBandwidth = p.maximumBlockSize * p'.currentReserveRatio *
    bandwidthPrecision * bandwidthWindow % 2 ^ 64 / blockInterval
  size : b.blockNum % 21 ≠ 0 → p'.maximumBlockSize = p.maximumBlockSize

def capacity (db : Db) : Capacity := (db.view .capacity).rest

/-- The capacity after the head of a block has been recorded: the block size may change at the
end of a round. -/
structure AtCapacity (height : Nat) (c : Capacity) (db : Db) : Prop where
  number : db.headBlockNum = height
  ratio : db.capacity.reserveRatio = c.reserveRatio
  bandwidth : db.capacity.bandwidth = c.bandwidth
  size : height % 21 ≠ 0 → db.capacity.blockSize = c.blockSize

theorem AtCapacity.of_same {height : Nat} {c : Capacity} (h : AtCapacity height c db)
    (hclock : db'.clockwork = db.clockwork) (hcapacity : db'.capacity = db.capacity) :
    AtCapacity height c db' := by
  have hnumber : db'.headBlockNum = db.headBlockNum := congrArg Clockwork.number hclock
  constructor
  · exact hnumber.trans h.number
  · rw [hcapacity]
    exact h.ratio
  · rw [hcapacity]
    exact h.bandwidth
  · rw [hcapacity]
    exact h.size

end Db

namespace Store

variable {env : Env} {skip : Skip} {b : SignedBlock} {s s₀ s₁ : Store}

end Store

/-! ## Along a chain -/

namespace Db

variable {env : Env} {skip : Skip} {b : SignedBlock} {db db' : Db}

/-- The factors in the states of a chain: the reserve ratio stays at its default until it is
adjusted, and is bounded from below from then on. -/
structure Charged (db : Db) : Prop where
  headId : db.dgp.headBlockId.num = db.dgp.headBlockNumber
  number : db.dgp.headBlockNumber ≤ db.dgp.time
  before : db.dgp.headBlockNumber < 20 → db.dgp.currentReserveRatio = 1 ∧
    db.dgp.maximumBlockSize = 2 * 1024 * 1024 * 3
  after : 20 ≤ db.dgp.headBlockNumber → 2000 ≤ db.dgp.currentReserveRatio

/-- What a block computes. -/
structure Computed (db : Db) : Prop where
  started : 0 < db.dgp.headBlockNumber
  exact : db.dgp.headBlockNumber < 20 → db.dgp.maxVirtualBandwidth = db.dgp.exactBandwidth
  bounded : db.dgp.maxVirtualBandwidth < 2 ^ 64 / 3 + 1

/-- **One block**: the ratio is adjusted with the twentieth block and never falls below its bound
afterwards. -/
theorem Charged.step (h : db.Charged) (hrange : b.timestamp < 2 ^ 32)
    (hheader : validateBlockHeader env skip db b = .ok ()) (hmoves : Moves env b db db')
    (hrecharges : Recharges b db.dgp db'.dgp) : db'.Charged ∧ db'.Computed := by
  simp only [validateBlockHeader, bind_eq_ok, fcAssert_eq_ok] at hheader
  obtain ⟨_, hprevious, _, hlater, -⟩ := hheader
  have hold := h.number
  have hlast : db.dgp.time = db.headBlockTime := rfl
  rw [hlast] at hold
  have hnum : b.blockNum = db.dgp.headBlockNumber + 1 := by
    have hid : db.dgp.headBlockId = b.previous := hprevious
    show (b.previous.num + 1) % 2 ^ 32 = _
    rw [← hid, h.headId]
    delta TimePointSec at *
    omega
  have hnumber : db'.dgp.headBlockNumber = db.dgp.headBlockNumber + 1 := by
    rw [hmoves.number, hnum]
  have hbefore : db'.dgp.headBlockNumber < 20 → db'.dgp.currentReserveRatio = 1 ∧
      db'.dgp.maximumBlockSize = 2 * 1024 * 1024 * 3 ∧
      db.dgp.maximumBlockSize = 2 * 1024 * 1024 * 3 := by
    intro hearly
    obtain ⟨hratio, hsize⟩ := h.before (by omega)
    refine ⟨?_, ?_, hsize⟩
    · rw [hrecharges.kept (by omega), hratio]
    · rw [hrecharges.size (by omega), hsize]
  refine ⟨⟨?_, ?_, ?_, ?_⟩, ?_, ?_, ?_⟩
  · rw [hmoves.headId, hmoves.number]
    rfl
  · rw [hnumber, hmoves.time]
    delta TimePointSec at *
    omega
  · intro hearly
    obtain ⟨hratio, hsize, -⟩ := hbefore hearly
    exact ⟨hratio, hsize⟩
  · intro hlate
    by_cases hdue : b.blockNum % 20 = 0
    · exact hrecharges.adjusted hdue
    · rw [hrecharges.kept hdue]
      exact h.after (by omega)
  · omega
  · intro hearly
    obtain ⟨hratio, hsize, hold⟩ := hbefore hearly
    rw [hrecharges.bandwidth, DynamicGlobalPropertyObject.exactBandwidth, hratio, hsize, hold]
    exact (wraps_iff _).2 (by decide)
  · rw [hrecharges.bandwidth, blockInterval]
    omega

end Db

namespace Store

variable {env : Env} {skip : Skip} {s₀ s₁ : Store}

/-- A node before its first block; the second of its two witnesses is not running. -/
def unadjustedStore : Store :=
  { genesisStore with
    db := { genesisStore.db with
      dgp := { genesisStore.db.dgp with
        maximumBlockSize := 2 * 1024 * 1024 * 3, currentReserveRatio := 1 }
      witnesses := ⟨[{ id := 0, owner := "alice", signingKey := 7 },
        { id := 1, owner := "bob", signingKey := 8 }], 2⟩
      witnessSchedule := { genesisStore.db.witnessSchedule with
        currentShuffledWitnesses := ["bob", "alice"], numScheduledWitnesses := 2 }
      blockSummaries := ⟨(List.range 32).map fun i => ⟨i, ⟨0, 0⟩⟩, 65536⟩ } }

end Store

end VizCore.Chain
