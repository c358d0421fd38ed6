import VizCore.Chain.Store

/-!
# The genesis

What `init_genesis` leaves of the accounts and their authorities, and a state like it.
-/

namespace VizCore.Chain

open VizCore.Lib VizCore.Protocol

/-- The names of all accounts, oldest first. -/
def Db.names (db : Db) : List AccountName := db.accounts.rows.map (·.name)

/-- An account of `snapshot.json`. -/
structure SnapshotAccount where
  login : AccountName
  publicKey : PublicKey

/-- The authorities that `init_genesis` creates.  Each account's regular authority is its master
authority. -/
def genesisAuthorities (initiator invite : PublicKey) (snapshot : List SnapshotAccount) :
    List (AccountName × Authority × Authority) :=
  let noKeys : Authority := { weightThreshold := 1 }
  [("null", noKeys, noKeys), ("committee", noKeys, noKeys), ("anonymous", noKeys, noKeys),
    ("invite", noKeys, Db.singleKey invite), ("viz", Db.singleKey initiator, Db.singleKey initiator)]
    ++ snapshot.map fun a => (a.login, Db.singleKey a.publicKey, Db.singleKey a.publicKey)

/-- The accounts and authorities of a database are those of the genesis. -/
structure Genesis (initiator invite : PublicKey) (snapshot : List SnapshotAccount) (db : Db) :
    Prop where
  names : db.names = (genesisAuthorities initiator invite snapshot).map (·.1)
  authorities : db.accountAuthorities.rows.map (fun a => (a.account, a.master, a.active)) =
    genesisAuthorities initiator invite snapshot
  regular : ∀ a ∈ db.accountAuthorities.rows, a.regular = a.master
  history : db.masterAuthorityHistory.rows = []

def genesisSnapshot : List SnapshotAccount := [⟨"alice", 7⟩]

/-- The state before the first block. -/
def genesisDb : Db :=
  let names := (genesisAuthorities 3 4 genesisSnapshot).map (·.1)
  { dgp :=
      { currentWitness := "committee", currentSupply := 6000, totalVestingFund := 1000
        totalVestingShares := 1000000, maximumBlockSize := 65536, maxVirtualBandwidth := 2 ^ 60 }
    witnessSchedule := { currentShuffledWitnesses := ["committee"] }
    accounts := ⟨names.mapIdx fun i name =>
      { id := i, name := name, balance := if name = "viz" then 5000 else 0
        vestingShares := if name = "alice" then 1000000 else 0 }, 6⟩
    accountAuthorities := ⟨(genesisAuthorities 3 4 genesisSnapshot).mapIdx fun i a =>
      ⟨i, a.1, a.2.1, a.2.2, a.2.1, 0⟩, 6⟩
    witnesses := ⟨[{ id := 0, owner := "committee", signingKey := 7 }], 1⟩
    blockSummaries := ⟨[⟨0, ⟨0, 0⟩⟩, ⟨1, ⟨0, 0⟩⟩, ⟨2, ⟨0, 0⟩⟩], 65536⟩ }

end VizCore.Chain
