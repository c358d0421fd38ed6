import VizCore.Chain.Conservation
import VizCore.Chain.Invariant

/-!
# The ledger of reward shares

An award adds its reward shares to the total and leaves an object that takes them out again
when it expires.  The total is kept in 128 bits and both ways are unchecked.

* `Claims.rewardLedger`, `expireAwardSharesProcessing_rewardLedger`: what adds and what removes
  shares keep the total congruent to the sum of the objects;
* `RewardLedger.total_eq`: the total is that sum, since the objects are too few to wrap it;
* `reward_ledger_preserved`: this holds along every run, the reward fund is not overdrawn, and a
  claim pays its part of the fund rounded down.
-/

namespace VizCore.Chain

open VizCore.Lib VizCore.Protocol

/-- The total of the reward shares and the objects that will take them out. -/
def Db.rewardBook (db : Db) : RewardRest := ⟨db.dgp.totalRewardShares, db.awardSharesExpires⟩

/-- Each object holds a positive `int64_t`, and the total is their sum in 128 bits. -/
structure RewardLedger (r : RewardRest) : Prop where
  awards : r.awards.All fun s => 0 < s.rshares ∧ s.rshares < 2 ^ 63
  shares : (r.shares : Int) = r.awards.sum (·.rshares) % 2 ^ 128

/-- The objects that `expire_award_shares_processing` removes. -/
def Db.dueAwards (db : Db) : List AwardSharesExpireObject :=
  db.awardSharesExpires.rows.filter fun s => s.expires ≤ db.headBlockTime

/-! ## Claims and expiry -/

namespace Db

variable {db db' : Db}

/-- Only positive reward shares are paid. -/
theorem calcRshareAward_pos {rshares payout : Int} (h : db.calcRshareAward rshares = .ok payout) :
    0 < rshares := by
  simp only [calcRshareAward, bind_eq_ok, fcAssert_eq_ok] at h
  obtain ⟨_, hpos, -⟩ := h
  exact hpos

theorem claimRshareAward_rewardBook {rshares payout : Int}
    (h : db.claimRshareAward rshares = .ok (payout, db')) :
    0 < rshares ∧ ∃ expires, db'.rewardBook =
      ⟨(db.dgp.totalRewardShares + toUint128 rshares) % 2 ^ 128,
        db.awardSharesExpires.create fun id => ⟨id, expires, rshares⟩⟩ := by
  refine ⟨calcRshareAward_pos (claimRshareAward_eq h).1, ?_⟩
  simp only [claimRshareAward, bind_eq_ok, pure_eq_ok, Prod.mk.injEq] at h
  obtain ⟨_, -, _, -, -, rfl⟩ := h
  exact ⟨_, rfl⟩

theorem Claims.rewardLedger (h : db.Claims db') (hdb : RewardLedger db.rewardBook) :
    RewardLedger db'.rewardBook := by
  obtain rfl | ⟨rshares, payout, hrange, hclaim⟩ := h
  · exact hdb
  · obtain ⟨hpos, expires, hbook⟩ := claimRshareAward_rewardBook hclaim
    rw [hbook]
    constructor
    · exact Table.all_create hdb.awards ⟨hpos, hrange.2⟩
    · have hsum : (db.dgp.totalRewardShares : Int) =
          db.awardSharesExpires.sum (·.rshares) % 2 ^ 128 := hdb.shares
      show (((db.dgp.totalRewardShares + toUint128 rshares) % 2 ^ 128 : Nat) : Int) = _
      rw [Table.sum_create]
      push_cast
      rw [hsum, toUint128_cast]
      omega

/-- Subtracting in 128 bits is subtracting the sum. -/
theorem foldl_sub_uint128 (l : List AwardSharesExpireObject) (total : Nat)
    (htotal : total < 2 ^ 128) :
    ((l.foldl (fun total s => (total + 2 ^ 128 - toUint128 s.rshares) % 2 ^ 128) total : Nat) :
      Int) = (total - (l.map (·.rshares)).sum) % 2 ^ 128 := by
  induction l generalizing total with
  | nil =>
    simp only [List.foldl_nil, List.map_nil, List.sum_nil]
    omega
  | cons s l ih =>
    rw [List.foldl_cons, ih _ (Nat.mod_lt _ (by norm_num)), List.map_cons, List.sum_cons]
    have hs := toUint128_cast s.rshares
    generalize (l.map (·.rshares)).sum = rest
    omega

theorem sum_dueAwards (db : Db) :
    (db.awardSharesExpires.filter fun s => db.headBlockTime < s.expires).sum (·.rshares) =
      db.awardSharesExpires.sum (·.rshares) - (db.dueAwards.map (·.rshares)).sum := by
  unfold dueAwards
  generalize db.awardSharesExpires = t
  obtain ⟨rows, nextId⟩ := t
  simp only [Table.sum, Table.filter]
  induction rows with
  | nil => simp
  | cons s rows ih =>
    rw [List.filter_cons, List.filter_cons]
    by_cases h : s.expires ≤ db.headBlockTime
    · have hnot : ¬ db.headBlockTime < s.expires := not_lt.2 h
      simp only [h, hnot, decide_true, decide_false, if_true, Bool.false_eq_true, if_false,
        List.map_cons, List.sum_cons]
      omega
    · have hlt : db.headBlockTime < s.expires := not_le.1 h
      simp only [h, hlt, decide_true, decide_false, if_true, Bool.false_eq_true, if_false,
        List.map_cons, List.sum_cons]
      omega

theorem expireAwardSharesProcessing_shares (hdb : RewardLedger db.rewardBook) :
    (db.expireAwardSharesProcessing.dgp.totalRewardShares : Int) =
      (db.dgp.totalRewardShares - (db.dueAwards.map (·.rshares)).sum) % 2 ^ 128 := by
  have hshares : (db.dgp.totalRewardShares : Int) = _ % 2 ^ 128 := hdb.shares
  refine foldl_sub_uint128 db.dueAwards db.dgp.totalRewardShares ?_
  omega

theorem expireAwardSharesProcessing_rewardLedger (hdb : RewardLedger db.rewardBook) :
    RewardLedger db.expireAwardSharesProcessing.rewardBook := by
  constructor
  · exact Table.all_filter hdb.awards
  · have hshares : (db.dgp.totalRewardShares : Int) =
      db.awardSharesExpires.sum (·.rshares) % 2 ^ 128 := hdb.shares
    show (db.expireAwardSharesProcessing.dgp.totalRewardShares : Int) =
      (db.awardSharesExpires.filter fun s => db.headBlockTime < s.expires).sum (·.rshares) % 2 ^ 128
    rw [expireAwardSharesProcessing_shares hdb, sum_dueAwards, hshares]
    omega

end Db

/-! ## The exact total -/

namespace RewardLedger

variable {r : RewardRest}

/-- The sum of positive `int64_t` values. -/
theorem sum_lt (h : RewardLedger r) :
    r.awards.sum (·.rshares) ≤ r.awards.rows.length * 2 ^ 63 := by
  have hrows := h.awards
  unfold Table.All at hrows
  unfold Table.sum
  generalize r.awards.rows = rows at hrows ⊢
  induction rows with
  | nil => simp
  | cons s rows ih =>
    have hs := (hrows s List.mem_cons_self).2
    have hrest := ih fun t ht => hrows t (List.mem_cons_of_mem _ ht)
    rw [List.map_cons, List.sum_cons, List.length_cons]
    push_cast
    omega

theorem sum_nonneg (h : RewardLedger r) : 0 ≤ r.awards.sum (·.rshares) :=
  Table.sum_nonneg fun s hs => (h.awards s hs).1.le

/-- A table of fewer than `2 ^ 64` objects, which is all that its `size_t` can count, cannot wrap
the total. -/
theorem total_eq (h : RewardLedger r) (hrows : r.awards.rows.length < 2 ^ 64) :
    (r.shares : Int) = r.awards.sum (·.rshares) := by
  rw [h.shares]
  refine Int.emod_eq_of_lt h.sum_nonneg ?_
  have hlt := h.sum_lt
  omega

end RewardLedger

namespace Db

variable {db db' : Db}

/-- The shares that fall due are part of the total. -/
theorem sum_dueAwards_le (hdb : RewardLedger db.rewardBook) :
    (db.dueAwards.map (·.rshares)).sum ≤ db.awardSharesExpires.sum (·.rshares) := by
  have hsum := db.sum_dueAwards
  have hrest : 0 ≤
      (db.awardSharesExpires.filter fun s => db.headBlockTime < s.expires).sum (·.rshares) :=
    Table.sum_nonneg (Table.all_filter fun s hs => (hdb.awards s hs).1.le)
  omega

/-- Whatever was subtracted so far is part of what falls due. -/
theorem sum_prefix_le (hdb : RewardLedger db.rewardBook) {l done : List AwardSharesExpireObject}
    (hl : l.Perm db.dueAwards) (hdone : done <+: l) :
    (done.map (·.rshares)).sum ≤ (db.dueAwards.map (·.rshares)).sum := by
  obtain ⟨todo, rfl⟩ := hdone
  have htodo : 0 ≤ (todo.map (·.rshares)).sum := by
    refine List.sum_nonneg fun x hx => ?_
    obtain ⟨s, hs, rfl⟩ := List.mem_map.1 hx
    have hdue : s ∈ db.dueAwards := hl.subset (List.mem_append_right _ hs)
    exact (hdb.awards s (List.mem_of_mem_filter hdue)).1.le
  have hsum := (hl.map (·.rshares)).sum_eq
  rw [List.map_append, List.sum_append] at hsum
  omega

theorem toUint256_of_nonneg {x : Int} (h : 0 ≤ x) (h' : x < 2 ^ 63) : (toUint256 x : Int) = x := by
  unfold toUint256
  rw [Int.emod_eq_of_lt h (by omega), Int.toNat_of_nonneg h]

/-- No product of 64-bit numbers wraps in 256 bits. -/
theorem calcRshareAward_floor {rshares payout : Int} (hfund : 0 ≤ db.dgp.totalRewardFund)
    (hsmall : db.dgp.totalRewardFund < 2 ^ 63) (hrange : InInt64 rshares)
    (h : db.calcRshareAward rshares = .ok payout) :
    payout = db.dgp.totalRewardFund * rshares / (db.dgp.totalRewardShares + rshares) := by
  have hpos := calcRshareAward_pos h
  simp only [calcRshareAward, bind_eq_ok, fcAssert_eq_ok, pure_eq_ok] at h
  obtain ⟨_, -, _, -, rfl⟩ := h
  have hrf := toUint256_of_nonneg hfund hsmall
  have hrs := toUint256_of_nonneg hpos.le hrange.2
  have hrf' : toUint256 db.dgp.totalRewardFund < 2 ^ 63 := by omega
  have hrs' : toUint256 rshares < 2 ^ 63 := by
    have hlt := hrange.2
    omega
  have hprod : toUint256 db.dgp.totalRewardFund * toUint256 rshares < 2 ^ 256 := by
    calc toUint256 db.dgp.totalRewardFund * toUint256 rshares
        ≤ 2 ^ 63 * 2 ^ 63 := Nat.mul_le_mul hrf'.le hrs'.le
      _ < 2 ^ 256 := by norm_num
  rw [Nat.mod_eq_of_lt hprod]
  push_cast
  rw [hrf, hrs]

end Db

/-! ## Runs -/

/-- What the ledger of reward shares promises in a state. -/
structure Db.RewardsAddUp (db : Db) : Prop where
  total : (db.dgp.totalRewardShares : Int) = db.awardSharesExpires.sum (·.rshares)
  fund : 0 ≤ db.dgp.totalRewardFund
  /-- in whatever order the objects that are due are visited, no subtraction underflows -/
  covered : ∀ l done, l.Perm db.dueAwards → done <+: l →
    (done.map (·.rshares)).sum ≤ (db.dgp.totalRewardShares : Int)
  expired : (db.expireAwardSharesProcessing.dgp.totalRewardShares : Int) =
    db.dgp.totalRewardShares - (db.dueAwards.map (·.rshares)).sum
  claim : ∀ rshares payout db', InInt64 rshares →
    db.claimRshareAward rshares = .ok (payout, db') →
    payout = db.dgp.totalRewardFund * rshares / (db.dgp.totalRewardShares + rshares) ∧
      payout ≤ db.dgp.totalRewardFund

theorem rewardLedger_steady :
    Steady .rewards fun v : Aspect.View .rewards => RewardLedger v.rest := by
  intro g db db' hglide hdb
  cases hglide with
  | same h =>
    rw [h]
    exact hdb
  | register name recovery memo auth hauth hnew h =>
    rw [h]
    exact hdb
  | declare owner hnew h =>
    rw [h]
    exact hdb
  | vest name tokens ok h =>
    rw [Db.createVesting_view (x := .rewards) rfl h]
    exact hdb

theorem rewardLedger_keepsBlock (env : Env) (C : Event → Prop) :
    KeepsBlock env C fun db => db.Endowed env.fc ∧ RewardLedger (db.view .rewards).rest := by
  refine (endowed_keepsBlock env C).aspect (x := .rewards)
    (P := fun v : Aspect.View .rewards => RewardLedger v.rest) (by decide) (by decide) (by decide)
    rewardLedger_steady ?_ ?_
  · intro clock db op db' htouch hR hv hC h hdb
    cases op with
    | award o =>
      obtain ⟨db₁, hclaim, hturns⟩ := @Db.award_turns env.fc _ _ _ _ h
      exact rewardLedger_steady.drift (hturns.drift_unguarded .rewards) (hclaim.rewardLedger hdb)
    | fixedAward o =>
      obtain ⟨db₁, hclaim, hturns⟩ := @Db.fixedAward_turns env.fc _ _ _ _ h
      exact rewardLedger_steady.drift (hturns.drift_unguarded .rewards) (hclaim.rewardLedger hdb)
    | _ => cases htouch
  · intro skip b db st db' htouch hR hC h hdb
    cases st with
    | expireAwardSharesProcessing =>
      cases h
      exact Db.expireAwardSharesProcessing_rewardLedger hdb
    | _ => cases htouch

/-- The invariant gives the promise in every state with fewer than `2 ^ 64` objects. -/
theorem Db.Endowed.addUp {fc : Fc} {db : Db} (h : db.Endowed fc)
    (hbook : RewardLedger db.rewardBook) (hrows : db.awardSharesExpires.rows.length < 2 ^ 64) :
    db.RewardsAddUp := by
  have htotal : (db.dgp.totalRewardShares : Int) = db.awardSharesExpires.sum (·.rshares) :=
    hbook.total_eq hrows
  have hdue := Db.sum_dueAwards_le hbook
  refine ⟨htotal, h.fair.rewardFund, fun l done hl hdone => ?_, ?_, ?_⟩
  · have hpart := Db.sum_prefix_le hbook hl hdone
    omega
  · rw [Db.expireAwardSharesProcessing_shares hbook]
    have hshares : (db.dgp.totalRewardShares : Int) = _ % 2 ^ 128 := hbook.shares
    have hpos : 0 ≤ (db.dueAwards.map (·.rshares)).sum :=
      List.sum_nonneg fun x hx => by
        obtain ⟨s, hs, rfl⟩ := List.mem_map.1 hx
        exact (hbook.awards s (List.mem_of_mem_filter hs)).1.le
    refine Int.emod_eq_of_lt ?_ ?_ <;> omega
  · intro rshares payout db' hrange hclaim
    have hcalc := (Db.claimRshareAward_eq hclaim).1
    exact ⟨Db.calcRshareAward_floor h.fair.rewardFund h.fits hrange hcalc,
      Db.calcRshareAward_le h.fair.rewardFund hcalc⟩

/-- **The ledger of reward shares.**  Everything that the chain does keeps the ledger; and where
it holds, and the objects are fewer than `2 ^ 64`, the total is their sum, no expiry underflows,
the reward fund is not negative, and a claim pays its part of the fund rounded down. -/
theorem reward_ledger_preserved (env : Env) :
    (Preserved env (fun _ => True) fun db => db.Endowed env.fc ∧ RewardLedger db.rewardBook) ∧
      ∀ db : Db, db.Endowed env.fc ∧ RewardLedger db.rewardBook →
        db.awardSharesExpires.rows.length < 2 ^ 64 → db.RewardsAddUp :=
  ⟨(rewardLedger_keepsBlock env _).preserved, fun _ hdb hrows => hdb.1.addUp hdb.2 hrows⟩

/-- alice holds all shares, bob holds nothing, and the reward fund has 500 tokens. -/
def fundedStore : Store :=
  let s := smallStore [{ id := 4, name := "bob" }]
  { s with
    db := { s.db with
      dgp := { s.db.dgp with currentSupply := 3500, totalRewardFund := 500 }
      witnessSchedule := { s.db.witnessSchedule with
        medianProps := { voteAccountingMinRshares := 1000 } } } }

/-- alice spends a tenth of her energy on bob. -/
def awardingBlock : SignedBlock :=
  smallBlock [.award { initiator := "alice", receiver := "bob", energy := 1000, customSequence := 0
                       memo := "", beneficiaries := [] }]

theorem fundedStore_endowed (fc : Fc) :
    fundedStore.db.Endowed fc ∧ RewardLedger fundedStore.db.rewardBook := by
  have hterms : fundedStore.db.ledger.terms.Fair := by
    have hsmall := (smallStore_terms [{ id := 4, name := "bob" }]).fair
    have hmedian : PropsSound fundedStore.db.medianProps :=
      { Db.propsSound_default with }
    exact { hsmall with median := hmedian }
  have hsettled : fundedStore.db.ledger.Settled fc :=
    ⟨fun _ h => (nomatch h), fun _ h => (nomatch h), fun _ h => (nomatch h)⟩
  refine ⟨⟨hsettled, ⟨by decide, by decide, hterms⟩, by decide⟩, ⟨fun _ h => (nomatch h), ?_⟩⟩
  decide

theorem reward_ledger_award :
    ∃ s', (fundedStore.applyBlocks smallEnv 2 { merkleCheck := true } [awardingBlock] 0).2 = .ok s' ∧
      s'.db.awardSharesExpires.rows.length = 1 ∧ s'.db.RewardsAddUp := by
  have hrun : returns (fundedStore.applyBlocks smallEnv 2 { merkleCheck := true }
      [awardingBlock] 0).2 (fun s' => s'.db.awardSharesExpires.rows.length == 1) = true := by
    decide +kernel
  obtain ⟨s', hs', hlen⟩ := returns_eq_true hrun
  have hrows : s'.db.awardSharesExpires.rows.length = 1 := by simpa using hlen
  have hkept := (reward_ledger_preserved smallEnv).1.blocks 2 _ fundedStore [awardingBlock] 0 s' rfl
    (fundedStore_endowed _) (fun _ _ => trivial) hs'
  refine ⟨s', hs', hrows, (reward_ledger_preserved smallEnv).2 s'.db hkept ?_⟩
  omega

end VizCore.Chain
