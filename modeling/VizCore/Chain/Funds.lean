import VizCore.Chain.Proxies

/-!
# What payments leave alone

Payments, vesting and the votes that follow the shares change what an account owns, and nothing
else of it; they leave the authorities and the time alone.

* `FundsOnly`: the relation, with `find` to read an account after the payments;
* `adjustBalance_fundsOnly`, `createVesting_fundsOnly`: the payments.
-/

namespace VizCore.Chain

open VizCore.Lib VizCore.Protocol

/-- An account without what it owns, has been awarded, and adds to votes. -/
def AccountObject.withoutFunds (a : AccountObject) : AccountObject :=
  { a with
    balance := 0, reservedBalance := 0, vestingShares := 0, receiverAwards := 0
    benefactorAwards := 0, witnessesVoteWeight := 0, proxiedVsfVotes := [] }

/-- The databases differ in what the accounts own, and perhaps in other tables. -/
structure FundsOnly (db db' : Db) : Prop where
  accounts : db'.accounts.image AccountObject.withoutFunds =
    db.accounts.image AccountObject.withoutFunds
  authorities : db'.accountAuthorities = db.accountAuthorities
  time : db'.dgp.time = db.dgp.time

namespace FundsOnly

variable {db db' : Db} {name : AccountName}

theorem refl (db : Db) : FundsOnly db db := ⟨rfl, rfl, rfl⟩

theorem trans {db'' : Db} (h : FundsOnly db db') (h' : FundsOnly db' db'') : FundsOnly db db'' where
  accounts := h'.accounts.trans h.accounts
  authorities := h'.authorities.trans h.authorities
  time := h'.time.trans h.time

/-- An account after the payments. -/
theorem find {a : AccountObject} (h : FundsOnly db db') (ha : db.findAccount name = some a) :
    ∃ b, db'.findAccount name = some b ∧ b.withoutFunds = a.withoutFunds := by
  have hfind (d : Db) : (d.accounts.image AccountObject.withoutFunds).get (·.name) name =
      (d.findAccount name).map AccountObject.withoutFunds := Table.get_image _ _ _ _
  have hget := hfind db'
  rw [h.accounts, hfind, ha] at hget
  cases hb : db'.findAccount name with
  | none =>
    rw [hb] at hget
    cases hget
  | some b =>
    rw [hb] at hget
    exact ⟨b, rfl, (Option.some.inj hget).symm⟩

theorem modifyAccount (db : Db) (name : AccountName) {f : AccountObject → AccountObject}
    (hf : ∀ a, (f a).withoutFunds = a.withoutFunds) : FundsOnly db (db.modifyAccount name f) where
  accounts := Table.image_update_of_same _ _ _ _ _ hf
  authorities := rfl
  time := rfl

theorem modifyDgp (db : Db) {f : DynamicGlobalPropertyObject → DynamicGlobalPropertyObject}
    (hf : (f db.dgp).time = db.dgp.time) : FundsOnly db (db.modifyDgp f) where
  accounts := rfl
  authorities := rfl
  time := hf

theorem of_votesOnly (h : VotesOnly db db') : FundsOnly db db' where
  accounts := by
    have himage (d : Db) : d.accounts.image AccountObject.withoutFunds =
        (d.accounts.image AccountObject.withoutVotes).image AccountObject.withoutFunds := by
      rw [Table.image_image]
      rfl
    rw [himage, himage, h.2.1]
  authorities := by rw [h.1]
  time := by rw [h.1]

end FundsOnly

namespace Db

variable {db db' : Db} {name : AccountName}

theorem adjustBalance_fundsOnly {x : Int} (h : db.adjustBalance name x = .ok db') :
    FundsOnly db db' := by
  simp only [adjustBalance, bind_eq_ok, pure_eq_ok] at h
  obtain ⟨a, -, balance, -, rfl⟩ := h
  exact .modifyAccount db name fun _ => rfl

theorem createVesting_fundsOnly {tokens : Int} (h : db.createVesting name tokens = .ok db') :
    FundsOnly db db' := by
  obtain ⟨a, v, -, -, -, hvotes⟩ := createVesting_eq h
  have hshares := FundsOnly.modifyAccount db name
    (f := fun x => { x with vestingShares := a.vestingShares + v }) fun _ => rfl
  exact (hshares.trans (.modifyDgp _ rfl)).trans (.of_votesOnly hvotes)

theorem payPrice_fundsOnly {buyer seller : AccountName} {price : Int}
    (h : db.payPrice buyer seller price = .ok db') : FundsOnly db db' := by
  simp only [payPrice, bind_eq_ok] at h
  obtain ⟨db₁, hout, hin⟩ := h
  exact (adjustBalance_fundsOnly hout).trans (adjustBalance_fundsOnly hin)

theorem addCommitteeFund_fundsOnly {x : Int} (h : db.addCommitteeFund x = .ok db') :
    FundsOnly db db' := by
  simp only [addCommitteeFund, bind_eq_ok, pure_eq_ok] at h
  obtain ⟨fund, -, rfl⟩ := h
  exact .modifyDgp db rfl

theorem payBeneficiaries_fundsOnly {tokens total total' : Int} (l : List BeneficiaryRoute)
    (h : payBeneficiaries tokens l total db = .ok (total', db')) : FundsOnly db db' := by
  induction l generalizing total db with
  | nil =>
    cases h
    exact .refl _
  | cons b rest ih =>
    simp only [payBeneficiaries, bind_eq_ok] at h
    obtain ⟨_, -, part, -, db₁, hvest, a, -, awards, -, _, -, h⟩ := h
    refine (createVesting_fundsOnly hvest).trans (FundsOnly.trans ?_ (ih h))
    exact .modifyAccount db₁ b.account fun _ => rfl

theorem payReceiver_fundsOnly {receiver : AccountName} {tokens : Int}
    (h : payReceiver receiver tokens db = .ok db') : FundsOnly db db' := by
  unfold payReceiver at h
  split at h
  · simp only [bind_eq_ok, pure_eq_ok] at h
    obtain ⟨db₁, hvest, a, -, awards, -, rfl⟩ := h
    exact (createVesting_fundsOnly hvest).trans (.modifyAccount db₁ receiver fun _ => rfl)
  · cases h
    exact .refl db

end Db

end VizCore.Chain
