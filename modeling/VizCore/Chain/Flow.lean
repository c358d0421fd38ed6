import VizCore.Chain.Ledger

/-!
# The ledger of a database

The abstract ledger that a database keeps, and what the helpers of `database.cpp` do
to it.  A `Flow` is a walk of ledger moves between the ledgers of two databases; the
evaluators and block steps are shown to be flows of weight zero.

* `adjustBalance_flow`, `createVesting_flow`, `addCommitteeFund_flow`: the flows of the
  helpers;
* `Flow.surplus`: a flow changes the tokens held above the supply by its weight.
-/

namespace VizCore.Chain

open VizCore.Lib VizCore.Protocol

def AccountObject.purse (a : AccountObject) : Purse :=
  ⟨a.name, a.balance, a.reservedBalance, a.vestingShares, a.currentBid, a.currentBidder⟩

namespace Db

def terms (db : Db) : Terms where
  medianProps := db.medianProps
  witnessProps := db.witnesses.image (·.props)
  inflationWitnessPercent := db.dgp.inflationWitnessPercent
  inflationRatio := db.dgp.inflationRatio
  subscriptions := db.paidSubscriptions
  requests := db.committeeRequests
  routes := db.withdrawVestingRoutes

def ledger (db : Db) : Ledger where
  purses := db.accounts.image AccountObject.purse
  escrows := db.escrows
  invites := db.invites
  proposals := db.proposals
  supply := db.dgp.currentSupply
  vestingFund := db.dgp.totalVestingFund
  vestingShares := db.dgp.totalVestingShares
  rewardFund := db.dgp.totalRewardFund
  committeeFund := db.dgp.committeeFund
  terms := db.terms

theorem ledger_find (db : Db) (name : AccountName) :
    db.ledger.find name = (db.findAccount name).map AccountObject.purse :=
  Table.get_image db.accounts AccountObject.purse (·.name) name

theorem ledger_modifyAccount (db : Db) (name : AccountName) (f : AccountObject → AccountObject)
    (φ : Purse → Purse) (h : ∀ a, (f a).purse = φ a.purse) :
    (db.modifyAccount name f).ledger = db.ledger.modify name φ := by
  have hrows : (db.accounts.update (·.name) name f).image AccountObject.purse =
      (db.accounts.image AccountObject.purse).update (·.name) name φ :=
    Table.image_update db.accounts AccountObject.purse (·.name) name f φ h
  show ({ db.ledger with purses := (db.accounts.update (·.name) name f).image _ } : Ledger) = _
  rw [hrows]
  rfl

/-- A change of an account that the ledger does not show. -/
theorem ledger_modifyAccount_of_same (db : Db) (name : AccountName)
    (f : AccountObject → AccountObject) (h : ∀ a, (f a).purse = a.purse) :
    (db.modifyAccount name f).ledger = db.ledger := by
  have hrows := Table.image_update_of_same db.accounts AccountObject.purse (·.name) name f h
  show ({ db.ledger with purses := (db.accounts.update (·.name) name f).image _ } : Ledger) = _
  rw [hrows]
  rfl

/-- A change of a witness that keeps its properties. -/
theorem ledger_modifyWitness_of_same (db : Db) (name : AccountName)
    (f : WitnessObject → WitnessObject) (h : ∀ w, (f w).props = w.props) :
    (db.modifyWitness name f).ledger = db.ledger := by
  have hrows := Table.image_update_of_same db.witnesses (·.props) (·.owner) name f h
  show ({ db.ledger with terms := { db.terms with
    witnessProps := (db.witnesses.update (·.owner) name f).image (·.props) } } : Ledger) = _
  rw [hrows]
  rfl

theorem ledger_of_votesOnly {db db' : Db} (h : VotesOnly db db') : db'.ledger = db.ledger := by
  obtain ⟨hdb, haccounts, hwitnesses⟩ := h
  have hpurses : db'.accounts.image AccountObject.purse =
      db.accounts.image AccountObject.purse := by
    have h := congrArg (fun t => Table.image t AccountObject.purse) haccounts
    simp only [Table.image_image] at h
    exact h
  have hprops : db'.witnesses.image (·.props) = db.witnesses.image (·.props) := by
    have h := congrArg (fun t => Table.image t WitnessObject.props) hwitnesses
    simp only [Table.image_image] at h
    exact h
  have hledger : db'.ledger = { db.ledger with
      purses := db'.accounts.image AccountObject.purse
      terms := { db.terms with witnessProps := db'.witnesses.image (·.props) } } := by
    conv_lhs => rw [hdb]
    rfl
  rw [hledger, hpurses, hprops]
  rfl

end Db

/-! ## Flows -/

/-- A walk of moves between the ledgers of two databases that brings in `t` tokens and `s`
shares. -/
def Flow (fc : Fc) (g : Prop) (t s : Int) (db db' : Db) : Prop :=
  Walk (Move fc g) (t, s) db.ledger db'.ledger

namespace Flow

variable {fc : Fc} {g : Prop} {t s t' s' : Int} {a b c : Db}

theorem of_ledger_eq (h : b.ledger = a.ledger) : Flow fc g 0 0 a b := by
  unfold Flow
  rw [h]
  exact .refl _

theorem refl (a : Db) : Flow fc g 0 0 a a := of_ledger_eq rfl

theorem of_move (h : Move fc g (t, s) a.ledger b.ledger) : Flow fc g t s a b := .single h

theorem trans (h : Flow fc g t s a b) (h' : Flow fc g t' s' b c) :
    Flow fc g (t + t') (s + s') a c :=
  Walk.trans h h'

theorem cast (h : Flow fc g t s a b) (ht : t = t') (hs : s = s') : Flow fc g t' s' a b :=
  ht ▸ hs ▸ h

/-- A flow followed by one that changes no total. -/
theorem then_neutral (h : Flow fc g t s a b) (h' : Flow fc g 0 0 b c) : Flow fc g t s a c :=
  (h.trans h').cast (add_zero t) (add_zero s)

/-- A flow after a change that the ledger does not show. -/
theorem after_same (hb : b.ledger = a.ledger) (h : Flow fc g t s b c) : Flow fc g t s a c := by
  unfold Flow at *
  rwa [← hb]

/-- A flow followed by a change that the ledger does not show. -/
theorem then_same (h : Flow fc g t s a b) (hc : c.ledger = b.ledger) : Flow fc g t s a c := by
  unfold Flow
  rw [hc]
  exact h

/-- A flow followed by a change of an account that the ledger does not show. -/
theorem then_modify (h : Flow fc g t s a b) {name : AccountName}
    {f : AccountObject → AccountObject} (hf : ∀ x, (f x).purse = x.purse) :
    Flow fc g t s a (b.modifyAccount name f) :=
  h.then_same (Db.ledger_modifyAccount_of_same b name f hf)

/-- Knowing more, more amounts are covered. -/
theorem mono {g' : Prop} (hg : g' → g) (h : Flow fc g t s a b) : Flow fc g' t s a b := by
  refine Walk.mono (fun w L L' hmove => ?_) h
  cases hmove with
  | pay L name x p hp ok => exact .pay L name x p hp fun h => ok (hg h)
  | vest L name t v p hp ok => exact .vest L name t v p hp fun h => ok (hg h)
  | grant L name v p hp ok => exact .grant L name v p hp fun h => ok (hg h)
  | redeem L t v ok => exact .redeem L t v fun h => ok (hg h)
  | reward L x ok fits => exact .reward L x ok fits
  | committee L x ok => exact .committee L x ok
  | issue L x => exact .issue L x
  | escrows L t x hx settled ok => exact .escrows L t x hx settled fun h => ok (hg h)
  | invites L t x hx settled ok => exact .invites L t x hx settled fun h => ok (hg h)
  | proposals L t settled => exact .proposals L t settled
  | terms L t ok fair => exact .terms L t (fun h => ok (hg h)) fair
  | enroll L name hnew => exact .enroll L name hnew
  | drop L name => exact .drop L name
  | refund L name p q hp hq hne => exact .refund L name p q hp hq hne
  | settle L name seller p q r hp hq hne hr => exact .settle L name seller p q r hp hq hne hr
  | place L name bidder x p q hp hq hfree ok =>
    exact .place L name bidder x p q hp hq hfree fun h => ok (hg h)

/-- A loop whose passes change no total. -/
theorem foldlM {α : Type} {f : Db → α → Result Db} {l : List α}
    (hf : ∀ x db db', f db x = .ok db' → Flow fc g 0 0 db db') (h : l.foldlM f a = .ok b) :
    Flow fc g 0 0 a b :=
  foldlM_invariant (fun db => Flow fc g 0 0 a db) f l
    (fun x _ db db' hdb hx => hdb.then_neutral (hf x db db' hx)) a b (.refl a) h

theorem surplus (h : Flow fc g t s a b) : b.ledger.surplus = a.ledger.surplus + t := by
  have hm := Walk.measure (fun L => (L.surplus, L.shareGap))
    (fun w L L' hmove => Prod.ext hmove.surplus hmove.shareGap) h
  exact congrArg Prod.fst hm

theorem shareGap (h : Flow fc g t s a b) : b.ledger.shareGap = a.ledger.shareGap + s := by
  have hm := Walk.measure (fun L => (L.surplus, L.shareGap))
    (fun w L L' hmove => Prod.ext hmove.surplus hmove.shareGap) h
  exact congrArg Prod.snd hm

theorem settled (h : Flow fc g t s a b) (ha : a.ledger.Settled fc) : b.ledger.Settled fc :=
  Walk.invariant (fun L => L.Settled fc) (fun _ _ _ hmove => hmove.settled) h ha

theorem sound (h : Flow fc g t s a b) (hg : g) (ha : a.ledger.Sound) : b.ledger.Sound :=
  Walk.invariant Ledger.Sound (fun _ _ _ hmove => hmove.sound hg) h ha

theorem fair (h : Flow fc g t s a b) (ha : a.ledger.Fair) : b.ledger.Fair :=
  Walk.invariant Ledger.Fair (fun _ _ _ hmove => hmove.fair) h ha

theorem rewardFund_lt (h : Flow fc g t s a b) (ha : a.ledger.rewardFund < 2 ^ 63) :
    b.ledger.rewardFund < 2 ^ 63 :=
  Walk.invariant (fun L : Ledger => L.rewardFund < 2 ^ 63)
    (fun _ _ _ hmove => hmove.rewardFund_lt) h ha

end Flow

namespace Db

variable {fc : Fc} {g : Prop} {db db' : Db} {name : AccountName}

theorem ledger_find_of_found {a : AccountObject} (ha : db.findAccount name = some a) :
    db.ledger.find name = some a.purse := by
  rw [ledger_find, ha]
  rfl

/-- Writing fields of the account that was read changes its purse by `φ`. -/
theorem ledger_modifyAccount_read {a : AccountObject} (ha : db.findAccount name = some a)
    (f : AccountObject → AccountObject) (φ ψ : Purse → Purse) (hf : ∀ b, (f b).purse = ψ b.purse)
    (hφ : ψ a.purse = φ a.purse) : (db.modifyAccount name f).ledger = db.ledger.modify name φ := by
  rw [ledger_modifyAccount db name f ψ hf]
  unfold Ledger.modify
  rw [Table.update_congr _ _ _ ψ φ fun p hp => ?_]
  rw [show db.ledger.purses.get (·.name) name = some a.purse from ledger_find_of_found ha] at hp
  cases hp
  exact hφ

/-- The balance of the account that was read is set to what it was plus `x`. -/
theorem modifyAccount_pay {a : AccountObject} (ha : db.findAccount name = some a)
    (f : AccountObject → AccountObject) (x : Int)
    (hf : ∀ b, (f b).purse = { b.purse with balance := a.balance + x })
    (ok : g → db.ledger.Sound → 0 ≤ a.balance + x) :
    Flow fc g x 0 db (db.modifyAccount name f) := by
  refine .of_move ?_
  rw [ledger_modifyAccount_read ha f (·.add x) (fun p => { p with balance := a.balance + x }) hf rfl]
  exact .pay _ name x a.purse (ledger_find_of_found ha) ok

theorem adjustBalance_ledger {x : Int} (h : db.adjustBalance name x = .ok db') :
    (db.findAccount name).isSome ∧ db'.ledger = db.ledger.modify name (·.add x) := by
  simp only [adjustBalance, getAccount, bind_eq_ok, getOrThrow_eq_ok, safeAdd_eq_ok,
    pure_eq_ok] at h
  obtain ⟨a, ha, _, ⟨-, rfl⟩, rfl⟩ := h
  refine ⟨Option.isSome_of_eq_some ha, ?_⟩
  exact ledger_modifyAccount_read ha _ (·.add x) (fun p => { p with balance := a.balance + x })
    (fun _ => rfl) rfl

theorem adjustBalance_flow {x : Int} (h : db.adjustBalance name x = .ok db')
    (ok : g → db.ledger.Sound → ∀ a, db.findAccount name = some a → 0 ≤ a.balance + x) :
    Flow fc g x 0 db db' := by
  simp only [adjustBalance, getAccount, bind_eq_ok, getOrThrow_eq_ok, safeAdd_eq_ok,
    pure_eq_ok] at h
  obtain ⟨a, ha, _, ⟨-, rfl⟩, rfl⟩ := h
  exact modifyAccount_pay ha _ x (fun _ => rfl) fun hg hL => ok hg hL a ha

/-- A covered debit. -/
theorem adjustBalance_debit {x : Int} {a : AccountObject}
    (h : db.adjustBalance name (-x) = .ok db') (ha : db.findAccount name = some a)
    (hcover : x ≤ a.balance) : Flow fc g (-x) 0 db db' := by
  refine adjustBalance_flow h fun _ _ b hb => ?_
  rw [ha] at hb
  cases hb
  omega

/-- A balance that grows needs no cover. -/
theorem adjustBalance_credit {x : Int} (h : db.adjustBalance name x = .ok db')
    (ok : g → db.ledger.Sound → 0 ≤ x) : Flow fc g x 0 db db' := by
  refine adjustBalance_flow h fun hg hL a ha => ?_
  have hpos := hL.purses a.purse (Table.get_mem (ledger_find_of_found ha))
  exact add_nonneg hpos.1 (ok hg hL)

theorem addCommitteeFund_flow {x : Int} (h : db.addCommitteeFund x = .ok db')
    (ok : db.ledger.Fair → 0 ≤ x) : Flow fc g x 0 db db' := by
  simp only [addCommitteeFund, bind_eq_ok, safeAdd_eq_ok, pure_eq_ok] at h
  obtain ⟨_, ⟨-, rfl⟩, rfl⟩ := h
  exact .of_move (.committee _ x fun hL => add_nonneg hL.committeeFund (ok hL))

/-- Paying an account does not touch the funds of the chain. -/
theorem adjustBalance_fair {x : Int} (h : db.adjustBalance name x = .ok db')
    (hF : db'.ledger.Fair) : db.ledger.Fair := by
  simp only [adjustBalance, bind_eq_ok, pure_eq_ok] at h
  obtain ⟨_, -, _, -, rfl⟩ := h
  exact ⟨hF.rewardFund, hF.committeeFund, hF.terms⟩

/-- A fee goes to the committee fund. -/
theorem payFee_flow {fee : Int} {msg : String} (h : db.payFee name fee msg = .ok db')
    (ok : db.ledger.Fair → 0 ≤ fee) : Flow fc g 0 0 db db' := by
  simp only [payFee, getAccount, bind_eq_ok, getOrThrow_eq_ok, fcAssert_eq_ok] at h
  obtain ⟨a, ha, _, hcover, db₁, hpay, hfund⟩ := h
  have hdebit : Flow fc g (-fee) 0 db db₁ := adjustBalance_debit hpay ha hcover
  have hcredit : Flow fc g fee 0 db₁ db' :=
    addCommitteeFund_flow hfund fun hF => ok (adjustBalance_fair hpay hF)
  exact (hdebit.trans hcredit).cast (by omega) rfl

theorem burnAsset_flow {x : Int} (h : db.burnAsset x = .ok db') : Flow fc g (-x) 0 db db' := by
  simp only [burnAsset, bind_eq_ok, safeAdd_eq_ok, pure_eq_ok] at h
  obtain ⟨_, ⟨-, rfl⟩, rfl⟩ := h
  exact .of_move (.issue _ x)

/-- `2 ^ 63 / 1000`: up to here an amount of tokens becomes shares without overflow. -/
def maxVest : Int := 9223372036854775

/-- At a price of at least a thousandth, `t` tokens are at most `1000 * t` shares. -/
theorem tokensToShares_le {t v : Int} (hL : db.ledger.Convertible) (ht : 0 ≤ t) (ht' : t ≤ maxVest)
    (hfund : db.dgp.totalVestingFund < 2 ^ 63) (h : db.tokensToShares t = .ok v) :
    0 ≤ v ∧ v ≤ 1000 * t := by
  have hF : 0 ≤ db.dgp.totalVestingFund := hL.vestingFund
  have hS : 0 ≤ db.dgp.totalVestingShares := hL.vestingShares
  have hprice : db.dgp.totalVestingShares ≤ 1000 * db.dgp.totalVestingFund := hL.price
  unfold maxVest at ht'
  unfold tokensToShares at h
  split at h
  · rw [mulDiv_eq_of_fits ht (by omega) (by norm_num) (by norm_num) (by norm_num) (by norm_num)
      (by omega) (by omega), Except.ok.injEq] at h
    omega
  · rename_i hne
    rw [not_or] at hne
    have hpos : 0 < db.dgp.totalVestingFund := lt_of_le_of_ne hF (Ne.symm hne.1)
    have hprod : t * db.dgp.totalVestingShares ≤ 1000 * t * db.dgp.totalVestingFund := by
      nlinarith
    have hquot : t * db.dgp.totalVestingShares / db.dgp.totalVestingFund ≤ 1000 * t :=
      Int.ediv_le_of_le_mul hpos hprod
    have hsmall : t * db.dgp.totalVestingShares < 2 ^ 128 := by
      have hS' : db.dgp.totalVestingShares ≤ 1000 * 2 ^ 63 := by omega
      calc t * db.dgp.totalVestingShares ≤ 9223372036854775 * (1000 * 2 ^ 63) :=
            mul_le_mul ht' hS' hS (by norm_num)
        _ < 2 ^ 128 := by norm_num
    rw [mulDiv_eq_of_fits ht (by omega) hS (by omega) hpos (by omega) hsmall (by omega),
      Except.ok.injEq] at h
    subst h
    exact ⟨Int.ediv_nonneg (mul_nonneg ht hS) hF, hquot⟩

theorem createVesting_flow {t : Int} (h : db.createVesting name t = .ok db')
    (ok : g → db.ledger.Sound → 0 ≤ t ∧ t ≤ maxVest) : Flow fc g t 0 db db' := by
  simp only [createVesting, getAccount, bind_eq_ok, getOrThrow_eq_ok, safeAdd_eq_ok] at h
  obtain ⟨v, hv, a, ha, _, ⟨-, rfl⟩, _, ⟨hfund, rfl⟩, _, ⟨-, rfl⟩, h⟩ := h
  have hvotes := ledger_of_votesOnly (adjustProxiedWitnessVotes_votesOnly h)
  have hledger := ledger_modifyAccount_read ha
    (fun b => { b with vestingShares := a.vestingShares + v }) (·.addShares v)
    (fun p => { p with shares := a.vestingShares + v }) (fun _ => rfl) rfl
  refine Flow.then_same (.of_move ?_) hvotes
  show Move fc g (t, 0) db.ledger { Db.ledger (db.modifyAccount name _) with
    vestingFund := db.ledger.vestingFund + t, vestingShares := db.ledger.vestingShares + v }
  rw [hledger]
  refine .vest db.ledger name t v a.purse (ledger_find_of_found ha) fun hg hL => ?_
  obtain ⟨ht, ht'⟩ := ok hg hL
  have hfund' : db.dgp.totalVestingFund + t < 2 ^ 63 := hfund.2
  obtain ⟨hv₀, hvt⟩ := tokensToShares_le hL.convertible ht ht' (by omega) hv
  exact ⟨ht, hv₀, hvt⟩

/-- The tokens are worth no negative amount of shares: the conversion does not overflow. -/
def VestsUp (db : Db) (tokens : Int) : Prop := ∀ v, db.tokensToShares tokens = .ok v → 0 ≤ v

instance (db : Db) (tokens : Int) : Decidable (db.VestsUp tokens) :=
  inferInstanceAs (Decidable (∀ v, db.tokensToShares tokens = .ok v → 0 ≤ v))

/-- Vesting at a sane price adds shares and keeps the price sane. -/
theorem createVesting_convertible {t : Int} (hdb : db.ledger.Convertible) (hpos : 0 ≤ t)
    (hsmall : t ≤ maxVest) (h : db.createVesting name t = .ok db') :
    db.VestsUp t ∧ db'.ledger.Convertible := by
  simp only [createVesting, bind_eq_ok, safeAdd_eq_ok] at h
  obtain ⟨v, hv, a, -, _, -, _, ⟨hfund, rfl⟩, _, ⟨-, rfl⟩, hvotes⟩ := h
  have hfund' : db.dgp.totalVestingFund + t < 2 ^ 63 := hfund.2
  obtain ⟨hv₀, hv₁⟩ := tokensToShares_le hdb hpos hsmall (by omega) hv
  constructor
  · intro w hw
    rw [hv, Except.ok.injEq] at hw
    rw [← hw]
    exact hv₀
  · rw [ledger_of_votesOnly (adjustProxiedWitnessVotes_votesOnly hvotes)]
    have hprice := hdb.price
    refine ⟨add_nonneg hdb.vestingFund hpos, add_nonneg hdb.vestingShares hv₀, ?_⟩
    show db.ledger.vestingShares + v ≤ 1000 * (db.ledger.vestingFund + t)
    omega

theorem createAccount_flow {mk : Nat → AccountObject} (h : db.createAccount mk = .ok db')
    (hmk : ∀ id, (mk id).purse = ⟨(mk id).name, 0, 0, 0, 0, ""⟩) : Flow fc g 0 0 db db' := by
  simp only [createAccount, require_bind_eq_ok, pure_eq_ok] at h
  obtain ⟨hnew, rfl⟩ := h
  refine .of_move ?_
  have hnew' : db.ledger.find (mk db.accounts.nextId).name = none := by
    rw [ledger_find, hnew]
    rfl
  have hmove : Move fc g (0, 0) db.ledger _ := .enroll db.ledger _ hnew'
  have hrows := Table.image_create db.accounts AccountObject.purse mk
  have hledger : Db.ledger { db with accounts := db.accounts.create mk } =
      { db.ledger with purses := db.ledger.purses.create fun _ =>
        ⟨(mk db.accounts.nextId).name, 0, 0, 0, 0, ""⟩ } := by
    show ({ db.ledger with purses := (db.accounts.create mk).image _ } : Ledger) = _
    rw [hrows]
    simp only [Table.create, hmk]
    rfl
  rw [hledger]
  exact hmove

theorem claimRshareAward_flow {rshares payout : Int}
    (h : db.claimRshareAward rshares = .ok (payout, db'))
    (ok : 0 ≤ db.dgp.totalRewardFund → payout ≤ db.dgp.totalRewardFund) :
    Flow fc g (-payout) 0 db db' := by
  obtain ⟨hpayout, hdb⟩ := claimRshareAward_eq h
  simp only [claimRshareAward, bind_eq_ok, safeSub_eq_ok, hpayout, Except.ok.injEq] at h
  obtain ⟨_, rfl, _, ⟨hfits, -⟩, -⟩ := h
  refine .of_move ?_
  rw [hdb]
  refine .reward db.ledger (-payout) (fun hL => ?_) hfits.2
  have hle := ok hL.rewardFund
  show 0 ≤ db.dgp.totalRewardFund + -payout
  omega

/-- The state before an operation or a block step in which every amount is nonnegative and
covered, the shares add up, and no amount is large enough to overflow when vested. -/
structure Ready (db : Db) : Prop where
  sound : db.ledger.Sound
  shares : db.ledger.shareGap = 0
  small : db.ledger.holdings ≤ maxVest

theorem Ready.balance_le {a : AccountObject} (h : db.Ready)
    (ha : db.findAccount name = some a) : a.balance ≤ maxVest :=
  (h.sound.balance_le_holdings (ledger_find_of_found ha)).trans h.small

/-- Databases with the same ledger have the same purses. -/
theorem findAccount_of_ledger_eq {b : AccountObject} (h : db'.ledger = db.ledger)
    (hb : db'.findAccount name = some b) : ∃ a, db.findAccount name = some a ∧ a.purse = b.purse := by
  have hfind := ledger_find db' name
  rw [h, ledger_find, hb] at hfind
  exact Option.map_eq_some_iff.1 hfind

theorem sharesSenderRecalcEnergy_ledger {shares : Int}
    (h : db.sharesSenderRecalcEnergy name shares = .ok db') : db'.ledger = db.ledger := by
  simp only [sharesSenderRecalcEnergy, bind_eq_ok] at h
  obtain ⟨a, -, effective, -, h⟩ := h
  split at h
  · rw [pure_eq_ok] at h
    rw [← h]
    exact ledger_modifyAccount_of_same db name _ fun _ => rfl
  · rw [pure_eq_ok] at h
    rw [h]

/-! ## Reading accounts back -/

theorem adjustBalance_find {x : Int} (h : db.adjustBalance name x = .ok db') :
    ∃ a, db.findAccount name = some a ∧
      db'.findAccount name = some { a with balance := a.balance + x } := by
  simp only [adjustBalance, getAccount, bind_eq_ok, getOrThrow_eq_ok, safeAdd_eq_ok,
    pure_eq_ok] at h
  obtain ⟨a, ha, _, ⟨-, rfl⟩, rfl⟩ := h
  refine ⟨a, ha, ?_⟩
  have hget := Table.get_update_same db.accounts (·.name) name
    (fun b => { b with balance := a.balance + x }) fun _ => rfl
  rw [show db.accounts.get (·.name) name = some a from ha] at hget
  exact hget

theorem adjustBalance_find_ne {x : Int} {n : AccountName} (hne : n ≠ name)
    (h : db.adjustBalance name x = .ok db') : db'.findAccount n = db.findAccount n := by
  simp only [adjustBalance, bind_eq_ok, pure_eq_ok] at h
  obtain ⟨_, -, _, -, rfl⟩ := h
  exact Table.get_update_ne db.accounts (·.name) _ hne fun _ => rfl

/-- A new account hides no old one. -/
theorem createAccount_find {mk : Nat → AccountObject} {n : AccountName} {a : AccountObject}
    (ha : db.findAccount n = some a) (h : db.createAccount mk = .ok db') :
    db'.findAccount n = some a := by
  simp only [createAccount, require_bind_eq_ok, pure_eq_ok] at h
  obtain ⟨-, rfl⟩ := h
  simp only [findAccount, Table.get, Table.create, List.find?_append] at ha ⊢
  rw [ha]
  rfl

theorem registerAccount_flow {mk : Nat → AccountObject} {name : AccountName} {key : PublicKey}
    (h : db.registerAccount mk name key = .ok db')
    (hmk : ∀ id, (mk id).purse = ⟨(mk id).name, 0, 0, 0, 0, ""⟩) : Flow fc g 0 0 db db' := by
  simp only [registerAccount, bind_eq_ok, pure_eq_ok] at h
  obtain ⟨db₁, hcreate, rfl⟩ := h
  exact (createAccount_flow hcreate hmk).then_same rfl

theorem registerAccount_find {mk : Nat → AccountObject} {name n : AccountName} {key : PublicKey}
    {a : AccountObject} (ha : db.findAccount n = some a)
    (h : db.registerAccount mk name key = .ok db') : db'.findAccount n = some a := by
  simp only [registerAccount, bind_eq_ok, pure_eq_ok] at h
  obtain ⟨db₁, hcreate, rfl⟩ := h
  have hfind := createAccount_find ha hcreate
  exact hfind

end Db

end VizCore.Chain
