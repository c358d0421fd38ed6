import VizCore.Chain.Store

/-!
# Bids in an auction

The bids that `buy_account` accepts on one account, one after the other.  A bid has to exceed
the standing one by a step: a tenth of the offer price, or the difference of the last two bids
of different bidders where that is larger.

* `Lot`: what the auction reads and writes of the account on sale;
* `bidAccount_spec`: what an accepted bid has checked and what it leaves;
* `bids_rise_iff`: every bid exceeds the bid that it replaces as long as the auction has a
  step.  The tenth of an offer price below ten is nothing.
-/

namespace VizCore.Chain

open VizCore.Lib VizCore.Protocol

/-- The auction of an account: the offer price, the standing bid, the bid that counts as the
one before, and the bidder. -/
structure Lot where
  price : Int
  bid : Int
  last : Int
  bidder : AccountName
  deriving DecidableEq

namespace Lot

/-- No bid stands, or one that has a bidder. -/
def Sound (l : Lot) : Prop :=
  0 < l.price ∧ InInt64 l.price ∧ InInt64 l.bid ∧ InInt64 l.last ∧
    (l.bid = 0 ∧ l.last = 0 ∧ l.bidder = "" ∨ 0 < l.bid ∧ 0 ≤ l.last ∧ l.bidder ≠ "")

instance (l : Lot) : Decidable l.Sound := inferInstanceAs (Decidable (_ ∧ _))

/-- The auction has a step: the offer price has a tenth, or the last two bids of different
bidders differ. -/
def Stepped (l : Lot) : Prop :=
  percent100 ≤ l.price * accountAuctionMinStep ∨ 0 < l.last ∧ l.last < l.bid

instance (l : Lot) : Decidable l.Stepped := inferInstanceAs (Decidable (_ ∨ _))

/-- The auction after a bid. -/
def outbid (l : Lot) (op : BuyAccountOperation) : Lot :=
  { l with
    bid := op.accountOfferPrice.amount
    last := if l.bidder ≠ "" ∧ l.bidder ≠ op.buyer then l.bid else l.last
    bidder := op.buyer }

end Lot

namespace AccountObject

def lot (a : AccountObject) : Lot :=
  ⟨a.accountOfferPrice, a.currentBid, a.lastBid, a.currentBidder⟩

/-- The reserve and the balance. -/
def held (a : AccountObject) : Int × Int := (a.reservedBalance, a.balance)

def setHeld (a : AccountObject) (reserved balance : Int) : AccountObject :=
  { a with reservedBalance := reserved, balance := balance }

@[simp] theorem lot_setHeld (a : AccountObject) (r b : Int) : (a.setHeld r b).lot = a.lot := rfl

@[simp] theorem held_setHeld (a : AccountObject) (r b : Int) : (a.setHeld r b).held = (r, b) := rfl

@[simp] theorem lot_withBidOf (a : AccountObject) (clock : TimePointSec)
    (op : BuyAccountOperation) : (a.withBidOf clock op).lot = a.lot.outbid op := rfl

@[simp] theorem held_withBidOf (a : AccountObject) (clock : TimePointSec)
    (op : BuyAccountOperation) : (a.withBidOf clock op).held = a.held := rfl

end AccountObject

/-! ## The least step -/

section Step

variable {l : Lot} {a : AccountObject}

theorem tenth_pos_iff (x : Int) : 0 < x.tdiv percent100 ↔ percent100 ≤ x := by
  rcases le_or_gt 0 x with hpos | hneg
  · rw [Int.tdiv_eq_ediv_of_nonneg hpos]
    unfold percent100
    omega
  · have hquot := Int.tdiv_nonneg (a := -x) (b := percent100) (by omega) (by decide)
    rw [Int.neg_tdiv] at hquot
    unfold percent100 at hquot ⊢
    omega

theorem wrapInt64_eq {x : Int} (h : InInt64 x) : wrapInt64 x = x := by
  unfold wrapInt64
  unfold InInt64 at h
  rw [Int.bmod_def]
  split <;> omega

/-- Where no bid stands, the step is the offer price. -/
theorem minStep_first (h : a.currentBid = 0) : Db.minStep a = a.accountOfferPrice := by
  unfold Db.minStep
  rw [if_pos h]

/-- **The step above a standing bid** is positive exactly where the auction has one. -/
theorem minStep_pos_iff (hs : a.lot.Sound) (hbid : a.currentBid ≠ 0) :
    0 < Db.minStep a ↔ a.lot.Stepped := by
  obtain ⟨-, -, hint, hint', hcases⟩ := hs
  have hbid' : a.lot.bid = a.currentBid := rfl
  have hlast : a.lot.last = a.lastBid := rfl
  have hprice : a.lot.price = a.accountOfferPrice := rfl
  have htenth := tenth_pos_iff (a.accountOfferPrice * accountAuctionMinStep)
  have hnonneg : 0 < a.currentBid ∧ 0 ≤ a.lastBid := by
    cases hcases with
    | inl hnone => exact absurd hnone.1 hbid
    | inr hsome => exact ⟨hsome.1, hsome.2.1⟩
  have hwrap : wrapInt64 (a.currentBid - a.lastBid) = a.currentBid - a.lastBid := by
    apply wrapInt64_eq
    rw [hbid'] at hint
    rw [hlast] at hint'
    unfold InInt64 at hint hint' ⊢
    omega
  unfold Db.minStep Lot.Stepped
  rw [if_neg hbid, hbid', hlast, hprice, ← htenth, hwrap]
  by_cases hzero : a.lastBid = 0
  · rw [if_neg (not_not_intro hzero)]
    omega
  · rw [if_pos hzero, lt_max_iff]
    omega

end Step

namespace Db

/-! ## One bid -/

def lotOf (db : Db) (name : AccountName) : Option Lot := (db.findAccount name).map (·.lot)

def heldBy (db : Db) (name : AccountName) : Option (Int × Int) :=
  (db.findAccount name).map (·.held)

section OneBid

variable {fc : Fc} {db db' : Db} {name : AccountName} {clock : TimePointSec}
  {op : BuyAccountOperation} {a : AccountObject}

theorem findAccount_modify (db : Db) (name n : AccountName) (f : AccountObject → AccountObject)
    (hf : ∀ a, (f a).name = a.name) : (db.modifyAccount name f).findAccount n =
      if n = name then (db.findAccount n).map f else db.findAccount n := by
  by_cases h : n = name
  · rw [if_pos h, h]
    exact Table.get_update_same db.accounts (·.name) name f hf
  · rw [if_neg h]
    exact Table.get_update_ne db.accounts (·.name) f h hf

theorem lotOf_setHeld (db : Db) (n name : AccountName) (r b : Int) :
    (db.modifyAccount n (·.setHeld r b)).lotOf name = db.lotOf name := by
  unfold lotOf
  rw [findAccount_modify db n name (·.setHeld r b) fun _ => rfl]
  split
  · rw [Option.map_map]
    rfl
  · rfl

theorem heldBy_setHeld (db : Db) (n name : AccountName) (r b : Int) :
    (db.modifyAccount n (·.setHeld r b)).heldBy name =
      if name = n then (db.heldBy name).map fun _ => (r, b) else db.heldBy name := by
  unfold heldBy
  rw [findAccount_modify db n name (·.setHeld r b) fun _ => rfl]
  split
  · rw [Option.map_map, Option.map_map]
    rfl
  · rfl

theorem heldBy_withBidOf (db : Db) (clock : TimePointSec) (op : BuyAccountOperation)
    (n name : AccountName) :
    (db.modifyAccount n (·.withBidOf clock op)).heldBy name = db.heldBy name := by
  unfold heldBy
  rw [findAccount_modify db n name (·.withBidOf clock op) fun _ => rfl]
  split
  · rw [Option.map_map]
    rfl
  · rfl

theorem lotOf_withBidOf (db : Db) (clock : TimePointSec) (op : BuyAccountOperation)
    (name : AccountName) :
    (db.modifyAccount name (·.withBidOf clock op)).lotOf name =
      (db.lotOf name).map (·.outbid op) := by
  unfold lotOf
  rw [findAccount_modify db name name (·.withBidOf clock op) fun _ => rfl, if_pos rfl,
    Option.map_map, Option.map_map]
  rfl

/-- The bid goes back to the balance of its bidder. -/
theorem returnBid_spec (ha : db.findAccount name = some a) (h : db.returnBid name = .ok db') :
    ∃ r b, db.heldBy a.currentBidder = some (r, b) ∧
      InInt64 (r - a.currentBid) ∧ InInt64 (b + a.currentBid) ∧
      db' = db.modifyAccount a.currentBidder (·.setHeld (r - a.currentBid) (b + a.currentBid)) := by
  simp only [returnBid, getAccount, bind_eq_ok, getOrThrow_eq_ok, safeSub_eq_ok, safeAdd_eq_ok,
    pure_eq_ok] at h
  obtain ⟨a', ha', q, hq, _, ⟨hr, rfl⟩, _, ⟨hb, rfl⟩, rfl⟩ := h
  rw [ha] at ha'
  cases ha'
  refine ⟨q.reservedBalance, q.balance, ?_, hr, hb, rfl⟩
  unfold heldBy
  rw [hq]
  rfl

/-- What a standing bid leaves its bidder when it is given back. -/
def refunded (db : Db) (l : Lot) (n : AccountName) : Option (Int × Int) :=
  if l.bidder ≠ "" ∧ n = l.bidder then
    (db.heldBy n).map fun held => (held.1 - l.bid, held.2 + l.bid)
  else db.heldBy n

theorem returnBidIf_spec (ha : db.findAccount name = some a)
    (h : db.returnBidIf (a.currentBidder ≠ "") name = .ok db') (n : AccountName) :
    db'.heldBy n = db.refunded a.lot n ∧ db'.lotOf n = db.lotOf n := by
  unfold returnBidIf at h
  unfold refunded
  have hbidder : a.lot.bidder = a.currentBidder := rfl
  have hbid : a.lot.bid = a.currentBid := rfl
  rw [hbidder, hbid]
  split at h
  · rename_i hne
    obtain ⟨r, b, hheld, -, -, rfl⟩ := returnBid_spec ha h
    constructor
    · rw [heldBy_setHeld]
      by_cases hn : n = a.currentBidder
      · rw [if_pos hn, if_pos ⟨hne, hn⟩, hn, hheld]
        rfl
      · rw [if_neg hn, if_neg (fun hboth => hn hboth.2)]
    · exact lotOf_setHeld db a.currentBidder n _ _
  · rename_i hempty
    rw [pure_eq_ok] at h
    rw [if_neg (fun hboth => hempty hboth.1), h]
    exact ⟨rfl, rfl⟩

/-- What the buyer of a bid holds after it: the price moves into the reserve. -/
def reservedBy (op : BuyAccountOperation) (n : AccountName) (held : Int × Int) : Int × Int :=
  if n = op.buyer then
    (held.1 + op.accountOfferPrice.amount, held.2 - op.accountOfferPrice.amount)
  else held

/-- **An accepted bid** exceeds the standing one by the step.  The standing bid goes back to its
bidder, and the new one into the reserve of the buyer. -/
theorem bidAccount_spec (ha : db.findAccount op.account = some a)
    (h : db.bidAccount clock op a = .ok db') :
    a.currentBid + minStep a ≤ op.accountOfferPrice.amount ∧
      db'.lotOf op.account = some (a.lot.outbid op) ∧
      ∀ n, db'.heldBy n = (db.refunded a.lot n).map (reservedBy op n) := by
  simp only [bidAccount, reserveBid, reservedAmounts, getAccount, bind_eq_ok, getOrThrow_eq_ok,
    fcAssert_eq_ok, safeSub_eq_ok, safeAdd_eq_ok, pure_eq_ok] at h
  obtain ⟨_, ⟨-, rfl⟩, _, hleast, db₁, hreturn, _, ⟨q, hq, _, ⟨-, rfl⟩, _, ⟨-, rfl⟩, rfl⟩, rfl⟩ := h
  have hspec := returnBidIf_spec ha hreturn
  have hbuyer : (db₁.heldBy op.buyer) = some q.held := by
    rw [← heldBy_withBidOf db₁ clock op op.account op.buyer]
    unfold heldBy
    rw [hq]
    rfl
  refine ⟨hleast, ?_, fun n => ?_⟩
  · have hlot := lotOf_setHeld (db₁.modifyAccount op.account (·.withBidOf clock op)) op.buyer
      op.account (q.reservedBalance + op.accountOfferPrice.amount)
      (q.balance - op.accountOfferPrice.amount)
    refine hlot.trans ?_
    rw [lotOf_withBidOf, (hspec op.account).2]
    unfold lotOf
    rw [ha]
    rfl
  · have hheld := heldBy_setHeld (db₁.modifyAccount op.account (·.withBidOf clock op)) op.buyer n
      (q.reservedBalance + op.accountOfferPrice.amount)
      (q.balance - op.accountOfferPrice.amount)
    refine hheld.trans ?_
    rw [heldBy_withBidOf, ← (hspec n).1]
    unfold reservedBy
    by_cases hn : n = op.buyer
    · rw [if_pos hn, hn, hbuyer, Option.map_some, Option.map_some, if_pos rfl]
      rfl
    · rw [if_neg hn]
      simp only [if_neg hn, Option.map_id']

/-- A bid that is high enough is accepted where the reserves and balances stay within 64 bits. -/
theorem bidAccount_accepted {r b : Int} (ha : db.findAccount op.account = some a)
    (hint : InInt64 (a.currentBid + minStep a))
    (hleast : a.currentBid + minStep a ≤ op.accountOfferPrice.amount)
    (hback : a.currentBidder ≠ "" → ∃ r b, db.heldBy a.currentBidder = some (r, b) ∧
      InInt64 (r - a.currentBid) ∧ InInt64 (b + a.currentBid))
    (hheld : db.refunded a.lot op.buyer = some (r, b))
    (hr : InInt64 (r + op.accountOfferPrice.amount))
    (hb : InInt64 (b - op.accountOfferPrice.amount)) :
    ∃ db', db.bidAccount clock op a = .ok db' := by
  have hreturn : ∃ db₁, db.returnBidIf (a.currentBidder ≠ "") op.account = .ok db₁ := by
    unfold returnBidIf
    by_cases hne : a.currentBidder ≠ ""
    · rw [if_pos hne]
      obtain ⟨r', b', hheld', hr', hb'⟩ := hback hne
      unfold heldBy at hheld'
      obtain ⟨q, hq, hpair⟩ := Option.map_eq_some_iff.mp hheld'
      have hr'' : q.reservedBalance = r' := congrArg Prod.fst hpair
      have hb'' : q.balance = b' := congrArg Prod.snd hpair
      simp only [returnBid, getAccount, bind_eq_ok, getOrThrow_eq_ok, safeSub_eq_ok,
        safeAdd_eq_ok, pure_eq_ok]
      rw [← hr''] at hr'
      rw [← hb''] at hb'
      exact ⟨_, a, ha, q, hq, _, ⟨hr', rfl⟩, _, ⟨hb', rfl⟩, rfl⟩
    · rw [if_neg hne]
      exact ⟨db, rfl⟩
  obtain ⟨db₁, hreturn⟩ := hreturn
  have hafter := heldBy_withBidOf db₁ clock op op.account op.buyer
  rw [(returnBidIf_spec ha hreturn op.buyer).1, hheld] at hafter
  obtain ⟨q, hq, hpair⟩ := Option.map_eq_some_iff.mp hafter
  have hr' : q.reservedBalance = r := congrArg Prod.fst hpair
  have hb' : q.balance = b := congrArg Prod.snd hpair
  rw [← hr'] at hr
  rw [← hb'] at hb
  simp only [bidAccount, reserveBid, reservedAmounts, getAccount, bind_eq_ok, getOrThrow_eq_ok,
    fcAssert_eq_ok, safeSub_eq_ok, safeAdd_eq_ok, pure_eq_ok]
  exact ⟨_, _, ⟨hint, rfl⟩, (), hleast, db₁, hreturn, _, ⟨q, hq, _, ⟨hr, rfl⟩, _, ⟨hb, rfl⟩, rfl⟩,
    rfl⟩

/-- What an accepted bid has found of the balances. -/
theorem bidAccount_ranges (ha : db.findAccount op.account = some a)
    (h : db.bidAccount clock op a = .ok db') :
    (a.currentBidder ≠ "" → ∃ r b, db.heldBy a.currentBidder = some (r, b) ∧
      InInt64 (r - a.currentBid) ∧ InInt64 (b + a.currentBid)) ∧
    ∃ r b, db.refunded a.lot op.buyer = some (r, b) ∧
      InInt64 (r + op.accountOfferPrice.amount) ∧ InInt64 (b - op.accountOfferPrice.amount) := by
  simp only [bidAccount, reserveBid, reservedAmounts, getAccount, bind_eq_ok, getOrThrow_eq_ok,
    fcAssert_eq_ok, safeSub_eq_ok, safeAdd_eq_ok, pure_eq_ok] at h
  obtain ⟨_, ⟨-, rfl⟩, _, -, db₁, hreturn, _, ⟨q, hq, _, ⟨hr, rfl⟩, _, ⟨hb, rfl⟩, rfl⟩, rfl⟩ := h
  constructor
  · intro hne
    unfold returnBidIf at hreturn
    rw [if_pos hne] at hreturn
    obtain ⟨r, b, hheld, hr, hb, -⟩ := returnBid_spec ha hreturn
    exact ⟨r, b, hheld, hr, hb⟩
  · refine ⟨q.reservedBalance, q.balance, ?_, hr, hb⟩
    rw [← (returnBidIf_spec ha hreturn op.buyer).1,
      ← heldBy_withBidOf db₁ clock op op.account op.buyer]
    unfold heldBy
    rw [hq]
    rfl

/-! ## Bids through `buy_account` -/

/-- The checks of `buy_account` before it comes to the bid. -/
structure Admits (db : Db) (op : BuyAccountOperation) (a : AccountObject) : Prop where
  buyer : ∃ b, db.findAccount op.buyer = some b
  key : op.accountAuthoritiesKey ≠ 0
  fee : db.medianProps.accountCreationFee.amount ≤ op.tokensToShares.amount
  authority : ∃ auth, db.accountAuthorities.get (·.account) op.account = some auth
  onSale : a.accountOnSale = true
  recovery : (db.accountRecoveryRequests.get (·.accountToRecover) op.account).isNone = true
  target : a.targetBuyer = "" ∨ a.targetBuyer = op.buyer
  running : db.headBlockTime < a.accountOnSaleStartTime

theorem buyAccount_bid_iff (ha : db.findAccount op.account = some a)
    (hrunning : db.headBlockTime < a.accountOnSaleStartTime) :
    buyAccount fc clock db op = .ok db' ↔ db.Admits op a ∧ db.bidAccount clock op a = .ok db' := by
  simp only [buyAccount, buyExisting, getAccount, getAuthority, ha, if_pos hrunning, bind_eq_ok,
    getOrThrow_eq_ok, fcAssert_eq_ok]
  constructor
  · rintro ⟨b, hb, _, hkey, _, hfee, auth, hauth, _, honsale, _, hrecovery, _, htarget, h⟩
    exact ⟨⟨⟨b, hb⟩, hkey, hfee, ⟨auth, hauth⟩, honsale, hrecovery, htarget, hrunning⟩, h⟩
  · rintro ⟨⟨⟨b, hb⟩, hkey, hfee, ⟨auth, hauth⟩, honsale, hrecovery, htarget, -⟩, h⟩
    exact ⟨b, hb, (), hkey, (), hfee, auth, hauth, (), honsale, (), hrecovery, (), htarget, h⟩

/-- The next state has the same accounts on the same terms of sale, for no shorter a time. -/
structure Continues (db db' : Db) : Prop where
  rest : ∃ accounts, db' = { db with accounts := accounts }
  rows : ∀ n a, db.findAccount n = some a → ∃ a', db'.findAccount n = some a' ∧
    a'.accountOnSale = a.accountOnSale ∧ a'.targetBuyer = a.targetBuyer ∧
    a.accountOnSaleStartTime ≤ a'.accountOnSaleStartTime

theorem Continues.refl (db : Db) : db.Continues db :=
  ⟨⟨db.accounts, rfl⟩, fun _ a ha => ⟨a, ha, rfl, rfl, le_rfl⟩⟩

theorem Continues.trans {db₁ db₂ db₃ : Db} (h : db₁.Continues db₂) (h' : db₂.Continues db₃) :
    db₁.Continues db₃ := by
  constructor
  · obtain ⟨t, ht⟩ := h.rest
    obtain ⟨t', ht'⟩ := h'.rest
    exact ⟨t', by rw [ht', ht]⟩
  · intro n a ha
    obtain ⟨b, hb, honsale, htarget, hstart⟩ := h.rows n a ha
    obtain ⟨c, hc, honsale', htarget', hstart'⟩ := h'.rows n b hb
    exact ⟨c, hc, honsale'.trans honsale, htarget'.trans htarget, hstart.trans hstart'⟩

theorem Continues.modify (db : Db) (name : AccountName) (f : AccountObject → AccountObject)
    (hf : ∀ a, (f a).name = a.name ∧ (f a).accountOnSale = a.accountOnSale ∧
      (f a).targetBuyer = a.targetBuyer ∧ a.accountOnSaleStartTime ≤ (f a).accountOnSaleStartTime) :
    db.Continues (db.modifyAccount name f) := by
  constructor
  · exact ⟨db.accounts.update (·.name) name f, rfl⟩
  · intro n a ha
    rw [findAccount_modify db name n f fun a => (hf a).1, ha]
    split
    · exact ⟨f a, rfl, (hf a).2⟩
    · exact ⟨a, rfl, rfl, rfl, le_rfl⟩

theorem bidAccount_continues (ha : db.findAccount op.account = some a)
    (h : db.bidAccount clock op a = .ok db') : db.Continues db' := by
  simp only [bidAccount, reserveBid, reservedAmounts, getAccount, bind_eq_ok, getOrThrow_eq_ok,
    fcAssert_eq_ok, safeSub_eq_ok, safeAdd_eq_ok, pure_eq_ok] at h
  obtain ⟨_, ⟨-, rfl⟩, _, -, db₁, hreturn, _, ⟨q, hq, _, ⟨-, rfl⟩, _, ⟨-, rfl⟩, rfl⟩, rfl⟩ := h
  have hreturned : db.Continues db₁ := by
    unfold returnBidIf at hreturn
    split at hreturn
    · obtain ⟨r, b, -, -, -, rfl⟩ := returnBid_spec ha hreturn
      exact .modify db _ _ fun _ => ⟨rfl, rfl, rfl, le_rfl⟩
    · rw [pure_eq_ok] at hreturn
      rw [← hreturn]
      exact .refl db
  have hbid : db₁.Continues (db₁.modifyAccount op.account (·.withBidOf clock op)) :=
    .modify db₁ _ _ fun _ => ⟨rfl, rfl, rfl, le_max_left _ _⟩
  exact (hreturned.trans hbid).trans (.modify _ _ _ fun _ => ⟨rfl, rfl, rfl, le_rfl⟩)

/-- Whoever could bid can bid again. -/
theorem Admits.again {a' : AccountObject} {x : Asset} (h : db.Admits op a) (hc : db.Continues db')
    (ha : db.findAccount op.account = some a) (ha' : db'.findAccount op.account = some a') :
    db'.Admits { op with accountOfferPrice := x } a' := by
  obtain ⟨accounts, hrest⟩ := hc.rest
  obtain ⟨a₁, ha₁, honsale, htarget, hstart⟩ := hc.rows op.account a ha
  rw [ha'] at ha₁
  cases ha₁
  obtain ⟨b, hb⟩ := h.buyer
  obtain ⟨b', hb', -⟩ := hc.rows op.buyer b hb
  constructor
  · exact ⟨b', hb'⟩
  · exact h.key
  · rw [hrest]
    exact h.fee
  · rw [hrest]
    exact h.authority
  · rw [honsale]
    exact h.onSale
  · rw [hrest]
    exact h.recovery
  · rw [htarget]
    exact h.target
  · refine lt_of_lt_of_le ?_ hstart
    rw [hrest]
    exact h.running

end OneBid

/-! ## Sequences of bids -/

section Bidding

variable {fc : Fc} {name : AccountName}

/-- A bid on the account that the evaluator accepts. -/
structure Bid (fc : Fc) (name : AccountName) (clock : TimePointSec) (db : Db)
    (op : BuyAccountOperation) (db' : Db) : Prop where
  account : op.account = name
  valid : op.validate = .ok ()
  price : InInt64 op.accountOfferPrice.amount
  running : ∃ a, db.findAccount name = some a ∧ db.headBlockTime < a.accountOnSaleStartTime
  accepted : buyAccount fc clock db op = .ok db'

/-- The bids on one account, in their order.  Between them anything may happen that leaves its
auction alone. -/
inductive Bidding (fc : Fc) (name : AccountName) (db : Db) : List BuyAccountOperation → Db → Prop
  | start : Bidding fc name db [] db
  | wait {ops : List BuyAccountOperation} {db₁ db₂ : Db} : Bidding fc name db ops db₁ →
      db₂.lotOf name = db₁.lotOf name → Bidding fc name db ops db₂
  | bid {ops : List BuyAccountOperation} {db₁ db₂ : Db} {clock : TimePointSec}
      {op : BuyAccountOperation} : Bidding fc name db ops db₁ → Bid fc name clock db₁ op db₂ →
      Bidding fc name db (ops ++ [op]) db₂

/-- The bid `op` beats the one that stands in `l`: the first bid is no less than the offer price,
the next one exceeds the bid that it replaces, and the bidder gets that bid back, of which it may
reserve a part again. -/
structure Outbids (l : Lot) (op : BuyAccountOperation) (db db' : Db) : Prop where
  first : l.bid = 0 → l.price ≤ op.accountOfferPrice.amount
  next : l.bid ≠ 0 → l.bid < op.accountOfferPrice.amount
  refund : l.bid ≠ 0 → ∃ r b, db.heldBy l.bidder = some (r, b) ∧
    db'.heldBy l.bidder = some (reservedBy op l.bidder (r - l.bid, b + l.bid))

variable {db db' : Db} {l : Lot} {a : AccountObject} {op : BuyAccountOperation}
  {clock : TimePointSec} {ops : List BuyAccountOperation}

theorem lotOf_eq_some (h : db.lotOf name = some l) :
    ∃ a, db.findAccount name = some a ∧ a.lot = l := by
  unfold lotOf at h
  exact Option.map_eq_some_iff.mp h

/-- What one bid of a sequence does. -/
theorem Bid.step (h : Bid fc name clock db op db') (ha : db.findAccount name = some a) :
    db.Admits op a ∧ db.bidAccount clock op a = .ok db' := by
  obtain ⟨a', ha', hrunning⟩ := h.running
  rw [ha] at ha'
  cases ha'
  rw [← h.account] at ha
  exact (buyAccount_bid_iff ha hrunning).mp h.accepted

theorem Bid.lotOf (h : Bid fc name clock db op db') (hl : db.lotOf name = some l) :
    db'.lotOf name = some (l.outbid op) := by
  obtain ⟨a, ha, rfl⟩ := lotOf_eq_some hl
  have hstep := (h.step ha).2
  rw [← h.account] at ha ⊢
  exact (bidAccount_spec ha hstep).2.1

/-- The auction holds the last bid of the sequence. -/
theorem Bidding.lotOf {db₁ : Db} (h : Bidding fc name db ops db₁) (hl : db.lotOf name = some l) :
    db₁.lotOf name = some (ops.foldl Lot.outbid l) := by
  induction h with
  | start => exact hl
  | wait _ hsame ih => rw [hsame, ih]
  | bid _ hbid ih =>
    rw [List.foldl_append]
    exact hbid.lotOf ih

theorem Bid.sound (h : Bid fc name clock db op db') (hs : l.Sound) : (l.outbid op).Sound := by
  obtain ⟨hprice, hprice', hbid, hlast, hcases⟩ := hs
  obtain ⟨hbuyer, hpositive, -⟩ := buyAccount_validated h.valid
  refine ⟨hprice, hprice', h.price, ?_, Or.inr ⟨hpositive, ?_, hbuyer⟩⟩
  · dsimp only [Lot.outbid]
    split
    · exact hbid
    · exact hlast
  · dsimp only [Lot.outbid]
    split <;> omega

/-- **A bid in an auction that has a step.** -/
theorem Bid.outbids (h : Bid fc name clock db op db') (hl : db.lotOf name = some l)
    (hs : l.Sound) (hstep : l.Stepped) : Outbids l op db db' := by
  obtain ⟨a, ha, rfl⟩ := lotOf_eq_some hl
  have hrun := (h.step ha).2
  rw [← h.account] at ha
  obtain ⟨hleast, -, hheld⟩ := bidAccount_spec ha hrun
  constructor
  · intro hzero
    rw [minStep_first hzero] at hleast
    have hzero' : a.currentBid = 0 := hzero
    show a.accountOfferPrice ≤ _
    omega
  · intro hne
    have hpos := (minStep_pos_iff hs hne).mpr hstep
    show a.currentBid < _
    omega
  · intro hne
    have hbidder : a.lot.bidder ≠ "" := by
      obtain ⟨-, -, -, -, hcases⟩ := hs
      cases hcases with
      | inl hnone => exact absurd hnone.1 hne
      | inr hsome => exact hsome.2.2
    obtain ⟨⟨r, b, hback, -⟩, -⟩ := (bidAccount_ranges ha hrun).imp_left fun hall => hall hbidder
    refine ⟨r, b, hback, ?_⟩
    rw [hheld a.lot.bidder]
    unfold refunded
    rw [if_pos ⟨hbidder, rfl⟩]
    have hback' : db.heldBy a.lot.bidder = some (r, b) := hback
    rw [hback']
    rfl

theorem Outbids.stepped (h : Outbids l op db db') (hs : l.Sound) (hstep : l.Stepped) :
    (l.outbid op).Stepped := by
  cases hstep with
  | inl htenth => exact Or.inl htenth
  | inr hdiff =>
    apply Or.inr
    have hnext := h.next (by omega)
    dsimp only [Lot.outbid]
    split <;> omega

theorem Bidding.stepped {db₁ : Db} (h : Bidding fc name db ops db₁) (hl : db.lotOf name = some l)
    (hs : l.Sound) (hstep : l.Stepped) :
    (ops.foldl Lot.outbid l).Sound ∧ (ops.foldl Lot.outbid l).Stepped := by
  induction h with
  | start => exact ⟨hs, hstep⟩
  | wait _ _ ih => exact ih
  | bid hrun hbid ih =>
    rw [List.foldl_append]
    have hbeats := hbid.outbids (hrun.lotOf hl) ih.1 ih.2
    exact ⟨hbid.sound ih.1, hbeats.stepped ih.1 ih.2⟩

/-! ## Without a step -/

theorem minStep_nonneg (hs : a.lot.Sound) (hbid : a.currentBid ≠ 0) : 0 ≤ minStep a := by
  have hprice : 0 < a.accountOfferPrice := hs.1
  have htenth : 0 ≤ (a.accountOfferPrice * accountAuctionMinStep).tdiv percent100 := by
    apply Int.tdiv_nonneg
    · unfold accountAuctionMinStep
      omega
    · decide
  unfold minStep
  rw [if_neg hbid]
  split
  · exact htenth.trans (le_max_left _ _)
  · exact htenth

/-- **A bid without a step.**  The same price is accepted again. -/
theorem bid_equal {r b : Int} (ha : db.findAccount op.account = some a) (hs : a.lot.Sound)
    (hbid : a.currentBid ≠ 0) (hstep : ¬ a.lot.Stepped) (hadmits : db.Admits op a)
    (hback : ∃ r b, db.heldBy a.currentBidder = some (r, b) ∧
      InInt64 (r - a.currentBid) ∧ InInt64 (b + a.currentBid))
    (hheld : db.refunded a.lot op.buyer = some (r, b)) (hr : InInt64 (r + a.currentBid))
    (hb : InInt64 (b - a.currentBid)) (hprice : op.accountOfferPrice.amount = a.currentBid) :
    ∃ db', buyAccount fc clock db op = .ok db' := by
  rw [← minStep_pos_iff hs hbid] at hstep
  have hge := minStep_nonneg hs hbid
  obtain ⟨-, -, hint, -, hcases⟩ := hs
  have hpos : 0 < a.currentBid := by
    cases hcases with
    | inl hnone => exact absurd hnone.1 hbid
    | inr hsome => exact hsome.1
  have hsum : InInt64 (a.currentBid + minStep a) := by
    have hint' : InInt64 a.currentBid := hint
    unfold InInt64 at hint' ⊢
    omega
  rw [← hprice] at hr hb
  have haccepted : ∃ db', db.bidAccount clock op a = .ok db' :=
    bidAccount_accepted ha hsum (by omega) (fun _ => hback) hheld hr hb
  obtain ⟨db', hdb'⟩ := haccepted
  exact ⟨db', (buyAccount_bid_iff ha hadmits.running).mpr ⟨hadmits, hdb'⟩⟩

/-- The operation with another price. -/
def atPrice (op : BuyAccountOperation) (x : Int) : BuyAccountOperation :=
  { op with accountOfferPrice := { op.accountOfferPrice with amount := x } }

theorem validate_atPrice {x : Int} (h : op.validate = .ok ()) (hx : 0 < x) :
    (atPrice op x).validate = .ok () := by
  simp only [BuyAccountOperation.validate, validatePrice, List.forM_eq_forM, List.forM_cons,
    bind_eq_ok, fcAssert_eq_ok] at h ⊢
  obtain ⟨_, hnames, _, ⟨_, hsymbol, -⟩, hshares⟩ := h
  exact ⟨(), hnames, (), ⟨(), hsymbol, hx⟩, hshares⟩

/-- The reserves and balances are 64-bit numbers. -/
def HeldFits (db : Db) : Prop :=
  ∀ n r b, db.heldBy n = some (r, b) → InInt64 r ∧ InInt64 b

/-- Where no bid stands, the first bid is accepted twice. -/
theorem bid_twice (hfits : db.HeldFits) (ha : db.findAccount name = some a) (hs : a.lot.Sound)
    (hstep : ¬ a.lot.Stepped) (hzero : a.currentBid = 0) (h : Bid fc name clock db op db') :
    ∃ db'', Bid fc name clock db' op db'' := by
  obtain ⟨hadmits, hrun⟩ := h.step ha
  have hlot' := h.lotOf (l := a.lot) (by unfold lotOf; rw [ha]; rfl)
  obtain ⟨a', ha', hlot⟩ := lotOf_eq_some hlot'
  obtain ⟨hbuyer, hpositive, -⟩ := buyAccount_validated h.valid
  have hs' : a'.lot.Sound := by
    rw [hlot]
    exact h.sound hs
  obtain ⟨-, -, -, -, hcases⟩ := hs
  obtain ⟨-, hlast, hfree⟩ : a.lot.bid = 0 ∧ a.lot.last = 0 ∧ a.lot.bidder = "" := by
    cases hcases with
    | inl hnone => exact hnone
    | inr hsome => exact absurd hzero (Int.ne_of_gt hsome.1)
  have hbid' : a'.currentBid = op.accountOfferPrice.amount := congrArg Lot.bid hlot
  have hbidder' : a'.currentBidder = op.buyer := congrArg Lot.bidder hlot
  have hstep' : ¬ a'.lot.Stepped := by
    rw [hlot]
    intro hstepped
    cases hstepped with
    | inl htenth => exact hstep (Or.inl htenth)
    | inr hdiff =>
      dsimp only [Lot.outbid] at hdiff
      rw [if_neg (fun hboth => hboth.1 hfree), hlast] at hdiff
      omega
  have hname := h.account
  subst hname
  obtain ⟨-, -, hheld⟩ := bidAccount_spec ha hrun
  obtain ⟨-, r, b, hheld₀, hr, hb⟩ := bidAccount_ranges ha hrun
  have hheld' : db'.heldBy op.buyer =
      some (r + op.accountOfferPrice.amount, b - op.accountOfferPrice.amount) := by
    rw [hheld op.buyer, hheld₀, Option.map_some]
    unfold reservedBy
    rw [if_pos rfl]
  have hbefore : db.heldBy op.buyer = some (r, b) := by
    unfold refunded at hheld₀
    rwa [if_neg (fun hboth => hboth.1 hfree)] at hheld₀
  obtain ⟨hr₀, hb₀⟩ := hfits op.buyer r b hbefore
  have hagain : db'.Admits op a' := hadmits.again (bidAccount_continues ha hrun) ha ha'
  have hrefunded : db'.refunded a'.lot op.buyer = some (r, b) := by
    unfold refunded
    have hbidder : a'.lot.bidder = op.buyer := hbidder'
    have hbid : a'.lot.bid = op.accountOfferPrice.amount := hbid'
    rw [hbidder, hbid, if_pos ⟨hbuyer, rfl⟩, hheld', Option.map_some]
    simp only [add_sub_cancel_right, sub_add_cancel]
  have haccepted : ∃ db'', buyAccount fc clock db' op = .ok db'' := by
    refine bid_equal ha' hs' (by omega) hstep' hagain ?_ hrefunded ?_ ?_ hbid'.symm
    · rw [hbidder', hbid']
      refine ⟨_, _, hheld', ?_, ?_⟩
      · rwa [add_sub_cancel_right]
      · rwa [sub_add_cancel]
    · rwa [hbid']
    · rwa [hbid']
  obtain ⟨db'', hdb''⟩ := haccepted
  exact ⟨db'', rfl, h.valid, h.price, ⟨a', ha', hagain.running⟩, hdb''⟩

/-- Where a bid stands, another one of the same price is accepted. -/
theorem bid_same (hfits : db.HeldFits) (ha : db.findAccount name = some a) (hs : a.lot.Sound)
    (hstep : ¬ a.lot.Stepped) (hbid : a.currentBid ≠ 0) (h : Bid fc name clock db op db')
    (hhigher : a.currentBid < op.accountOfferPrice.amount) :
    ∃ db'', Bid fc name clock db (atPrice op a.currentBid) db'' := by
  obtain ⟨hadmits, hrun⟩ := h.step ha
  have hname := h.account
  subst hname
  have hs' := hs
  obtain ⟨-, -, hint, -, hcases⟩ := hs'
  obtain ⟨hpos, hbidder⟩ : 0 < a.lot.bid ∧ a.lot.bidder ≠ "" := by
    cases hcases with
    | inl hnone => exact absurd hnone.1 hbid
    | inr hsome => exact ⟨hsome.1, hsome.2.2⟩
  have hpos' : 0 < a.currentBid := hpos
  obtain ⟨hback, r, b, hheld, hr, hb⟩ := bidAccount_ranges ha hrun
  obtain ⟨r', b', hheld', hr', hb'⟩ := hback hbidder
  have hfits' : InInt64 r ∧ InInt64 b := by
    unfold refunded at hheld
    split at hheld
    · rename_i hboth
      have hheld'' : db.heldBy a.lot.bidder = some (r', b') := hheld'
      rw [hboth.2, hheld''] at hheld
      cases hheld
      exact ⟨hr', hb'⟩
    · exact hfits op.buyer r b hheld
  have hadmits' : db.Admits (atPrice op a.currentBid) a := hadmits.again (.refl db) ha ha
  have haccepted : ∃ db'', buyAccount fc clock db (atPrice op a.currentBid) = .ok db'' := by
    have hprice : (atPrice op a.currentBid).accountOfferPrice.amount = a.currentBid := rfl
    refine bid_equal ha hs hbid hstep hadmits' ⟨r', b', hheld', hr', hb'⟩ hheld ?_ ?_ hprice
    · unfold InInt64 at *
      omega
    · unfold InInt64 at *
      omega
  obtain ⟨db'', hdb''⟩ := haccepted
  exact ⟨db'', rfl, validate_atPrice h.valid hpos', hint, ⟨a, ha, hadmits.running⟩, hdb''⟩

/-- **The bids of an auction rise exactly where it has a step.**  From a state in which somebody
can bid, every accepted bid beats the one before, whatever the sequence, if and only if the tenth
of the offer price is positive or the last two bids of different bidders differ. -/
theorem bids_rise_iff (ha : db.findAccount name = some a) (hs : a.lot.Sound)
    (hfits : db.HeldFits) (hopen : ∃ clock op db', Bid fc name clock db op db') :
    (∀ ops db₁ clock op db₂, Bidding fc name db ops db₁ → Bid fc name clock db₁ op db₂ →
      Outbids (ops.foldl Lot.outbid a.lot) op db₁ db₂) ↔ a.lot.Stepped := by
  have hl : db.lotOf name = some a.lot := by
    unfold lotOf
    rw [ha]
    rfl
  constructor
  · intro hall
    by_contra hstep
    obtain ⟨clock, op, db', hfirst⟩ := hopen
    by_cases hzero : a.currentBid = 0
    · obtain ⟨db'', hsecond⟩ := bid_twice hfits ha hs hstep hzero hfirst
      have hbeats := hall [op] db' clock op db'' (.bid .start hfirst) hsecond
      obtain ⟨-, hpositive, -⟩ := buyAccount_validated hfirst.valid
      exact absurd (hbeats.next (Int.ne_of_gt hpositive)) (lt_irrefl _)
    · have hhigher := (hall [] db clock op db' .start hfirst).next hzero
      obtain ⟨db'', hsecond⟩ := bid_same hfits ha hs hstep hzero hfirst hhigher
      have hbeats := hall [] db clock _ db'' .start hsecond
      exact absurd (hbeats.next hzero) (lt_irrefl _)
  · intro hstep ops db₁ clock op db₂ hrun hbid
    obtain ⟨hs', hstep'⟩ := hrun.stepped hl hs hstep
    exact hbid.outbids (hrun.lotOf hl) hs' hstep'

end Bidding

end Db

/-! ## Two auctions -/

/-- carol's account is for sale at `price`; bob and dave have tokens. -/
def lotDb (price : Int) : Db :=
  (smallStore [{ id := 4, name := "bob", balance := 5000 },
    { id := 5, name := "dave", balance := 5000 },
    { id := 6, name := "carol", accountOnSale := true, accountSeller := "carol"
      accountOfferPrice := price, accountOnSaleStartTime := 1000 }]).db

def lotBid (buyer : AccountName) (price : Int) : BuyAccountOperation :=
  { buyer := buyer, account := "carol", accountOfferPrice := ⟨price, tokenSymbol⟩
    accountAuthoritiesKey := 7, tokensToShares := ⟨1000, tokenSymbol⟩ }

theorem lotDb_heldFits (price : Int) : (lotDb price).HeldFits := by
  have hrows : (lotDb price).accounts.rows.all fun a =>
      decide (InInt64 a.reservedBalance ∧ InInt64 a.balance) := by rfl
  rw [List.all_eq_true] at hrows
  intro n r b hheld
  unfold Db.heldBy at hheld
  obtain ⟨a, ha, hpair⟩ := Option.map_eq_some_iff.mp hheld
  have hfits := of_decide_eq_true (hrows a (Table.get_mem ha))
  have hr : a.reservedBalance = r := congrArg Prod.fst hpair
  have hb : a.balance = b := congrArg Prod.snd hpair
  rw [hr, hb] at hfits
  exact hfits

/-- At a price of twenty the step is two, and bob's bid of twenty is the first. -/
theorem bids_rise_iff_twenty :
    ∃ db', Db.buyAccount smallEnv.fc 0 (lotDb 20) (lotBid "bob" 20) = .ok db' ∧
      Db.Outbids ⟨20, 0, 0, ""⟩ (lotBid "bob" 20) (lotDb 20) db' := by
  have hfind : returns (Db.buyAccount smallEnv.fc 0 (lotDb 20) (lotBid "bob" 20)) (fun _ => true) =
      true := by decide +kernel
  obtain ⟨db', hdb', -⟩ := returns_eq_true hfind
  have ha : ∃ a, (lotDb 20).findAccount "carol" = some a ∧ a.lot = ⟨20, 0, 0, ""⟩ ∧
      (lotDb 20).headBlockTime < a.accountOnSaleStartTime := ⟨_, rfl, rfl, by decide⟩
  obtain ⟨a, ha, hlot, hrunning⟩ := ha
  have hs : a.lot.Sound := by
    rw [hlot]
    decide
  have hstep : a.lot.Stepped := by
    rw [hlot]
    decide
  have hbid : Db.Bid smallEnv.fc "carol" 0 (lotDb 20) (lotBid "bob" 20) db' :=
    ⟨rfl, by decide +kernel, by decide, ⟨a, ha, hrunning⟩, hdb'⟩
  have hall := (Db.bids_rise_iff ha hs (lotDb_heldFits 20) ⟨0, lotBid "bob" 20, db', hbid⟩).mpr hstep
  rw [hlot] at hall
  exact ⟨db', hdb', hall [] (lotDb 20) 0 (lotBid "bob" 20) db' .start hbid⟩

/-- At a price of five there is no step: dave takes bob's place with the same bid. -/
theorem bids_equal_five :
    ∃ db₁ db₂, Db.Bidding smallEnv.fc "carol" (lotDb 5) [lotBid "bob" 5] db₁ ∧
      Db.Bid smallEnv.fc "carol" 0 db₁ (lotBid "dave" 5) db₂ ∧
      ¬ Db.Outbids ([lotBid "bob" 5].foldl Lot.outbid ⟨5, 0, 0, ""⟩) (lotBid "dave" 5) db₁ db₂ := by
  have hrun : returns (do
      let db₁ ← Db.buyAccount smallEnv.fc 0 (lotDb 5) (lotBid "bob" 5)
      let db₂ ← Db.buyAccount smallEnv.fc 0 db₁ (lotBid "dave" 5)
      let a ← db₁.getAccount "carol"
      return (db₁, db₂, a)) (fun r => decide (r.1.headBlockTime < r.2.2.accountOnSaleStartTime)) =
        true := by
    decide +kernel
  obtain ⟨⟨db₁, db₂, a⟩, hdbs, hrunning⟩ := returns_eq_true hrun
  simp only [bind_eq_ok, pure_eq_ok] at hdbs
  obtain ⟨db₁', hfirst, db₂', hsecond, a', ha, hpair⟩ := hdbs
  cases hpair
  rw [Db.getAccount, getOrThrow_eq_ok] at ha
  refine ⟨db₁, db₂, ?_, ?_, ?_⟩
  · exact Db.Bidding.bid Db.Bidding.start
      ⟨rfl, by decide +kernel, by decide, ⟨_, rfl, by decide⟩, hfirst⟩
  · exact ⟨rfl, by decide +kernel, by decide, ⟨a, ha, of_decide_eq_true hrunning⟩, hsecond⟩
  · intro hbeats
    exact absurd (hbeats.next (by decide)) (by decide)


end VizCore.Chain
