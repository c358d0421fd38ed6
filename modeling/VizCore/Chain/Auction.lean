import VizCore.Chain.Invariant

/-!
# Auctions

What an account has reserved is the sum of its bids.  A bid is reserved when it is placed,
and it is released when it is outbid, when the sale is cancelled or when the auction ends.

* `AuctionBook.refund`, `AuctionBook.place`: the two changes of the book of bids;
* `reserves_preserved`: everything that the chain does keeps the reserves equal to the bids.
-/

namespace VizCore.Chain

open VizCore.Lib VizCore.Protocol

namespace AuctionRow

def release (r : AuctionRow) (x : Int) : AuctionRow := { r with reserved := r.reserved - x }

/-- The row with another bid, or with none. -/
def setBid (r : AuctionRow) (onAuction : Bool) (bid : Int) (bidder : AccountName) : AuctionRow :=
  { r with onAuction := onAuction, bid := bid, bidder := bidder }

/-- A bid has a bidder and stands in an auction. -/
def Standing (r : AuctionRow) : Prop :=
  (r.bidder ≠ "" ↔ 0 < r.bid) ∧ (r.bidder ≠ "" → r.onAuction = true)

end AuctionRow

/-- The book of the bids: the reserve of every name is the sum of its bids. -/
structure AuctionBook (t : Table AuctionRow) : Prop where
  reserved : ∀ n, n ≠ "" → t.field (·.name) (·.reserved) n = t.total (·.bidder) (·.bid) n
  standing : t.All AuctionRow.Standing

namespace AuctionBook

variable {t : Table AuctionRow} {name : AccountName}

theorem enroll (h : AuctionBook t) (hnew : t.get (·.name) name = none) {mk : Nat → AuctionRow}
    (hmk : ∀ id, mk id = ⟨name, 0, false, 0, ""⟩) : AuctionBook (t.create mk) := by
  constructor
  · intro n hn
    have hname : (mk t.nextId).name = name := by rw [hmk]
    rw [Table.field_create hnew (·.reserved) hname, Table.total_create, hmk, h.reserved n hn]
    simp
  · refine Table.all_create h.standing ?_
    rw [hmk]
    exact ⟨by simp, fun hne => absurd rfl hne⟩

/-- Where nobody bids, the auction can be forgotten. -/
theorem forget (h : AuctionBook t) {r : AuctionRow} (hr : t.get (·.name) name = some r)
    (hfree : r.bidder = "") : AuctionBook (t.update (·.name) name (·.setBid false 0 "")) := by
  constructor
  · intro n hn
    have hfield := Table.field_update_of_same t (·.name) name n (·.setBid false 0 "") (·.reserved)
      (fun _ => rfl) fun _ => rfl
    have htotal := Table.total_update hr (·.bidder) (·.bid) (·.setBid false 0 "") n
    have hzero : ((if (r.setBid false 0 "").bidder = n then (r.setBid false 0 "").bid else 0) -
        if r.bidder = n then r.bid else 0) = 0 := by
      rw [hfree, if_neg (Ne.symm hn)]
      simp [AuctionRow.setBid]
    rw [hfield, htotal, hzero, add_zero]
    exact h.reserved n hn
  · refine Table.all_update h.standing fun x _ _ => ?_
    exact ⟨by simp [AuctionRow.setBid], fun hne => absurd rfl hne⟩

/-- **A bid is released** and forgotten. -/
theorem refund (h : AuctionBook t) {r q : AuctionRow} (hr : t.get (·.name) name = some r)
    (hq : t.get (·.name) r.bidder = some q) :
    AuctionBook ((t.update (·.name) r.bidder (·.release r.bid)).update (·.name) name
      (·.setBid false 0 "")) := by
  obtain ⟨r', hr', hbid⟩ : ∃ r', (t.update (·.name) r.bidder (·.release r.bid)).get (·.name) name =
      some r' ∧ (r'.bidder = r.bidder ∧ r'.bid = r.bid) := by
    by_cases hself : name = r.bidder
    · rw [hself] at hr ⊢
      refine ⟨r.release r.bid, ?_, rfl, rfl⟩
      rw [Table.get_update_same t (·.name) r.bidder (·.release r.bid) fun _ => rfl, hr]
      rfl
    · refine ⟨r, ?_, rfl, rfl⟩
      rw [Table.get_update_ne t (·.name) (·.release r.bid) hself fun _ => rfl, hr]
  constructor
  · intro n hn
    have hfield := Table.field_update_of_same (t.update (·.name) r.bidder (·.release r.bid))
      (·.name) name n (·.setBid false 0 "") (·.reserved) (fun _ => rfl) fun _ => rfl
    have hreleased := Table.field_update_add hq (·.release r.bid) (·.reserved) (-r.bid)
      (fun _ => rfl) rfl n
    have htotal := Table.total_update hr' (·.bidder) (·.bid) (·.setBid false 0 "") n
    have hbids := Table.total_update_of_same t (·.name) r.bidder (·.bidder) (·.bid)
      (·.release r.bid) (fun _ => rfl) (fun _ => rfl) n
    have hreserved := h.reserved n hn
    rw [hfield, hreleased, htotal, hbids, hreserved, hbid.1, hbid.2]
    have hempty : ¬ ((r'.setBid false 0 "").bidder = n) := Ne.symm hn
    rw [if_neg hempty]
    by_cases hself : n = r.bidder
    · rw [if_pos hself, if_pos hself.symm]
      omega
    · rw [if_neg hself, if_neg (Ne.symm hself)]
      omega
  · refine Table.all_update (Table.all_update h.standing fun x _ hx => hx) fun x _ _ => ?_
    exact ⟨by simp [AuctionRow.setBid], fun hne => absurd rfl hne⟩

/-- **A bid is placed** where none stands. -/
theorem place (h : AuctionBook t) {r q : AuctionRow} {buyer : AccountName} {x : Int}
    (hr : t.get (·.name) name = some r) (hfree : r.bidder = "") (hbuyer : buyer ≠ "")
    (hq : t.get (·.name) buyer = some q) (hx : 0 < x) :
    AuctionBook ((t.update (·.name) name (·.setBid true x buyer)).update (·.name) buyer
      (·.release (-x))) := by
  obtain ⟨q', hq'⟩ : ∃ q', (t.update (·.name) name (·.setBid true x buyer)).get (·.name) buyer =
      some q' := by
    rw [← Option.ne_none_iff_exists']
    intro hnone
    rw [Table.get_update_eq_none t (·.name) name buyer (·.setBid true x buyer) fun _ => rfl, hq]
      at hnone
    cases hnone
  constructor
  · intro n hn
    have hfield := Table.field_update_of_same t (·.name) name n (·.setBid true x buyer) (·.reserved)
      (fun _ => rfl) fun _ => rfl
    have hreserved := Table.field_update_add hq' (·.release (-x)) (·.reserved) x
      (fun _ => rfl) (by simp [AuctionRow.release]) n
    have htotal := Table.total_update hr (·.bidder) (·.bid) (·.setBid true x buyer) n
    have hbids := Table.total_update_of_same (t.update (·.name) name (·.setBid true x buyer))
      (·.name) buyer (·.bidder) (·.bid) (·.release (-x)) (fun _ => rfl) (fun _ => rfl) n
    rw [hreserved, hfield, hbids, htotal, h.reserved n hn, hfree, if_neg (Ne.symm hn)]
    have hbidder : (r.setBid true x buyer).bidder = buyer := rfl
    rw [hbidder]
    by_cases hself : n = buyer
    · rw [if_pos hself, if_pos hself.symm, sub_zero]
      rfl
    · rw [if_neg hself, if_neg (Ne.symm hself), sub_zero]
  · refine Table.all_update (Table.all_update h.standing fun y _ _ => ?_) fun y _ hy => hy
    exact ⟨by simp [AuctionRow.setBid, hbuyer, hx], fun _ => rfl⟩

end AuctionBook

/-! ## The book of a database -/

namespace Db

variable {fc : Fc} {db db' : Db} {name : AccountName}

def auctions (db : Db) : Table AuctionRow := (db.view .auctions).rows

theorem auctions_find (db : Db) (name : AccountName) :
    db.auctions.get (·.name) name = (db.findAccount name).map fun a =>
      ⟨a.name, a.reservedBalance, a.accountOnAuction, a.currentBid, a.currentBidder⟩ :=
  rows_find (x := .auctions) db (fun _ => rfl) name

theorem auctions_found {a : AccountObject} (ha : db.findAccount name = some a) :
    db.auctions.get (·.name) name =
      some ⟨a.name, a.reservedBalance, a.accountOnAuction, a.currentBid, a.currentBidder⟩ := by
  rw [auctions_find, ha]
  rfl

theorem auctions_modifyAccount (db : Db) (name : AccountName) (f : AccountObject → AccountObject)
    (φ : AuctionRow → AuctionRow)
    (h : ∀ a, Aspect.row .auctions (f a).core = φ (Aspect.row .auctions a.core)) :
    (db.modifyAccount name f).auctions = db.auctions.update (·.name) name φ :=
  rows_modifyAccount (x := .auctions) db (fun _ => rfl) name f φ h

theorem auctions_of_view (h : db'.view .auctions = db.view .auctions) :
    db'.auctions = db.auctions :=
  congrArg Aspect.View.rows h

/-- Writing fields of the account that was read. -/
theorem auctions_modifyAccount_read {a : AccountObject} (ha : db.findAccount name = some a)
    (f : AccountObject → AccountObject) (φ ψ : AuctionRow → AuctionRow)
    (hf : ∀ b, Aspect.row .auctions (f b).core = ψ (Aspect.row .auctions b.core))
    (hφ : ψ (Aspect.row .auctions a.core) = φ (Aspect.row .auctions a.core)) :
    (db.modifyAccount name f).auctions = db.auctions.update (·.name) name φ := by
  rw [auctions_modifyAccount db name f ψ hf]
  refine Table.update_congr _ _ _ ψ φ fun r hr => ?_
  rw [auctions_found ha] at hr
  cases hr
  exact hφ

theorem returnBid_auctions {a : AccountObject} (ha : db.findAccount name = some a)
    (h : db.returnBid name = .ok db') :
    db'.auctions = db.auctions.update (·.name) a.currentBidder (·.release a.currentBid) ∧
      ∃ q, db.findAccount a.currentBidder = some q := by
  simp only [returnBid, getAccount, bind_eq_ok, getOrThrow_eq_ok, safeSub_eq_ok, pure_eq_ok] at h
  obtain ⟨a', ha', q, hq, _, ⟨-, rfl⟩, balance, -, rfl⟩ := h
  rw [ha] at ha'
  cases ha'
  refine ⟨?_, q, hq⟩
  exact auctions_modifyAccount_read hq _ (·.release a.currentBid)
    (fun r => { r with reserved := q.reservedBalance - a.currentBid }) (fun _ => rfl) rfl

/-- The bid is given back and cleared. -/
theorem returnBid_book {a : AccountObject} (ha : db.findAccount name = some a)
    (hdb : AuctionBook db.auctions) (h : db.returnBid name = .ok db')
    (f : AccountObject → AccountObject) (hf : ∀ b, Aspect.row .auctions (f b).core =
      AuctionRow.setBid (Aspect.row .auctions b.core) false 0 "") :
    AuctionBook (db'.modifyAccount name f).auctions := by
  obtain ⟨hreturn, q, hq⟩ := returnBid_auctions ha h
  rw [auctions_modifyAccount db' name f (·.setBid false 0 "") hf, hreturn]
  exact hdb.refund (auctions_found ha) (auctions_found hq)

/-- The auction is cleared; a bid that stands is given back before. -/
theorem returnBidIf_book {a : AccountObject} {c : Prop} [Decidable c]
    (ha : db.findAccount name = some a) (hdb : AuctionBook db.auctions)
    (hc : ¬ c → a.currentBidder = "") (h : returnBidIf c db name = .ok db')
    (f : AccountObject → AccountObject) (hf : ∀ b, Aspect.row .auctions (f b).core =
      AuctionRow.setBid (Aspect.row .auctions b.core) false 0 "") :
    AuctionBook (db'.modifyAccount name f).auctions := by
  unfold returnBidIf at h
  split at h
  · exact returnBid_book ha hdb h f hf
  · rename_i hnot
    rw [pure_eq_ok] at h
    rw [← h, auctions_modifyAccount db name f (·.setBid false 0 "") hf]
    exact hdb.forget (auctions_found ha) (hc hnot)

theorem resetBid_book {a : AccountObject} (ha : db.findAccount name = some a)
    (hdb : AuctionBook db.auctions) (h : db.resetBid name = .ok db') :
    AuctionBook db'.auctions := by
  simp only [resetBid, bind_eq_ok, pure_eq_ok] at h
  obtain ⟨db₁, hreturn, rfl⟩ := h
  exact returnBid_book ha hdb hreturn _ fun _ => rfl

theorem resetBidIf_book {a : AccountObject} {c : Prop} [Decidable c]
    (ha : db.findAccount name = some a) (hdb : AuctionBook db.auctions)
    (h : resetBidIf c db name = .ok db') : AuctionBook db'.auctions := by
  unfold resetBidIf at h
  split at h
  · exact resetBid_book ha hdb h
  · rw [pure_eq_ok] at h
    exact h ▸ hdb

/-- A bid that stands is in an auction. -/
theorem bidder_of_book {a : AccountObject} (ha : db.findAccount name = some a)
    (hdb : AuctionBook db.auctions) :
    ¬ (a.accountOnAuction = true ∧ a.currentBidder ≠ "") → a.currentBidder = "" := by
  intro hnot
  by_contra hne
  have hrow := hdb.standing _ (Table.get_mem (auctions_found ha))
  exact hnot ⟨hrow.2 hne, hne⟩

/-- A change of an account that keeps its auction. -/
theorem book_of_same {f : AccountObject → AccountObject} (hdb : AuctionBook db.auctions)
    (h : ∀ a, Aspect.row .auctions (f a).core = Aspect.row .auctions a.core) :
    AuctionBook (db.modifyAccount name f).auctions := by
  rw [auctions_of_view (view_modifyAccount_of_same .auctions db name f h)]
  exact hdb

theorem setAccountPrice_book {o : SetAccountPriceOperation} (hdb : AuctionBook db.auctions)
    (h : db.setAccountPrice o = .ok db') : AuctionBook db'.auctions := by
  simp only [setAccountPrice, bind_eq_ok] at h
  obtain ⟨account, -, _, -, db₁, hfee, a, ha, h⟩ := h
  rw [getAccount, getOrThrow_eq_ok] at ha
  have hstart : AuctionBook (db₁.setAccountSeller o.account o.accountSeller).auctions := by
    rw [auctions_of_view
      (view_of_core ((setAccountSeller_core db₁ _ _).trans (paySaleFee_core hfee)))]
    exact hdb
  split at h
  · simp only [bind_eq_ok, pure_eq_ok] at h
    obtain ⟨db₂, hreset, rfl⟩ := h
    exact book_of_same (resetBidIf_book ha hstart hreset) fun _ => rfl
  · simp only [bind_eq_ok, pure_eq_ok] at h
    obtain ⟨db₂, hreturn, rfl⟩ := h
    exact returnBidIf_book ha hstart (bidder_of_book ha hstart) hreturn _ fun _ => rfl

theorem targetAccountSale_book {o : TargetAccountSaleOperation} (hdb : AuctionBook db.auctions)
    (h : db.targetAccountSale o = .ok db') : AuctionBook db'.auctions := by
  simp only [targetAccountSale, bind_eq_ok] at h
  obtain ⟨account, -, _, -, _, -, db₁, hfee, a, ha, h⟩ := h
  rw [getAccount, getOrThrow_eq_ok] at ha
  have hstart : AuctionBook (db₁.setAccountSeller o.account o.accountSeller).auctions := by
    rw [auctions_of_view
      (view_of_core ((setAccountSeller_core db₁ _ _).trans (paySaleFee_core hfee)))]
    exact hdb
  split at h
  · simp only [bind_eq_ok, pure_eq_ok] at h
    obtain ⟨db₂, hreset, rfl⟩ := h
    refine book_of_same ?_ fun _ => rfl
    exact book_of_same (resetBidIf_book ha hstart hreset) fun _ => rfl
  · simp only [bind_eq_ok, pure_eq_ok] at h
    obtain ⟨db₂, hreturn, rfl⟩ := h
    refine book_of_same ?_ fun _ => rfl
    exact returnBidIf_book ha hstart (bidder_of_book ha hstart) hreturn _ fun _ => rfl

theorem reserveBid_auctions {o : BuyAccountOperation} (h : db.reserveBid o = .ok db') :
    db'.auctions =
      db.auctions.update (·.name) o.buyer (·.release (-o.accountOfferPrice.amount)) := by
  simp only [reserveBid, reservedAmounts, getAccount, bind_eq_ok, getOrThrow_eq_ok, safeAdd_eq_ok,
    pure_eq_ok] at h
  obtain ⟨_, ⟨b, hb, _, ⟨-, rfl⟩, balance, -, rfl⟩, rfl⟩ := h
  refine auctions_modifyAccount_read hb _ (·.release (-o.accountOfferPrice.amount))
    (fun r => { r with reserved := b.reservedBalance + o.accountOfferPrice.amount })
    (fun _ => rfl) ?_
  simp [AuctionRow.release, Aspect.row, AccountObject.core]

/-- Giving a bid back removes no account. -/
theorem returnBidIf_found {c : Prop} [Decidable c] {a : AccountObject} {n : AccountName}
    {r : AuctionRow} (ha : db.findAccount name = some a) (h : returnBidIf c db name = .ok db')
    (hr : db.auctions.get (·.name) n = some r) : ∃ r', db'.auctions.get (·.name) n = some r' := by
  rw [← Option.ne_none_iff_exists']
  intro hnone
  unfold returnBidIf at h
  split at h
  · rw [(returnBid_auctions ha h).1, Table.get_update_eq_none db.auctions (·.name) a.currentBidder n
      (·.release a.currentBid) fun _ => rfl, hr] at hnone
    cases hnone
  · rw [pure_eq_ok] at h
    rw [← h, hr] at hnone
    cases hnone

/-- **A bid.**  The old bid is released and the new one is placed. -/
theorem bidAccount_book {clock : TimePointSec} {o : BuyAccountOperation} {a buyer : AccountObject}
    (hname : o.buyer ≠ "") (hprice : 0 < o.accountOfferPrice.amount)
    (ha : db.findAccount o.account = some a) (hbuyer : db.findAccount o.buyer = some buyer)
    (hdb : AuctionBook db.auctions) (h : db.bidAccount clock o a = .ok db') :
    AuctionBook db'.auctions := by
  simp only [bidAccount, bind_eq_ok] at h
  obtain ⟨_, -, _, -, db₁, hreturn, hreserve⟩ := h
  have hclear := returnBidIf_book ha hdb not_not.1 hreturn (·.clearAuction) fun _ => rfl
  obtain ⟨r, hr⟩ := returnBidIf_found ha hreturn (auctions_found ha)
  obtain ⟨q, hq⟩ := returnBidIf_found ha hreturn (auctions_found hbuyer)
  rw [auctions_modifyAccount db₁ o.account (·.clearAuction) (·.setBid false 0 "") fun _ => rfl]
    at hclear
  rw [reserveBid_auctions hreserve, auctions_modifyAccount db₁ o.account
    (fun c => c.withBidOf clock o) (·.setBid true o.accountOfferPrice.amount o.buyer)
    fun _ => rfl]
  -- placing the bid over the cleared one is placing it over the old one
  have htwice := Table.update_update db₁.auctions (·.name) o.account (·.setBid false 0 "")
    (·.setBid true o.accountOfferPrice.amount o.buyer) fun _ => rfl
  have hfree : (db₁.auctions.update (·.name) o.account (·.setBid false 0 "")).get (·.name)
      o.account = some (r.setBid false 0 "") := by
    rw [Table.get_update_same db₁.auctions (·.name) o.account (·.setBid false 0 "") fun _ => rfl,
      hr]
    rfl
  obtain ⟨q', hq'⟩ : ∃ q', (db₁.auctions.update (·.name) o.account (·.setBid false 0 "")).get
      (·.name) o.buyer = some q' := by
    rw [← Option.ne_none_iff_exists']
    intro hnone
    rw [Table.get_update_eq_none db₁.auctions (·.name) o.account o.buyer (·.setBid false 0 "")
      fun _ => rfl, hq] at hnone
    cases hnone
  have hplaced := hclear.place hfree rfl hname hq' hprice
  rw [htwice] at hplaced
  exact hplaced

/-- Creating an account or vesting tokens places no bid. -/
theorem auctionBook_steady : Steady .auctions fun v => AuctionBook v.rows := by
  intro g db db' hglide hdb
  cases hglide with
  | same h =>
    rw [h]
    exact hdb
  | register name recovery memo auth hauth hnew h =>
    rw [h]
    have hfree : db.auctions.get (·.name) name = none := by
      rw [auctions_find, hnew]
      rfl
    have hrows : ((db.core.register name recovery memo auth).view .auctions).rows =
        db.auctions.create fun _ => ⟨name, 0, false, 0, ""⟩ := Table.image_create _ _ _
    exact hrows ▸ AuctionBook.enroll hdb hfree fun _ => rfl
  | declare owner hnew h =>
    rw [h]
    exact hdb
  | vest name tokens ok h =>
    rw [createVesting_view rfl h]
    exact hdb

theorem buyAccount_book {clock : TimePointSec} {o : BuyAccountOperation}
    (hv : o.validate = .ok ()) (hdb : AuctionBook db.auctions)
    (h : buyAccount fc clock db o = .ok db') : AuctionBook db'.auctions := by
  simp only [BuyAccountOperation.validate, validatePrice, List.forM_eq_forM, List.forM_cons,
    bind_eq_ok, fcAssert_eq_ok] at hv
  obtain ⟨_, ⟨_, hbuyerName, -⟩, _, ⟨_, -, hprice⟩, -⟩ := hv
  simp only [buyAccount, getAccount, bind_eq_ok, getOrThrow_eq_ok] at h
  obtain ⟨buyer, hbuyer, _, -, _, -, h⟩ := h
  split at h
  · rename_i a ha
    simp only [buyExisting, bind_eq_ok] at h
    obtain ⟨_, -, _, -, _, -, _, -, h⟩ := h
    split at h
    · exact bidAccount_book (validateAccountName_ne hbuyerName) hprice ha hbuyer hdb h
    · obtain ⟨db₁, hturns, -, rfl⟩ := buyNow_turns h
      have hdb₁ := auctionBook_steady.drift (hturns.drift_unguarded .auctions) hdb
      exact book_of_same hdb₁ fun _ => rfl
  · exact auctionBook_steady.drift ((buySubaccount_turns h).drift_unguarded .auctions) hdb

/-! ## The end of an auction -/

theorem settleAuction_book {a : AccountObject} (ha : db.findAccount a.name = some a)
    (hdb : AuctionBook db.auctions) (h : db.settleAuction a = .ok db') :
    AuctionBook db'.auctions := by
  simp only [settleAuction, getAccount, bind_eq_ok, getOrThrow_eq_ok, safeSub_eq_ok, pure_eq_ok] at h
  obtain ⟨_, -, q, hq, _, ⟨-, rfl⟩, db₁, hpay, _, -, rfl⟩ := h
  have hreleased : db₁.auctions =
      db.auctions.update (·.name) a.currentBidder (·.release a.currentBid) := by
    rw [auctions_of_view (view_of_core (adjustBalance_core hpay))]
    exact auctions_modifyAccount_read hq _ (·.release a.currentBid)
      (fun r => { r with reserved := q.reservedBalance - a.currentBid }) (fun _ => rfl) rfl
  have hcleared := auctions_modifyAccount (db₁.setAuthorities a.name a.currentBidderKey) a.name
    (fun b => { b.clearSale.clearAuction with
      accountSeller := "", targetBuyer := ""
      subaccountSeller := "", subaccountOfferPrice := 0, subaccountOnSale := false
      memoKey := a.currentBidderKey
      recoveryAccount := a.currentBidder
      lastAccountUpdate := (db₁.setAuthorities a.name a.currentBidderKey).headBlockTime })
    (·.setBid false 0 "") fun _ => rfl
  rw [hcleared, show (db₁.setAuthorities a.name a.currentBidderKey).auctions = db₁.auctions from rfl,
    hreleased]
  exact hdb.refund (auctions_found ha) (auctions_found hq)

theorem expireAuction_book (hdb : AuctionBook db.auctions) (h : db.expireAuction name = .ok db') :
    AuctionBook db'.auctions := by
  simp only [expireAuction, getAccount, bind_eq_ok, getOrThrow_eq_ok] at h
  obtain ⟨a, ha, h⟩ := h
  split at h
  · rw [pure_eq_ok] at h
    exact h ▸ hdb
  · split at h
    · rename_i hfree
      rw [pure_eq_ok] at h
      rw [← h, auctions_modifyAccount db name (·.clearAuction) (·.setBid false 0 "") fun _ => rfl]
      exact hdb.forget (auctions_found ha) hfree
    · simp only [bind_eq_ok] at h
      obtain ⟨_, -, h⟩ := h
      split at h
      · split at h
        · simp only [cancelAuction, bind_eq_ok, pure_eq_ok] at h
          obtain ⟨db₁, hreset, rfl⟩ := h
          exact book_of_same (resetBid_book ha hdb hreset) fun _ => rfl
        · have hname : a.name = name := Table.get_key ha
          exact settleAuction_book (hname ▸ ha) hdb h
      · exact resetBid_book ha hdb h

end Db

/-- **The reserves** of the accounts are the sums of their bids, whatever the chain does. -/
theorem auctionBook_keepsBlock (env : Env) (C : Event → Prop) :
    KeepsBlock env C fun db => db.Stored env.fc ∧ AuctionBook db.auctions := by
  refine (stored_keepsBlock env C).aspect (x := .auctions) (P := fun v => AuctionBook v.rows)
    (by decide) (by decide) (by decide) Db.auctionBook_steady ?_ ?_
  · intro clock db op db' htouch _ hv _ h hdb
    cases op with
    | setAccountPrice o => exact Db.setAccountPrice_book hdb h
    | targetAccountSale o => exact Db.targetAccountSale_book hdb h
    | buyAccount o => exact Db.buyAccount_book hv hdb h
    | _ => cases htouch
  · intro skip b db st db' htouch _ _ h hdb
    cases st with
    | accountOnAuctionExpiration =>
      exact foldlM_invariant (fun s => AuctionBook s.auctions) _ _
        (fun _ _ _ _ hs hstep => Db.expireAuction_book hs hstep) db db' hdb h
    | _ => cases htouch

/-! ## Bids that are due -/

namespace Db

variable {db db' : Db} {name : AccountName}

/-- When the sale of an account starts, and who bids for it. -/
def sales (db : Db) : Table (AccountName × TimePointSec × AccountName) :=
  db.accounts.image fun a => (a.name, a.accountOnSaleStartTime, a.currentBidder)

theorem sales_find {a : AccountObject} (ha : db.findAccount name = some a) :
    db.sales.get (·.1) name = some (a.name, a.accountOnSaleStartTime, a.currentBidder) := by
  unfold sales
  rw [Table.get_image, show db.accounts.get (fun a => a.name) name = some a from ha]
  rfl

theorem sales_of_same (db : Db) (name : AccountName) {f : AccountObject → AccountObject}
    (hf : ∀ a, (f a).name = a.name ∧ (f a).accountOnSaleStartTime = a.accountOnSaleStartTime ∧
      (f a).currentBidder = a.currentBidder) : (db.modifyAccount name f).sales = db.sales :=
  Table.image_update_of_same db.accounts _ (·.name) name f fun a => by
    rw [(hf a).1, (hf a).2.1, (hf a).2.2]

theorem sales_other (db : Db) {n : AccountName} (hn : n ≠ name) {f : AccountObject → AccountObject}
    (hf : ∀ a, (f a).name = a.name) :
    (db.modifyAccount name f).sales.get (·.1) n = db.sales.get (·.1) n := by
  unfold sales
  rw [Table.get_image, Table.get_image]
  exact congrArg _ (Table.get_update_ne db.accounts (·.name) f hn hf)

/-- No bid stands on the account once its sale is due. -/
def NoDueBid (db : Db) (n : AccountName) : Prop :=
  ∀ r, db.sales.get (·.1) n = some r → r.2.1 ≤ db.headBlockTime → r.2.2 = ""

/-- A change that clears the bid of the account. -/
theorem noDueBid_cleared {f : AccountObject → AccountObject}
    (hf : ∀ a, (f a).name = a.name ∧ (f a).currentBidder = "") :
    (db.modifyAccount name f).NoDueBid name := by
  intro r hr _
  unfold sales at hr
  rw [Table.get_image, Option.map_eq_some_iff] at hr
  obtain ⟨b, hb, rfl⟩ := hr
  rw [show (db.modifyAccount name f).accounts.get (fun a => a.name) name =
    (db.accounts.get (·.name) name).map f from
    Table.get_update_same db.accounts (·.name) name f fun a => (hf a).1,
    Option.map_eq_some_iff] at hb
  obtain ⟨a, -, rfl⟩ := hb
  exact (hf a).2

/-- What ends an auction: the sales of other accounts stay, and the bid is gone. -/
def EndsAuction (db db' : Db) (name : AccountName) : Prop :=
  db'.headBlockTime = db.headBlockTime ∧ db'.NoDueBid name ∧
    ∀ n, n ≠ name → db'.sales.get (·.1) n = db.sales.get (·.1) n

theorem EndsAuction.of_cleared {db₁ : Db} {f : AccountObject → AccountObject}
    (htime : db₁.headBlockTime = db.headBlockTime) (hsales : db₁.sales = db.sales)
    (hf : ∀ a, (f a).name = a.name ∧ (f a).currentBidder = "") :
    EndsAuction db (db₁.modifyAccount name f) name := by
  refine ⟨htime, noDueBid_cleared hf, fun n hn => ?_⟩
  rw [sales_other db₁ hn fun a => (hf a).1, hsales]

theorem adjustBalance_sales {x : Int} (h : db.adjustBalance name x = .ok db') :
    db'.headBlockTime = db.headBlockTime ∧ db'.sales = db.sales := by
  simp only [adjustBalance, bind_eq_ok, pure_eq_ok] at h
  obtain ⟨a, -, balance, -, rfl⟩ := h
  exact ⟨rfl, sales_of_same db name fun _ => ⟨rfl, rfl, rfl⟩⟩

theorem returnBid_sales (h : db.returnBid name = .ok db') :
    db'.headBlockTime = db.headBlockTime ∧ db'.sales = db.sales := by
  simp only [returnBid, bind_eq_ok, pure_eq_ok] at h
  obtain ⟨a, -, bidder, -, reserved, -, balance, -, rfl⟩ := h
  exact ⟨rfl, sales_of_same db a.currentBidder fun _ => ⟨rfl, rfl, rfl⟩⟩

theorem resetBid_ends (h : db.resetBid name = .ok db') : EndsAuction db db' name := by
  simp only [resetBid, bind_eq_ok, pure_eq_ok] at h
  obtain ⟨db₁, hreturn, rfl⟩ := h
  obtain ⟨htime, hsales⟩ := returnBid_sales hreturn
  exact .of_cleared htime hsales fun _ => ⟨rfl, rfl⟩

theorem cancelAuction_ends (h : db.cancelAuction name = .ok db') : EndsAuction db db' name := by
  simp only [cancelAuction, resetBid, bind_eq_ok, pure_eq_ok] at h
  obtain ⟨_, ⟨db₁, hreturn, rfl⟩, rfl⟩ := h
  obtain ⟨htime, hsales⟩ := returnBid_sales hreturn
  have htwice := Table.update_update db₁.accounts (·.name) name (·.clearAuction)
    (fun a => { a.clearSale with targetBuyer := "" }) fun _ => rfl
  have hall : EndsAuction db (db₁.modifyAccount name fun a =>
      { a.clearAuction.clearSale with targetBuyer := "" }) name :=
    .of_cleared htime hsales fun _ => ⟨rfl, rfl⟩
  have hdb : (db₁.modifyAccount name (·.clearAuction)).modifyAccount name
      (fun a => { a.clearSale with targetBuyer := "" }) =
        db₁.modifyAccount name fun a => { a.clearAuction.clearSale with targetBuyer := "" } := by
    unfold modifyAccount
    rw [htwice]
  rw [hdb]
  exact hall

theorem settleAuction_ends {a : AccountObject} (h : db.settleAuction a = .ok db') :
    EndsAuction db db' a.name := by
  simp only [settleAuction, bind_eq_ok, pure_eq_ok] at h
  obtain ⟨_, -, bidder, -, reserved, -, db₁, hpay, _, -, rfl⟩ := h
  obtain ⟨htime, hsales⟩ := adjustBalance_sales hpay
  refine @EndsAuction.of_cleared _ _ (db₁.setAuthorities a.name a.currentBidderKey) _ htime ?_
    fun _ => ⟨rfl, rfl⟩
  refine Eq.trans ?_ (hsales.trans (sales_of_same db a.currentBidder fun _ => ⟨rfl, rfl, rfl⟩))
  rfl

theorem expireAuction_ends (h : db.expireAuction name = .ok db') : EndsAuction db db' name := by
  simp only [expireAuction, getAccount, bind_eq_ok, getOrThrow_eq_ok] at h
  obtain ⟨a, ha, h⟩ := h
  split at h
  · rename_i hlater
    rw [pure_eq_ok] at h
    subst h
    refine ⟨rfl, fun r hr hdue => ?_, fun _ _ => rfl⟩
    rw [sales_find ha] at hr
    cases hr
    exact absurd hlater (Nat.not_lt.2 hdue)
  · split at h
    · rw [pure_eq_ok] at h
      rw [← h]
      exact .of_cleared rfl rfl fun _ => ⟨rfl, rfl⟩
    · simp only [bind_eq_ok] at h
      obtain ⟨_, -, h⟩ := h
      split at h
      · split at h
        · exact cancelAuction_ends h
        · have hname : a.name = name := Table.get_key ha
          exact hname ▸ settleAuction_ends h
      · exact resetBid_ends h

theorem EndsAuction.noDueBid {n : AccountName} (h : EndsAuction db db' name)
    (hn : db.NoDueBid n) : db'.NoDueBid n := by
  by_cases heq : n = name
  · exact heq ▸ h.2.1
  · intro r hr hdue
    rw [h.2.2 n heq] at hr
    exact hn r hr (h.1 ▸ hdue)

theorem expireAuctions_noDueBid {l : List AccountName} (h : l.foldlM expireAuction db = .ok db')
    {n : AccountName} (hn : n ∈ l ∨ db.NoDueBid n) : db'.NoDueBid n := by
  induction l generalizing db with
  | nil =>
    rw [List.foldlM_nil, pure_eq_ok] at h
    rcases hn with hn | hn
    · exact absurd hn List.not_mem_nil
    · exact h ▸ hn
  | cons m rest ih =>
    rw [List.foldlM_cons, bind_eq_ok] at h
    obtain ⟨db₁, hm, hrest⟩ := h
    have hends := expireAuction_ends hm
    refine ih hrest ?_
    rcases hn with hn | hn
    · rcases List.mem_cons.1 hn with rfl | hn
      · exact .inr hends.2.1
      · exact .inl hn
    · exact .inr (hends.noDueBid hn)

end Db

/-! ## The claim about account objects -/

/-- What every account has reserved is the sum of its bids.  A name of no account has nothing
reserved.  A bid has a bidder and stands in an auction. -/
structure Db.ReservesMatch (db : Db) : Prop where
  reserved : ∀ name, name ≠ "" → ((db.findAccount name).map (·.reservedBalance)).getD 0 =
    db.accounts.sum fun a => if a.currentBidder = name then a.currentBid else 0
  standing : db.accounts.All fun a => (a.currentBidder ≠ "" ↔ 0 < a.currentBid) ∧
    (a.currentBidder ≠ "" → a.accountOnAuction = true)

theorem Db.reservesMatch_iff (db : Db) : db.ReservesMatch ↔ AuctionBook db.auctions := by
  have hrows : db.auctions = db.accounts.image fun a =>
      (⟨a.name, a.reservedBalance, a.accountOnAuction, a.currentBid, a.currentBidder⟩ :
        AuctionRow) := Table.image_image _ _ _
  have htotal (n : AccountName) : db.auctions.total (·.bidder) (·.bid) n =
      db.accounts.sum fun a => if a.currentBidder = n then a.currentBid else 0 := by
    rw [hrows]
    exact Table.sum_image _ _ _
  have hfield (n : AccountName) : db.auctions.field (·.name) (·.reserved) n =
      ((db.findAccount n).map (·.reservedBalance)).getD 0 := by
    unfold Table.field
    rw [Db.auctions_find, Option.map_map]
    rfl
  constructor
  · intro h
    refine ⟨fun n hn => ?_, ?_⟩
    · rw [hfield, htotal]
      exact h.reserved n hn
    · intro r hr
      rw [hrows] at hr
      obtain ⟨a, ha, rfl⟩ := List.mem_map.1 hr
      exact h.standing a ha
  · intro h
    refine ⟨fun n hn => ?_, fun a ha => ?_⟩
    · rw [← hfield, ← htotal]
      exact h.reserved n hn
    · have hrow : AuctionRow.mk a.name a.reservedBalance a.accountOnAuction a.currentBid
          a.currentBidder ∈ db.auctions.rows := by
        rw [hrows]
        exact List.mem_map_of_mem ha
      exact h.standing _ hrow

/-- **The auction ledger.**  Everything that the chain does keeps the reserves equal to the bids,
and the step that ends auctions leaves no bid on an account whose sale is due. -/
theorem reserves_preserved (env : Env) :
    Preserved env (fun _ => True) (fun db => db.Stored env.fc ∧ db.ReservesMatch) ∧
      ∀ db db' : Db, db.ReservesMatch → db.accountOnAuctionExpiration = .ok db' →
        ∀ name a, db'.findAccount name = some a →
          a.accountOnSaleStartTime ≤ db'.headBlockTime → a.currentBidder = "" := by
  constructor
  · simp only [Db.reservesMatch_iff]
    exact (auctionBook_keepsBlock env _).preserved
  · intro db db' hdb h name a ha hdue
    have hnone : db'.NoDueBid name := by
      refine Db.expireAuctions_noDueBid h ?_
      cases hfind : db.findAccount name with
      | none =>
        refine .inr fun r hr _ => ?_
        unfold Db.sales at hr
        rw [Table.get_image, show db.accounts.get (fun a => a.name) name = none from hfind] at hr
        cases hr
      | some b =>
        by_cases hbidder : b.currentBidder = ""
        · refine .inr fun r hr _ => ?_
          rw [Db.sales_find hfind] at hr
          cases hr
          exact hbidder
        · refine .inl ?_
          have hmem := Table.get_mem hfind
          have hname : b.name = name := Table.get_key hfind
          have hauction := (hdb.standing b hmem).2 hbidder
          rw [← hname]
          exact List.mem_map_of_mem (List.mem_filter.2 ⟨hmem, hauction⟩)
    exact hnone _ (Db.sales_find ha) hdue

theorem auctionStore_reservesMatch : auctionStore.db.ReservesMatch := by
  have hfree : auctionStore.db.accounts.All fun a =>
      a.currentBidder = "" ∧ a.currentBid = 0 ∧ a.reservedBalance = 0 := by decide +kernel
  constructor
  · intro name _
    have hsum : (auctionStore.db.accounts.sum fun a =>
        if a.currentBidder = name then a.currentBid else 0) = 0 := by
      refine List.sum_eq_zero fun y hy => ?_
      obtain ⟨a, ha, rfl⟩ := List.mem_map.1 hy
      rw [(hfree a ha).2.1, ite_self]
    rw [hsum]
    cases hfind : auctionStore.db.findAccount name with
    | none => rfl
    | some a => exact (hfree a (Table.get_mem hfind)).2.2
  · intro a ha
    obtain ⟨hbidder, hbid, -⟩ := hfree a ha
    rw [hbidder, hbid]
    exact ⟨by decide, fun hne => absurd rfl hne⟩

theorem reserves_preserved_bid :
    ∃ s', (auctionStore.applyBlocks smallEnv 2 { merkleCheck := true }
      [smallBlock [uncoveredBid]] 0).2 = .ok s' ∧ s'.db.ReservesMatch := by
  have hrun : returns (auctionStore.applyBlocks smallEnv 2 { merkleCheck := true }
      [smallBlock [uncoveredBid]] 0).2 (fun _ => true) = true := by
    decide +kernel
  obtain ⟨s', hs', -⟩ := returns_eq_true hrun
  refine ⟨s', hs', ?_⟩
  exact ((reserves_preserved smallEnv).1.blocks 2 _ auctionStore _ 0 s' rfl
    ⟨fun _ hp => (nomatch hp), auctionStore_reservesMatch⟩ (fun _ _ => trivial) hs').2

end VizCore.Chain
