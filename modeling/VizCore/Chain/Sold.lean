import VizCore.Chain.Funds

/-!
# The record of a sold account

The purchase of an account and the end of its auction write the same fields by hand.

* `SaleRecord`: the fields, and `SaleRecord.sold`: what a sale leaves in them;
* `expireAuction_saleRecord`: the end of an auction leaves that, whether or not there is a target buyer;
* `buyAccount_sold_iff`: the purchase does exactly when it finds nothing to forget.
-/

namespace VizCore.Chain

open VizCore.Lib VizCore.Protocol

/-- What the account and its authorities tell about sales and owners. -/
structure SaleRecord where
  accountSeller : AccountName
  accountOfferPrice : Int
  accountOnSale : Bool
  accountOnSaleStartTime : TimePointSec
  targetBuyer : AccountName
  accountOnAuction : Bool
  currentBid : Int
  currentBidder : AccountName
  currentBidderKey : PublicKey
  lastBid : Int
  subaccountSeller : AccountName
  subaccountOfferPrice : Int
  subaccountOnSale : Bool
  memoKey : PublicKey
  recoveryAccount : AccountName
  lastAccountUpdate : TimePointSec
  master : Authority
  active : Authority
  regular : Authority
  lastMasterUpdate : TimePointSec

namespace SaleRecord

/-- The record of an account that `buyer` has got with `key`: nothing is on sale, there is no bid
and no target buyer. -/
def sold (buyer : AccountName) (key : PublicKey) (now : TimePointSec) : SaleRecord where
  accountSeller := ""
  accountOfferPrice := 0
  accountOnSale := false
  accountOnSaleStartTime := 0
  targetBuyer := ""
  accountOnAuction := false
  currentBid := 0
  currentBidder := ""
  currentBidderKey := 0
  lastBid := 0
  subaccountSeller := ""
  subaccountOfferPrice := 0
  subaccountOnSale := false
  memoKey := key
  recoveryAccount := buyer
  lastAccountUpdate := now
  master := Db.singleKey key
  active := Db.singleKey key
  regular := Db.singleKey key
  lastMasterUpdate := now

def of (a : AccountObject) (auth : AccountAuthorityObject) : SaleRecord where
  accountSeller := a.accountSeller
  accountOfferPrice := a.accountOfferPrice
  accountOnSale := a.accountOnSale
  accountOnSaleStartTime := a.accountOnSaleStartTime
  targetBuyer := a.targetBuyer
  accountOnAuction := a.accountOnAuction
  currentBid := a.currentBid
  currentBidder := a.currentBidder
  currentBidderKey := a.currentBidderKey
  lastBid := a.lastBid
  subaccountSeller := a.subaccountSeller
  subaccountOfferPrice := a.subaccountOfferPrice
  subaccountOnSale := a.subaccountOnSale
  memoKey := a.memoKey
  recoveryAccount := a.recoveryAccount
  lastAccountUpdate := a.lastAccountUpdate
  master := auth.master
  active := auth.active
  regular := auth.regular
  lastMasterUpdate := auth.lastMasterUpdate

/-- What an account owns does not show in the record. -/
theorem of_withoutFunds {a b : AccountObject} (h : b.withoutFunds = a.withoutFunds)
    (auth : AccountAuthorityObject) : of b auth = of a auth := by
  have hrecord := congrArg (fun c : AccountObject => of c auth) h
  exact hrecord

end SaleRecord

/-- What a purchase writes into the account. -/
def AccountObject.handTo (buyer : AccountName) (key : PublicKey) (now : TimePointSec)
    (a : AccountObject) : AccountObject :=
  { a.clearSale with
    accountSeller := ""
    subaccountSeller := "", subaccountOfferPrice := 0, subaccountOnSale := false
    memoKey := key
    recoveryAccount := buyer
    lastAccountUpdate := now }

theorem AccountObject.handTo_withoutFunds {a b : AccountObject} (buyer : AccountName)
    (key : PublicKey) (now : TimePointSec) (h : b.withoutFunds = a.withoutFunds) :
    (b.handTo buyer key now).withoutFunds = (a.handTo buyer key now).withoutFunds := by
  have hhanded := congrArg (AccountObject.handTo buyer key now) h
  exact hhanded

namespace Db

variable {db db' : Db} {name : AccountName}

def saleRecord (db : Db) (name : AccountName) : Option SaleRecord := do
  let a ← db.findAccount name
  let auth ← db.accountAuthorities.get (·.account) name
  return .of a auth

/-- Nothing that a purchase does not reset is left of earlier sales. -/
def NothingLeft (a : AccountObject) : Prop :=
  a.targetBuyer = "" ∧ a.accountOnAuction = false ∧ a.currentBid = 0 ∧ a.currentBidderKey = 0 ∧
    a.lastBid = 0

/-- The new owner's authorities and the change `f` of the account, after payments. -/
theorem saleRecord_handed {db₁ : Db} {a : AccountObject} {auth : AccountAuthorityObject}
    {k : PublicKey} {f : AccountObject → AccountObject} (hpaid : FundsOnly db db₁)
    (ha : db.findAccount name = some a)
    (hauth : db.accountAuthorities.get (·.account) name = some auth)
    (hf : ∀ x, (f x).name = x.name)
    (hfunds : ∀ x y : AccountObject, x.withoutFunds = y.withoutFunds →
      (f x).withoutFunds = (f y).withoutFunds) :
    ((db₁.modifyAccount name f).setAuthorities name k).saleRecord name =
      some (.of (f a) { auth with
        master := singleKey k, active := singleKey k, regular := singleKey k
        lastMasterUpdate := db.headBlockTime }) := by
  obtain ⟨b, hb, hsame⟩ := hpaid.find ha
  have hfound : (db₁.modifyAccount name f).findAccount name = some (f b) := by
    have hget : (db₁.modifyAccount name f).findAccount name = (db₁.findAccount name).map f :=
      Table.get_update_same db₁.accounts (·.name) name f hf
    rw [hget, hb]
    rfl
  have hnew : ((db₁.modifyAccount name f).setAuthorities name k).accountAuthorities.get
      (·.account) name = some { auth with
        master := singleKey k, active := singleKey k, regular := singleKey k
        lastMasterUpdate := db₁.headBlockTime } := by
    have hget := Table.get_update_same db₁.accountAuthorities (·.account) name (fun x => { x with
      master := singleKey k, active := singleKey k, regular := singleKey k
      lastMasterUpdate := db₁.headBlockTime }) fun _ => rfl
    rw [hpaid.authorities, hauth] at hget
    rw [← hpaid.authorities] at hget
    exact hget
  have htime : db₁.headBlockTime = db.headBlockTime := hpaid.time
  unfold saleRecord
  rw [hnew, htime]
  show (do
    let x ← (db₁.modifyAccount name f).findAccount name
    let auth ← some _
    return SaleRecord.of x auth) = _
  rw [hfound]
  exact congrArg some (SaleRecord.of_withoutFunds (hfunds b a hsame) _)

/-! ## The purchase -/

theorem buyNow_saleRecord {o : BuyAccountOperation} {a buyer : AccountObject}
    {auth : AccountAuthorityObject} (ha : db.findAccount o.account = some a)
    (hauth : db.accountAuthorities.get (·.account) o.account = some auth)
    (h : db.buyNow o a buyer = .ok db') :
    a.currentBidder = "" ∧ db'.saleRecord o.account = some (.of
      (a.handTo o.buyer o.accountAuthoritiesKey db.headBlockTime)
      { auth with
        master := singleKey o.accountAuthoritiesKey, active := singleKey o.accountAuthoritiesKey
        regular := singleKey o.accountAuthoritiesKey, lastMasterUpdate := db.headBlockTime }) := by
  simp only [buyNow, bind_eq_ok, fcAssert_eq_ok, pure_eq_ok] at h
  obtain ⟨_, hbidder, _, -, _, -, _, -, _, -, db₁, hpay, db₂, hdebit, db₃, hvest, rfl⟩ := h
  have hpaid : FundsOnly db db₃ := (payPrice_fundsOnly hpay).trans
    ((adjustBalance_fundsOnly hdebit).trans (createVesting_fundsOnly hvest))
  have htime : db₃.headBlockTime = db.headBlockTime := hpaid.time
  have hrecord := saleRecord_handed (k := o.accountAuthoritiesKey)
    (f := AccountObject.handTo o.buyer o.accountAuthoritiesKey db₃.headBlockTime) hpaid ha hauth
    (fun _ => rfl) fun _ _ => AccountObject.handTo_withoutFunds _ _ _
  rw [← htime] at hrecord ⊢
  exact ⟨hbidder, hrecord⟩

/-- A purchase at the price leaves the record of a sale exactly when it finds nothing that it does
not reset. -/
theorem buyAccount_sold_iff {fc : Fc} {clock : TimePointSec} {o : BuyAccountOperation}
    {a : AccountObject} (ha : db.findAccount o.account = some a)
    (hstarted : a.accountOnSaleStartTime ≤ db.headBlockTime)
    (h : buyAccount fc clock db o = .ok db') :
    db'.saleRecord o.account =
      some (.sold o.buyer o.accountAuthoritiesKey db.headBlockTime) ↔ NothingLeft a := by
  simp only [buyAccount, ha, bind_eq_ok] at h
  obtain ⟨buyer, -, _, -, _, -, h⟩ := h
  simp only [buyExisting, getAuthority, bind_eq_ok, getOrThrow_eq_ok,
    if_neg (Nat.not_lt.2 hstarted)] at h
  obtain ⟨auth, hauth, _, -, _, -, _, -, h⟩ := h
  obtain ⟨hbidder, hrecord⟩ := buyNow_saleRecord ha hauth h
  rw [hrecord, Option.some.injEq]
  unfold NothingLeft
  constructor
  · intro hsold
    exact ⟨congrArg SaleRecord.targetBuyer hsold, congrArg SaleRecord.accountOnAuction hsold,
      congrArg SaleRecord.currentBid hsold, congrArg SaleRecord.currentBidderKey hsold,
      congrArg SaleRecord.lastBid hsold⟩
  · rintro ⟨htarget, hauction, hbid, hkey, hlast⟩
    unfold SaleRecord.of SaleRecord.sold AccountObject.handTo AccountObject.clearSale
    simp only [htarget, hauction, hbid, hkey, hlast, hbidder]

/-! ## The end of an auction -/

/-- The auction is due and ends with a sale. -/
structure EndsInSale (db : Db) (a : AccountObject) : Prop where
  due : a.accountOnSaleStartTime ≤ db.headBlockTime
  bidder : a.currentBidder ≠ ""
  target : a.targetBuyer = "" ∨ a.currentBidder = a.targetBuyer
  onSale : a.accountOnSale = true
  price : a.accountOfferPrice ≤ a.currentBid
  recovery : db.accountRecoveryRequests.get (·.accountToRecover) a.name = none

/-- **The end of an auction** leaves the record of a sale. -/
theorem expireAuction_saleRecord {a : AccountObject} (ha : db.findAccount name = some a)
    (hsettles : db.EndsInSale a) (h : db.expireAuction name = .ok db') :
    db'.saleRecord name = some (.sold a.currentBidder a.currentBidderKey db.headBlockTime) := by
  have hname : a.name = name := Table.get_key ha
  have hfree := hsettles.recovery
  rw [hname] at hfree
  simp only [expireAuction, getAccount, ha, bind_eq_ok, getOrThrow_eq_ok] at h
  obtain ⟨a', ha', h⟩ := h
  cases ha'
  rw [if_neg (Nat.not_lt.2 hsettles.due), if_neg hsettles.bidder, bind_eq_ok] at h
  obtain ⟨_, -, h⟩ := h
  rw [if_pos ⟨hsettles.target, hsettles.onSale, hsettles.price⟩, hfree] at h
  simp only [Option.isSome_none, Bool.false_eq_true, if_false, settleAuction, getAuthority,
    bind_eq_ok, getOrThrow_eq_ok, pure_eq_ok] at h
  obtain ⟨_, -, bidder, -, reserved, -, db₁, hcredit, auth, hauth, rfl⟩ := h
  rw [hname] at hauth ⊢
  have hpaid : FundsOnly db db₁ :=
    (FundsOnly.modifyAccount db a.currentBidder (f := fun b => { b with reservedBalance := reserved })
      fun _ => rfl).trans (adjustBalance_fundsOnly hcredit)
  rw [hpaid.authorities] at hauth
  have htime : db₁.headBlockTime = db.headBlockTime := hpaid.time
  have hrecord := saleRecord_handed (k := a.currentBidderKey)
    (f := fun b => { (b.handTo a.currentBidder a.currentBidderKey db₁.headBlockTime).clearAuction with
      targetBuyer := "" }) hpaid ha hauth (fun _ => rfl) fun x y hxy =>
    congrArg (fun c : AccountObject => { c.clearAuction with targetBuyer := "" })
      (AccountObject.handTo_withoutFunds _ _ _ hxy)
  rw [← htime] at hrecord ⊢
  exact hrecord

end Db

/-- **The record of a sale.**  The end of an auction leaves the record of a sale, with or without a
target buyer.  A purchase leaves it exactly when the account has no target buyer and nothing of an
earlier auction. -/
theorem sale_record_iff (fc : Fc) (clock : TimePointSec) (db db' : Db) :
    (∀ o a, db.findAccount o.account = some a → a.accountOnSaleStartTime ≤ db.headBlockTime →
      Db.buyAccount fc clock db o = .ok db' →
      (db'.saleRecord o.account =
        some (.sold o.buyer o.accountAuthoritiesKey db.headBlockTime) ↔ Db.NothingLeft a)) ∧
    ∀ name a, db.findAccount name = some a → db.EndsInSale a → db.expireAuction name = .ok db' →
      db'.saleRecord name = some (.sold a.currentBidder a.currentBidderKey db.headBlockTime) :=
  ⟨fun _ _ ha hstarted h => Db.buyAccount_sold_iff ha hstarted h,
    fun _ _ ha hsettles h => Db.expireAuction_saleRecord ha hsettles h⟩

/-- carol's account is for sale, perhaps to a certain buyer. -/
def saleDb (target : AccountName) : Db :=
  (smallStore [{ id := 4, name := "bob", balance := 5000 },
    { id := 5, name := "carol", accountOnSale := true, accountSeller := "carol"
      accountOfferPrice := 100, targetBuyer := target }]).db

/-- bob buys carol's account. -/
def purchase : BuyAccountOperation :=
  { buyer := "bob", account := "carol", accountOfferPrice := ⟨100, tokenSymbol⟩
    accountAuthoritiesKey := 7, tokensToShares := ⟨1000, tokenSymbol⟩ }

/-- The auction of carol's account is over, and bob, to whom alone it is for sale, has bid 150. -/
def auctionDb : Db :=
  (smallStore [{ id := 4, name := "bob", balance := 5000, reservedBalance := 150 },
    { id := 5, name := "carol", accountOnSale := true, accountSeller := "alice"
      accountOfferPrice := 100, targetBuyer := "bob", accountOnAuction := true
      accountOnSaleStartTime := 27, currentBidder := "bob", currentBid := 150
      currentBidderKey := 9, lastBid := 27 }]).db

/-- A purchase without a target buyer, and the end of an auction with one. -/
theorem sale_record_iff_free :
    (∃ db', Db.buyAccount smallEnv.fc 33 (saleDb "") purchase = .ok db' ∧
      db'.saleRecord "carol" = some (.sold "bob" 7 30)) ∧
    ∃ db', auctionDb.expireAuction "carol" = .ok db' ∧
      db'.saleRecord "carol" = some (.sold "bob" 9 30) := by
  have hpurchase : returns (Db.buyAccount smallEnv.fc 33 (saleDb "") purchase) (fun _ => true) =
      true := by decide +kernel
  have hauction : returns (auctionDb.expireAuction "carol") (fun _ => true) = true := by
    decide +kernel
  obtain ⟨db₁, hdb₁, -⟩ := returns_eq_true hpurchase
  obtain ⟨db₂, hdb₂, -⟩ := returns_eq_true hauction
  have hends : auctionDb.EndsInSale
      { id := 5, name := "carol", accountOnSale := true, accountSeller := "alice"
        accountOfferPrice := 100, targetBuyer := "bob", accountOnAuction := true
        accountOnSaleStartTime := 27, currentBidder := "bob", currentBid := 150
        currentBidderKey := 9, lastBid := 27 } :=
    ⟨by decide, by decide, .inr rfl, rfl, by decide, rfl⟩
  constructor
  · exact ⟨db₁, hdb₁, ((sale_record_iff smallEnv.fc 33 (saleDb "") db₁).1 purchase _ rfl (by decide)
      hdb₁).2 ⟨rfl, rfl, rfl, rfl, rfl⟩⟩
  · exact ⟨db₂, hdb₂, (sale_record_iff smallEnv.fc 33 auctionDb db₂).2 "carol" _ rfl hends hdb₂⟩

/-- Sold to its target buyer, the account still has that target buyer. -/
theorem purchase_keeps_target :
    ∃ db', purchase.validate = .ok () ∧ Db.buyAccount smallEnv.fc 33 (saleDb "bob") purchase = .ok db' ∧
      (db'.saleRecord "carol").map (·.targetBuyer) = some "bob" ∧
      db'.saleRecord "carol" ≠ some (.sold "bob" 7 30) := by
  have hrun : returns (Db.buyAccount smallEnv.fc 33 (saleDb "bob") purchase) (fun d =>
      (d.saleRecord "carol").map (·.targetBuyer) = some "bob") = true := by decide +kernel
  have hvalid : purchase.validate = .ok () := by decide +kernel
  obtain ⟨db', hdb', htarget⟩ := returns_eq_true hrun
  have hleft := of_decide_eq_true htarget
  refine ⟨db', hvalid, hdb', hleft, fun hsold => ?_⟩
  rw [hsold] at hleft
  exact absurd hleft (by decide)

end VizCore.Chain
