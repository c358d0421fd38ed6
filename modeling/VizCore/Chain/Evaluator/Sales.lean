import VizCore.Chain.Flow

/-!
# Accounts on sale

Evaluators that put accounts and subaccounts on sale and that buy them, at a fixed
price or with a bid that is reserved until the auction ends.

* `setAccountPrice_flow`, `targetAccountSale_flow`: a bid that no longer counts is given
  back or forgotten;
* `buyAccount_flow`: a bid moves tokens from the balance to the reserve of the bidder.
  Nothing checks that the balance covers it;
* `buyAccount_clock`: only a bid reads the local clock.
-/

namespace VizCore.Chain

open VizCore.Lib VizCore.Protocol

/-- `CHAIN_ACCOUNT_ON_SALE_DELAY` -/
def accountOnSaleDelay : Nat := 7 * 24 * 60 * 60

/-- `CHAIN_ACCOUNT_AUCTION_MIN_STEP` -/
def accountAuctionMinStep : Nat := 1000

/-- `CHAIN_ACCOUNT_AUCTION_EXTENSION_TIME` -/
def accountAuctionExtensionTime : Nat := 5 * 60

namespace AccountObject

/-- No bid stands on the account any more. -/
def clearAuction (a : AccountObject) : AccountObject :=
  { a with
    accountOnAuction := false, currentBid := 0, currentBidder := "", currentBidderKey := 0
    lastBid := 0 }

/-- The account is not on sale any more. -/
def clearSale (a : AccountObject) : AccountObject :=
  { a with accountOnSale := false, accountOfferPrice := 0, accountOnSaleStartTime := 0 }

/-- The account with the new bid.  The end of the auction is extended by the clock of the
node. -/
def withBidOf (a : AccountObject) (clock : TimePointSec) (op : BuyAccountOperation) :
    AccountObject :=
  { a with
    lastBid :=
      if a.currentBidder ≠ "" ∧ a.currentBidder ≠ op.buyer then a.currentBid else a.lastBid
    currentBid := op.accountOfferPrice.amount
    currentBidder := op.buyer
    currentBidderKey := op.accountAuthoritiesKey
    accountOnAuction := true
    accountOnSaleStartTime :=
      max a.accountOnSaleStartTime ((clock + accountAuctionExtensionTime) % 2 ^ 32) }

end AccountObject

namespace Db

/-! ## Prices -/

/-- The fee for a sale, which an account that has no seller yet pays. -/
def paySaleFee (db : Db) (name seller : AccountName) (fee : Int) (msg : String) : Result Db :=
  if seller = "" then db.payFee name fee msg else return db

def setAccountSeller (db : Db) (name seller : AccountName) : Db :=
  db.modifyAccount name fun a => { a with accountSeller := seller }

/-- The bid on an account goes back from the reserve to the balance of the bidder. -/
def returnBid (db : Db) (name : AccountName) : Result Db := do
  let a ← db.getAccount name
  let bidder ← db.getAccount a.currentBidder
  let reserved ← safeSub bidder.reservedBalance a.currentBid
  let balance ← safeAdd bidder.balance a.currentBid
  return db.modifyAccount a.currentBidder fun b =>
    { b with reservedBalance := reserved, balance := balance }

def returnBidIf (c : Prop) [Decidable c] (db : Db) (name : AccountName) : Result Db :=
  if c then db.returnBid name else return db

/-- The bid is given back and forgotten. -/
def resetBid (db : Db) (name : AccountName) : Result Db := do
  let db ← db.returnBid name
  return db.modifyAccount name (·.clearAuction)

def resetBidIf (c : Prop) [Decidable c] (db : Db) (name : AccountName) : Result Db :=
  if c then db.resetBid name else return db

/-- A sale that was not on starts after the delay. -/
def saleStart (now : TimePointSec) (onSale : Bool) (a : AccountObject) : TimePointSec :=
  if !a.accountOnSale && onSale then now + accountOnSaleDelay else a.accountOnSaleStartTime

/-- `set_account_price_evaluator::do_apply` -/
def setAccountPrice (db : Db) (op : SetAccountPriceOperation) : Result Db := do
  let account ← db.getAccount op.account
  let _ ← db.getAccount op.accountSeller
  let db ← db.paySaleFee op.account account.accountSeller db.medianProps.accountOnSaleFee.amount
    "Account does not have sufficient funds to place account for sale: required $\x7ba\x7d."
  let db := db.setAccountSeller op.account op.accountSeller
  let a ← db.getAccount op.account
  let price := op.accountOfferPrice.amount
  let finish (a : AccountObject) : AccountObject :=
    { a with
      accountOfferPrice := price
      accountOnSaleStartTime := saleStart db.headBlockTime op.accountOnSale a
      accountOnSale := op.accountOnSale }
  if op.accountOnSale then
    let db ← db.resetBidIf (a.accountOfferPrice < price ∧ a.currentBidder ≠ "" ∧
      a.currentBid < price) op.account
    return db.modifyAccount op.account finish
  else
    let db ← db.returnBidIf (a.accountOnAuction = true ∧ a.currentBidder ≠ "") op.account
    return db.modifyAccount op.account fun a => finish a.clearSale.clearAuction

/-- Does the new price or target no longer admit the standing bid? -/
def targetRejectsBid (op : TargetAccountSaleOperation) (a : AccountObject) : Bool :=
  a.currentBidder ≠ "" &&
    if a.accountOfferPrice < op.accountOfferPrice.amount then
      if op.accountOfferPrice.amount ≤ a.currentBid then a.currentBidder ≠ op.targetBuyer else true
    else a.currentBidder ≠ op.targetBuyer

/-- The second change that `target_account_sale` makes to the account. -/
def finishTarget (now : TimePointSec) (op : TargetAccountSaleOperation) (a : AccountObject) :
    AccountObject :=
  { a with
    accountOfferPrice := op.accountOfferPrice.amount
    accountOnSaleStartTime := if op.accountOnSale then saleStart now op.accountOnSale a else 0
    targetBuyer := if op.accountOnSale then op.targetBuyer else ""
    accountOnSale := op.accountOnSale }

/-- `target_account_sale_evaluator::do_apply` -/
def targetAccountSale (db : Db) (op : TargetAccountSaleOperation) : Result Db := do
  let account ← db.getAccount op.account
  let _ ← db.getAccount op.accountSeller
  let _ ← db.getAccount op.targetBuyer
  let db ← db.paySaleFee op.account account.accountSeller db.medianProps.accountOnSaleFee.amount
    "Account does not have sufficient funds to place account for sale: required $\x7ba\x7d."
  let db := db.setAccountSeller op.account op.accountSeller
  let a ← db.getAccount op.account
  let now := db.headBlockTime
  if op.accountOnSale then
    let db ← db.resetBidIf (targetRejectsBid op a) op.account
    let db := db.modifyAccount op.account fun a =>
      { a with
        accountOfferPrice := op.accountOfferPrice.amount
        accountOnSaleStartTime := saleStart now op.accountOnSale a
        accountOnSale := true
        targetBuyer := op.targetBuyer }
    return db.modifyAccount op.account (finishTarget now op)
  else
    let db ← db.returnBidIf (a.accountOnAuction = true ∧ a.currentBidder ≠ "") op.account
    let db := db.modifyAccount op.account fun a =>
      { a.clearSale.clearAuction with targetBuyer := "" }
    return db.modifyAccount op.account (finishTarget now op)

/-- `set_subaccount_price_evaluator::do_apply` -/
def setSubaccountPrice (db : Db) (op : SetSubaccountPriceOperation) : Result Db := do
  let account ← db.getAccount op.account
  let _ ← db.getAccount op.subaccountSeller
  let db ← db.paySaleFee op.account account.subaccountSeller
    db.medianProps.subaccountOnSaleFee.amount
    "Account does not have sufficient funds to place subaccount for sale: required $\x7ba\x7d."
  return db.modifyAccount op.account fun a =>
    { a with
      subaccountSeller := op.subaccountSeller
      subaccountOfferPrice := op.subaccountOfferPrice.amount
      subaccountOnSale := op.subaccountOnSale }

/-! ## Buying -/

/-- The least step above the current bid.  The source multiplies signed 64-bit numbers, where a
product that does not fit is undefined and a compiler may divide by ten at once; the product here
always fits. -/
def minStep (a : AccountObject) : Int :=
  let step := (a.accountOfferPrice * accountAuctionMinStep).tdiv percent100
  let step := if a.lastBid ≠ 0 then max step (wrapInt64 (a.currentBid - a.lastBid)) else step
  if a.currentBid = 0 then a.accountOfferPrice else step

/-- The reserve and the balance that a bid leaves its bidder. -/
def reservedAmounts (db : Db) (op : BuyAccountOperation) : Result (Int × Int) := do
  let bidder ← db.getAccount op.buyer
  let reserved ← safeAdd bidder.reservedBalance op.accountOfferPrice.amount
  let balance ← safeSub bidder.balance op.accountOfferPrice.amount
  return (reserved, balance)

/-- The price moves into the reserve of the bidder. -/
def reserveBid (db : Db) (op : BuyAccountOperation) : Result Db := do
  let (reserved, balance) ← db.reservedAmounts op
  return db.modifyAccount op.buyer fun b =>
    { b with reservedBalance := reserved, balance := balance }

/-- A bid on an account whose sale has not started. -/
def bidAccount (db : Db) (clock : TimePointSec) (op : BuyAccountOperation) (a : AccountObject) :
    Result Db := do
  let price := op.accountOfferPrice.amount
  let least ← safeAdd a.currentBid (minStep a)
  fcAssert (least ≤ price)
    "Account offer price must be equal or greater minimal bid price: $\x7bbp\x7d."
  let db ← db.returnBidIf (a.currentBidder ≠ "") op.account
  reserveBid (db.modifyAccount op.account fun a => a.withBidOf clock op) op

/-- The buyer pays the price to the seller. -/
def payPrice (db : Db) (buyer seller : AccountName) (price : Int) : Result Db := do
  let db ← db.adjustBalance buyer (-price)
  db.adjustBalance seller price

/-- The new owner of an account gets one key for all its authorities. -/
def setAuthorities (db : Db) (name : AccountName) (key : PublicKey) : Db :=
  { db with
    accountAuthorities := db.accountAuthorities.update (·.account) name fun auth =>
      { auth with
        master := singleKey key, active := singleKey key, regular := singleKey key
        lastMasterUpdate := db.headBlockTime } }

/-- The purchase of an account at its price. -/
def buyNow (db : Db) (op : BuyAccountOperation) (a buyer : AccountObject) : Result Db := do
  fcAssert (a.currentBidder = "") "Account already have bid and waiting release."
  let _ ← db.getAccount a.accountSeller
  fcAssert (a.accountOfferPrice = op.accountOfferPrice.amount)
    ("Account offer price must be equal account_offer_price in target account: required $\x7ba\x7d, " ++
    "$\x7bp\x7d provided.")
  let total ← safeAdd a.accountOfferPrice op.tokensToShares.amount
  fcAssert (total ≤ buyer.balance)
    ("Inssufficient balance for account_offer_price and tokens_to_shares: required $\x7ba\x7d, " ++
    "$\x7bb\x7d available,")
  let db ← db.payPrice op.buyer a.accountSeller a.accountOfferPrice
  let db ← db.adjustBalance op.buyer (-op.tokensToShares.amount)
  let db ← db.createVesting op.account op.tokensToShares.amount
  let db := db.modifyAccount op.account fun a =>
    { a.clearSale with
      accountSeller := ""
      subaccountSeller := "", subaccountOfferPrice := 0, subaccountOnSale := false
      memoKey := op.accountAuthoritiesKey
      recoveryAccount := op.buyer
      lastAccountUpdate := db.headBlockTime }
  return db.setAuthorities op.account op.accountAuthoritiesKey

/-- The purchase of an existing account, or a bid on it. -/
def buyExisting (db : Db) (clock : TimePointSec) (op : BuyAccountOperation)
    (a buyer : AccountObject) : Result Db := do
  let _ ← db.getAuthority op.account
  fcAssert (a.accountOnSale = true) "Account not on sale."
  fcAssert (db.accountRecoveryRequests.get (·.accountToRecover) op.account |>.isNone)
    "Account have recovery request."
  fcAssert (a.targetBuyer = "" ∨ a.targetBuyer = op.buyer)
    "Account have target buyer: $\x7bb\x7d."
  if db.headBlockTime < a.accountOnSaleStartTime then db.bidAccount clock op a
  else db.buyNow op a buyer

/-- The purchase of a subaccount, which creates the account. -/
def buySubaccount (fc : Fc) (db : Db) (op : BuyAccountOperation) (buyer : AccountObject) :
    Result Db := do
  let (subaccount, account) ← getOrThrow (splitAtFirst '.' (fc.trim op.account))
    (.assertion "Account \"$\x7ba\x7d\" not found.")
  let a ← getOrThrow (db.findAccount account) (.assertion "Account \"$\x7ba\x7d\" not found.")
  fcAssert (isValidAccountName account) "Account part $\x7bn\x7d is invalid"
  fcAssert (isValidAccountName subaccount) "Subaccount part name $\x7bn\x7d is invalid"
  fcAssert (isValidDomainName subaccount account)
    "Subaccount part $\x7bs\x7d is invalid, account part $\x7bc\x7d"
  fcAssert (a.subaccountOnSale = true) "Subccount not on sale."
  let _ ← db.getAccount a.subaccountSeller
  fcAssert (a.subaccountOfferPrice = op.accountOfferPrice.amount)
    ("Account offer price must be equal subaccount_offer_price in target account: required " ++
    "$\x7ba\x7d, $\x7bp\x7d provided.")
  let total ← safeAdd a.subaccountOfferPrice op.tokensToShares.amount
  fcAssert (total ≤ buyer.balance)
    ("Inssufficient balance for subaccount_offer_price and tokens_to_shares: required $\x7ba\x7d, " ++
    "$\x7bb\x7d available,")
  let db ← db.payPrice op.buyer a.subaccountSeller a.subaccountOfferPrice
  let now := db.headBlockTime
  let db ← db.registerAccount
    (fun id =>
      { id := id, name := op.account, memoKey := op.accountAuthoritiesKey, created := now
        lastVoteTime := now, recoveryAccount := op.buyer })
    op.account op.accountAuthoritiesKey
  let db ← db.adjustBalance op.buyer (-op.tokensToShares.amount)
  db.createVesting op.account op.tokensToShares.amount

/-- `buy_account_evaluator::do_apply`; `clock` is what `fc::time_point::now()` returns. -/
def buyAccount (fc : Fc) (clock : TimePointSec) (db : Db) (op : BuyAccountOperation) :
    Result Db := do
  let buyer ← db.getAccount op.buyer
  fcAssert (op.accountAuthoritiesKey ≠ 0) "Account authorities key cannot be blank."
  fcAssert (db.medianProps.accountCreationFee.amount ≤ op.tokensToShares.amount)
    "Inssufficient amount tokens_to_shares: required $\x7bf\x7d, $\x7bp\x7d provided."
  match db.findAccount op.account with
  | some a => db.buyExisting clock op a buyer
  | none => buySubaccount fc db op buyer

/-! ## What the evaluators do to the ledger -/

section Flows

variable {fc : Fc} {g : Prop} {db db' : Db} {name : AccountName}

theorem paySaleFee_flow {seller : AccountName} {fee : Int} {msg : String}
    (ok : db.ledger.Fair → 0 ≤ fee)
    (h : db.paySaleFee name seller fee msg = .ok db') : Flow fc g 0 0 db db' := by
  unfold paySaleFee at h
  split at h
  · exact payFee_flow h ok
  · rw [pure_eq_ok] at h
    rw [h]
    exact .refl db'

theorem setAccountSeller_ledger (db : Db) (name seller : AccountName) :
    (db.setAccountSeller name seller).ledger = db.ledger :=
  ledger_modifyAccount_of_same db name _ fun _ => rfl

theorem returnBid_ledger {a : AccountObject} (ha : db.findAccount name = some a)
    (h : db.returnBid name = .ok db') :
    db'.ledger = db.ledger.modify a.currentBidder (·.release a.currentBid) ∧
      ∃ q, db.findAccount a.currentBidder = some q := by
  simp only [returnBid, getAccount, bind_eq_ok, getOrThrow_eq_ok, safeSub_eq_ok, safeAdd_eq_ok,
    pure_eq_ok] at h
  obtain ⟨a', ha', q, hq, _, ⟨-, rfl⟩, _, ⟨-, rfl⟩, rfl⟩ := h
  rw [ha] at ha'
  cases ha'
  refine ⟨?_, q, hq⟩
  exact ledger_modifyAccount_read hq _ (·.release a.currentBid)
    (fun p => { p with
      balance := q.balance + a.currentBid, reserved := q.reservedBalance - a.currentBid })
    (fun _ => rfl) rfl

/-- A bid that is given back and cleared. -/
theorem returnBid_flow {a : AccountObject} (ha : db.findAccount name = some a)
    (hne : a.currentBidder ≠ "") (h : db.returnBid name = .ok db')
    (f : AccountObject → AccountObject) (hf : ∀ b, (f b).purse = b.purse.withBid 0 "") :
    Flow fc g 0 0 db (db'.modifyAccount name f) := by
  obtain ⟨hledger, q, hq⟩ := returnBid_ledger ha h
  refine .of_move ?_
  rw [ledger_modifyAccount db' name f (·.withBid 0 "") hf, hledger]
  exact .refund db.ledger name a.purse q.purse (ledger_find_of_found ha)
    (ledger_find_of_found hq) hne

/-- A bid that is cleared, after it has been given back or not. -/
theorem returnBidIf_flow {c : Prop} [Decidable c] {a : AccountObject}
    (ha : db.findAccount name = some a) (hne : c → a.currentBidder ≠ "")
    (h : db.returnBidIf c name = .ok db') (f : AccountObject → AccountObject)
    (hf : ∀ b, (f b).purse = b.purse.withBid 0 "") :
    Flow fc g 0 0 db (db'.modifyAccount name f) := by
  unfold returnBidIf at h
  split at h
  · rename_i hc
    exact returnBid_flow ha (hne hc) h f hf
  · rw [pure_eq_ok] at h
    subst h
    refine .of_move ?_
    rw [ledger_modifyAccount db name f (·.withBid 0 "") hf]
    exact .drop db.ledger name

theorem resetBidIf_flow {c : Prop} [Decidable c] {a : AccountObject}
    (ha : db.findAccount name = some a) (hne : c → a.currentBidder ≠ "")
    (h : db.resetBidIf c name = .ok db') : Flow fc g 0 0 db db' := by
  unfold resetBidIf resetBid at h
  split at h
  · rename_i hc
    simp only [bind_eq_ok, pure_eq_ok] at h
    obtain ⟨db₁, hreturn, rfl⟩ := h
    exact returnBid_flow ha (hne hc) hreturn (·.clearAuction) fun _ => rfl
  · rw [pure_eq_ok] at h
    rw [h]
    exact .refl db'

theorem setAccountPrice_flow {op : SetAccountPriceOperation}
    (h : db.setAccountPrice op = .ok db') : Flow fc db.Ready 0 0 db db' := by
  simp only [setAccountPrice, bind_eq_ok] at h
  obtain ⟨account, -, _, -, db₁, hfee, a, ha, h⟩ := h
  have hpaid : Flow fc db.Ready 0 0 db db₁ :=
    paySaleFee_flow (fun hF => hF.terms.median.sale) hfee
  rw [getAccount, getOrThrow_eq_ok] at ha
  refine hpaid.then_neutral
    (Flow.after_same (setAccountSeller_ledger db₁ op.account op.accountSeller) ?_)
  split at h
  · simp only [bind_eq_ok, pure_eq_ok] at h
    obtain ⟨db₂, hreset, rfl⟩ := h
    have hflow : Flow fc db.Ready 0 0 _ db₂ := resetBidIf_flow ha (fun hc => hc.2.1) hreset
    exact hflow.then_modify fun _ => rfl
  · simp only [bind_eq_ok, pure_eq_ok] at h
    obtain ⟨db₂, hreturn, rfl⟩ := h
    exact returnBidIf_flow ha (fun hc => hc.2) hreturn _ fun _ => rfl

theorem targetAccountSale_flow {op : TargetAccountSaleOperation}
    (h : db.targetAccountSale op = .ok db') : Flow fc db.Ready 0 0 db db' := by
  simp only [targetAccountSale, bind_eq_ok] at h
  obtain ⟨account, -, _, -, _, -, db₁, hfee, a, ha, h⟩ := h
  have hpaid : Flow fc db.Ready 0 0 db db₁ :=
    paySaleFee_flow (fun hF => hF.terms.median.sale) hfee
  rw [getAccount, getOrThrow_eq_ok] at ha
  refine hpaid.then_neutral
    (Flow.after_same (setAccountSeller_ledger db₁ op.account op.accountSeller) ?_)
  split at h
  · simp only [bind_eq_ok, pure_eq_ok] at h
    obtain ⟨db₂, hreset, rfl⟩ := h
    have hne (hc : targetRejectsBid op a = true) : a.currentBidder ≠ "" := by
      unfold targetRejectsBid at hc
      rw [Bool.and_eq_true, decide_eq_true_eq] at hc
      exact hc.1
    have hflow : Flow fc db.Ready 0 0 _ db₂ := resetBidIf_flow ha hne hreset
    refine Flow.then_modify ?_ fun _ => rfl
    exact hflow.then_modify fun _ => rfl
  · simp only [bind_eq_ok, pure_eq_ok] at h
    obtain ⟨db₂, hreturn, rfl⟩ := h
    refine Flow.then_modify ?_ fun _ => rfl
    exact returnBidIf_flow ha (fun hc => hc.2) hreturn _ fun _ => rfl

theorem setSubaccountPrice_flow {op : SetSubaccountPriceOperation}
    (h : db.setSubaccountPrice op = .ok db') : Flow fc db.Ready 0 0 db db' := by
  simp only [setSubaccountPrice, bind_eq_ok, pure_eq_ok] at h
  obtain ⟨account, -, _, -, db₁, hfee, rfl⟩ := h
  have hpaid : Flow fc db.Ready 0 0 db db₁ :=
    paySaleFee_flow (fun hF => hF.terms.median.subaccountSale) hfee
  exact hpaid.then_modify fun _ => rfl

/-! ## Bids -/

/-- The balance of the buyer covers the bid, once a standing bid of its own has been given
back. -/
def BidCovered (db : Db) (op : BuyAccountOperation) : Prop :=
  ∀ a buyer, db.findAccount op.account = some a → db.findAccount op.buyer = some buyer →
    db.headBlockTime < a.accountOnSaleStartTime →
    op.accountOfferPrice.amount ≤
      buyer.balance + if a.currentBidder = op.buyer then a.currentBid else 0

theorem ledger_modify_withBid (L : Ledger) (name : AccountName) (x y : Int)
    (b c : AccountName) :
    (L.modify name (·.withBid x b)).modify name (·.withBid y c) =
      L.modify name (·.withBid y c) := by
  have hrows := Table.update_update L.purses (·.name) name (·.withBid x b) (·.withBid y c)
    fun _ => rfl
  show ({ L with purses := (L.purses.update (·.name) name _).update (·.name) name _ } : Ledger) = _
  rw [hrows]
  rfl

/-- The ledger without the standing bid, before a new one is placed. -/
def withoutBid (db : Db) (name : AccountName) (a : AccountObject) : Ledger :=
  if a.currentBidder = "" then db.ledger
  else (db.ledger.modify a.currentBidder (·.release a.currentBid)).modify name (·.withBid 0 "")

theorem withoutBid_walk {a : AccountObject} (ha : db.findAccount name = some a)
    (h : db.returnBidIf (a.currentBidder ≠ "") name = .ok db') :
    Walk (Move fc g) (0, 0) db.ledger (db.withoutBid name a) ∧
      ∀ x b, db'.ledger.modify name (·.withBid x b) =
        (db.withoutBid name a).modify name (·.withBid x b) := by
  unfold returnBidIf at h
  unfold withoutBid
  split at h
  · rename_i hne
    obtain ⟨hledger, q, hq⟩ := returnBid_ledger ha h
    rw [if_neg hne, hledger]
    refine ⟨.single (.refund db.ledger name a.purse q.purse (ledger_find_of_found ha)
      (ledger_find_of_found hq) hne), fun x b => ?_⟩
    exact (ledger_modify_withBid _ name 0 x "" b).symm
  · rename_i hempty
    rw [not_not] at hempty
    rw [pure_eq_ok] at h
    rw [if_pos hempty, ← h]
    exact ⟨.refl _, fun x b => rfl⟩

/-- The purses that a new bid meets. -/
theorem withoutBid_find {a buyer : AccountObject} {n : AccountName}
    (ha : db.findAccount name = some a) (hn : n ≠ "") (hbuyer : db.findAccount n = some buyer) :
    (∃ p, (db.withoutBid name a).find name = some p ∧ p.bidder = "") ∧
      ∃ q, (db.withoutBid name a).find n = some q ∧
        q.balance = buyer.balance + if a.currentBidder = n then a.currentBid else 0 := by
  have hp := ledger_find_of_found ha
  have hq := ledger_find_of_found hbuyer
  unfold withoutBid
  split
  · rename_i hempty
    rw [hempty, if_neg (Ne.symm hn), add_zero]
    exact ⟨⟨a.purse, hp, hempty⟩, buyer.purse, hq, rfl⟩
  · have hfind := Ledger.find_modify db.ledger a.currentBidder
    constructor
    · rw [Ledger.find_modify _ name name (·.withBid 0 "") fun _ => rfl, if_pos rfl,
        hfind name (·.release a.currentBid) fun _ => rfl]
      split
      · rename_i hself
        rw [← hself, hp]
        exact ⟨_, rfl, rfl⟩
      · rw [hp]
        exact ⟨_, rfl, rfl⟩
    · have hreleased : ∃ q, (db.ledger.modify a.currentBidder (·.release a.currentBid)).find n =
          some q ∧ q.balance = buyer.balance + if a.currentBidder = n then a.currentBid else 0 := by
        rw [hfind n (·.release a.currentBid) fun _ => rfl]
        split
        · rename_i hself
          rw [← hself, hq, if_pos rfl]
          exact ⟨_, rfl, rfl⟩
        · rename_i hother
          rw [hq, if_neg (Ne.symm hother), add_zero]
          exact ⟨_, rfl, rfl⟩
      obtain ⟨q, hq', hbalance⟩ := hreleased
      rw [Ledger.find_modify _ name n (·.withBid 0 "") fun _ => rfl]
      split
      · rename_i hself
        rw [← hself, hq']
        exact ⟨_, rfl, hbalance⟩
      · exact ⟨q, hq', hbalance⟩

/-- **A bid.**  The old bid goes back to its bidder and the new one into the reserve of the
buyer. -/
theorem bidAccount_flow {clock : TimePointSec} {op : BuyAccountOperation}
    {a buyer : AccountObject} (hname : op.buyer ≠ "") (hprice : 0 ≤ op.accountOfferPrice.amount)
    (ha : db.findAccount op.account = some a) (hbuyer : db.findAccount op.buyer = some buyer)
    (hcover : g → op.accountOfferPrice.amount ≤
      buyer.balance + if a.currentBidder = op.buyer then a.currentBid else 0)
    (h : db.bidAccount clock op a = .ok db') : Flow fc g 0 0 db db' := by
  simp only [bidAccount, reserveBid, reservedAmounts, getAccount, bind_eq_ok, getOrThrow_eq_ok,
    safeSub_eq_ok, safeAdd_eq_ok, pure_eq_ok] at h
  obtain ⟨_, -, _, -, db₁, hreturn, _, ⟨b, hb, _, ⟨-, rfl⟩, _, ⟨-, rfl⟩, rfl⟩, rfl⟩ := h
  obtain ⟨hwalk, hplace⟩ := withoutBid_walk ha hreturn
  obtain ⟨⟨p, hp, hfree⟩, q, hq, hbalance⟩ := withoutBid_find ha hname hbuyer
  have hledger := ledger_modifyAccount_read hb
    (fun x => { x with
      reservedBalance := b.reservedBalance + op.accountOfferPrice.amount
      balance := b.balance - op.accountOfferPrice.amount })
    (·.release (-op.accountOfferPrice.amount))
    (fun x => { x with
      reserved := b.reservedBalance + op.accountOfferPrice.amount
      balance := b.balance - op.accountOfferPrice.amount }) (fun _ => rfl)
    (by simp [Purse.release, AccountObject.purse, sub_eq_add_neg])
  have hbid := ledger_modifyAccount db₁ op.account (fun x => x.withBidOf clock op)
    (·.withBid op.accountOfferPrice.amount op.buyer) fun _ => rfl
  rw [hbid, hplace] at hledger
  unfold Flow
  rw [hledger]
  refine (hwalk.tail (.place (db.withoutBid op.account a) op.account op.buyer _ p q hp hq hfree
    fun hg _ => ⟨hprice, ?_⟩)).of_eq (zero_add _)
  rw [hbalance]
  exact hcover hg

/-! ## Purchases -/

/-- The price goes to the seller; the buyer keeps the rest. -/
theorem payPrice_flow {buyer seller : AccountName} {price : Int} {b : AccountObject}
    (hb : db.findAccount buyer = some b) (hprice : 0 ≤ price) (hcover : price ≤ b.balance)
    (h : db.payPrice buyer seller price = .ok db') :
    Flow fc g 0 0 db db' ∧
      ∃ b', db'.findAccount buyer = some b' ∧ b.balance - price ≤ b'.balance := by
  simp only [payPrice, bind_eq_ok] at h
  obtain ⟨db₁, hdebit, hcredit⟩ := h
  have hout : Flow fc g (-price) 0 db db₁ := adjustBalance_debit hdebit hb hcover
  have hin : Flow fc g price 0 db₁ db' := adjustBalance_credit hcredit fun _ _ => hprice
  refine ⟨(hout.trans hin).cast (by omega) rfl, ?_⟩
  obtain ⟨_, hb', hb₁⟩ := adjustBalance_find hdebit
  rw [hb] at hb'
  cases hb'
  by_cases hself : buyer = seller
  · subst hself
    obtain ⟨_, hb', hb₂⟩ := adjustBalance_find hcredit
    rw [hb₁] at hb'
    cases hb'
    exact ⟨_, hb₂, by simp only; omega⟩
  · rw [adjustBalance_find_ne hself hcredit]
    exact ⟨_, hb₁, by simp only; omega⟩

theorem buyNow_flow {op : BuyAccountOperation} {a buyer : AccountObject}
    (hprice : 0 ≤ op.accountOfferPrice.amount) (hshares : 0 ≤ op.tokensToShares.amount)
    (hbuyer : db.findAccount op.buyer = some buyer) (h : db.buyNow op a buyer = .ok db') :
    Flow fc db.Ready 0 0 db db' := by
  simp only [buyNow, bind_eq_ok, fcAssert_eq_ok, safeAdd_eq_ok, pure_eq_ok] at h
  obtain ⟨_, -, _, -, _, heq, _, ⟨-, rfl⟩, _, hcover, db₁, hpay, db₂, hdebit, db₃, hvest, rfl⟩ := h
  rw [heq] at hpay hcover
  obtain ⟨hpaid, b', hb', hrest⟩ := @payPrice_flow fc db.Ready _ _ _ _ _ _ hbuyer hprice
    (by omega) hpay
  have hout : Flow fc db.Ready (-op.tokensToShares.amount) 0 db₁ db₂ :=
    adjustBalance_debit hdebit hb' (by omega)
  have hin : Flow fc db.Ready op.tokensToShares.amount 0 db₂ db₃ := by
    refine createVesting_flow hvest fun hg _ => ⟨hshares, ?_⟩
    have hsmall := hg.balance_le hbuyer
    omega
  have hflow : Flow fc db.Ready 0 0 db db₃ := ((hpaid.trans hout).trans hin).cast (by omega) rfl
  refine Flow.then_same (b := db₃.modifyAccount op.account _) ?_ rfl
  exact hflow.then_modify fun _ => rfl

theorem buySubaccount_flow {op : BuyAccountOperation} {buyer : AccountObject}
    (hprice : 0 ≤ op.accountOfferPrice.amount) (hshares : 0 ≤ op.tokensToShares.amount)
    (hbuyer : db.findAccount op.buyer = some buyer)
    (h : buySubaccount fc db op buyer = .ok db') : Flow fc db.Ready 0 0 db db' := by
  simp only [buySubaccount, bind_eq_ok, fcAssert_eq_ok, safeAdd_eq_ok] at h
  obtain ⟨_, -, a, -, _, -, _, -, _, -, _, -, _, -, _, heq, _, ⟨-, rfl⟩, _, hcover, db₁, hpay, db₂,
    hregister, db₃, hdebit, hvest⟩ := h
  rw [heq] at hpay hcover
  obtain ⟨hpaid, b', hb', hrest⟩ := @payPrice_flow fc db.Ready _ _ _ _ _ _ hbuyer hprice
    (by omega) hpay
  have hopen : Flow fc db.Ready 0 0 db₁ db₂ := registerAccount_flow hregister fun _ => rfl
  have hout : Flow fc db.Ready (-op.tokensToShares.amount) 0 db₂ db₃ :=
    adjustBalance_debit hdebit (registerAccount_find hb' hregister) (by omega)
  have hin : Flow fc db.Ready op.tokensToShares.amount 0 db₃ db' := by
    refine createVesting_flow hvest fun hg _ => ⟨hshares, ?_⟩
    have hsmall := hg.balance_le hbuyer
    omega
  exact (((hpaid.trans hopen).trans hout).trans hin).cast (by omega) rfl

theorem validateAccountName_ne {n : AccountName} (h : validateAccountName n = .ok ()) : n ≠ "" := by
  rintro rfl
  rw [validateAccountName, fcAssert_eq_ok] at h
  exact absurd h (by decide)

theorem buyAccount_validated {op : BuyAccountOperation} (hv : op.validate = .ok ()) :
    op.buyer ≠ "" ∧ 0 < op.accountOfferPrice.amount ∧ 0 < op.tokensToShares.amount := by
  simp only [BuyAccountOperation.validate, validatePrice, List.forM_eq_forM, List.forM_cons,
    bind_eq_ok, fcAssert_eq_ok] at hv
  obtain ⟨_, ⟨_, hbuyerName, -⟩, _, ⟨_, -, hprice⟩, _, -, hshares⟩ := hv
  exact ⟨validateAccountName_ne hbuyerName, hprice, hshares⟩

/-- **Buying an account** keeps the totals; no amount turns negative if a bid is covered. -/
theorem buyAccount_flow {clock : TimePointSec} {op : BuyAccountOperation}
    (hv : op.validate = .ok ()) (h : buyAccount fc clock db op = .ok db') :
    Flow fc (db.Ready ∧ db.BidCovered op) 0 0 db db' := by
  obtain ⟨hbuyerName, hprice, hshares⟩ := buyAccount_validated hv
  simp only [buyAccount, getAccount, bind_eq_ok, getOrThrow_eq_ok] at h
  obtain ⟨buyer, hbuyer, _, -, _, -, h⟩ := h
  split at h
  · rename_i a ha
    simp only [buyExisting, bind_eq_ok] at h
    obtain ⟨_, -, _, -, _, -, _, -, h⟩ := h
    split at h
    · rename_i hstart
      exact bidAccount_flow hbuyerName hprice.le ha hbuyer
        (fun hg => hg.2 a buyer ha hbuyer hstart) h
    · exact (buyNow_flow hprice.le hshares.le hbuyer h).mono And.left
  · exact (buySubaccount_flow hprice.le hshares.le hbuyer h).mono And.left

/-! ## The local clock -/

theorem reservedAmounts_withBidOf (db : Db) (op : BuyAccountOperation) (clock : TimePointSec) :
    (db.modifyAccount op.account fun a => a.withBidOf clock op).reservedAmounts op =
      db.reservedAmounts op := by
  simp only [reservedAmounts, getAccount]
  by_cases hself : op.buyer = op.account
  · have hfind := Table.get_update_same db.accounts (·.name) op.account
      (fun a => a.withBidOf clock op) fun _ => rfl
    rw [hself, show (db.modifyAccount op.account fun a => a.withBidOf clock op).findAccount
      op.account = (db.findAccount op.account).map _ from hfind]
    cases db.findAccount op.account with
    | none => rfl
    | some b => rfl
  · have hfind := Table.get_update_ne db.accounts (·.name) (fun a => a.withBidOf clock op) hself
      fun _ => rfl
    rw [show (db.modifyAccount op.account fun a => a.withBidOf clock op).findAccount op.buyer =
      db.findAccount op.buyer from hfind]

/-- A bid that is refused is refused at every clock. -/
theorem bidAccount_error {op : BuyAccountOperation} {a : AccountObject} {e : Exception}
    (clock clock' : TimePointSec) (h : db.bidAccount clock op a = .error e) :
    db.bidAccount clock' op a = .error e := by
  simp only [bidAccount, reserveBid, reservedAmounts_withBidOf] at h ⊢
  refine bind_error_mono (fun least h => ?_) h
  refine bind_error_mono (fun _ h => ?_) h
  refine bind_error_mono (fun db₁ h => ?_) h
  refine bind_error_mono (fun amounts h => ?_) h
  cases h

/-- The operation is a bid that the evaluator accepts: the sale of the account has not
started. -/
def AcceptsBid (fc : Fc) (db : Db) (op : BuyAccountOperation) : Prop :=
  (∃ a, db.findAccount op.account = some a ∧ db.headBlockTime < a.accountOnSaleStartTime) ∧
    ∃ db', buyAccount fc 0 db op = .ok db'

/-- **The clock.**  Only a bid that is accepted depends on it. -/
theorem buyAccount_clock {op : BuyAccountOperation} (hbid : ¬ AcceptsBid fc db op)
    (clock : TimePointSec) : buyAccount fc clock db op = buyAccount fc 0 db op := by
  cases ha : db.findAccount op.account with
  | none => simp only [buyAccount, ha]
  | some a =>
    by_cases hstart : db.headBlockTime < a.accountOnSaleStartTime
    · have hrefused : ∀ db', buyAccount fc 0 db op ≠ .ok db' := fun db' h =>
        hbid ⟨⟨a, ha, hstart⟩, db', h⟩
      cases hrun : buyAccount fc 0 db op with
      | ok db' => exact absurd hrun (hrefused db')
      | error e =>
        simp only [buyAccount, buyExisting, ha, if_pos hstart] at hrun ⊢
        refine bind_error_mono (fun buyer h => ?_) hrun
        refine bind_error_mono (fun _ h => ?_) h
        refine bind_error_mono (fun _ h => ?_) h
        refine bind_error_mono (fun _ h => ?_) h
        refine bind_error_mono (fun _ h => ?_) h
        refine bind_error_mono (fun _ h => ?_) h
        refine bind_error_mono (fun _ h => ?_) h
        exact bidAccount_error 0 clock h
    · simp only [buyAccount, buyExisting, ha, if_neg hstart]

end Flows

end Db

end VizCore.Chain
