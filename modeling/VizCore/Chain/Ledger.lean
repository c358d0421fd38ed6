import VizCore.Lib.Walk
import VizCore.Protocol.Validate
import VizCore.Chain.Vesting

/-!
# The token ledger

An abstract view of the database: who holds which tokens and shares, and the terms
(fees, percentages, subscriptions, routes) by which they move.  A `Move` is an
elementary change of the ledger; its weight says by how much it changes the tokens
held above the supply and the shares held above the total.  Evaluators and block steps
are walks of moves whose weights cancel.

* `Move.surplus`, `Move.shareGap`: the weight of a move is what it does to the totals;
* `Move.settled`: approved escrows stay without fee, claimed invites stay empty,
  proposals stay validated;
* `Move.sound`: amounts stay nonnegative and bids stay covered by reserves, whenever
  the amounts moved are covered.
-/

namespace VizCore.Chain

open VizCore.Lib VizCore.Protocol

/-- What an account holds, and the bid that stands on it. -/
structure Purse where
  name : AccountName
  balance : Int
  reserved : Int
  shares : Int
  bid : Int
  bidder : AccountName
  deriving DecidableEq

namespace Purse

variable (p : Purse)

def add (x : Int) : Purse := { p with balance := p.balance + x }

def addShares (v : Int) : Purse := { p with shares := p.shares + v }

/-- Reserved tokens become balance again. -/
def release (x : Int) : Purse :=
  { p with balance := p.balance + x, reserved := p.reserved - x }

def unreserve (x : Int) : Purse := { p with reserved := p.reserved - x }

def withBid (x : Int) (bidder : AccountName) : Purse := { p with bid := x, bidder := bidder }

end Purse

/-- What decides the amounts that later steps move. -/
structure Terms where
  medianProps : ChainPropertiesHf9
  witnessProps : Table ChainPropertiesHf9
  inflationWitnessPercent : Int
  inflationRatio : Int
  subscriptions : Table PaidSubscriptionObject
  requests : Table CommitteeRequestObject
  routes : Table WithdrawVestingRouteObject

structure Ledger where
  purses : Table Purse
  escrows : Table EscrowObject
  invites : Table InviteObject
  proposals : Table ProposalObject
  supply : Int
  vestingFund : Int
  vestingShares : Int
  rewardFund : Int
  committeeFund : Int
  terms : Terms

/-! ## Terms -/

/-- The fees and percentages that the chain pays out or charges are not negative. -/
structure PropsSound (p : ChainPropertiesHf9) : Prop where
  request : 0 ≤ p.committeeCreateRequestFee.amount
  subscription : 0 ≤ p.createPaidSubscriptionFee.amount
  sale : 0 ≤ p.accountOnSaleFee.amount
  subaccountSale : 0 ≤ p.subaccountOnSaleFee.amount
  witness : 0 ≤ p.witnessDeclarationFee.amount
  inflation : 0 ≤ p.inflationWitnessPercent ∧ p.inflationWitnessPercent ≤ 10000
  ratio : 0 ≤ p.inflationRatioCommitteeVsRewardFund ∧
    p.inflationRatioCommitteeVsRewardFund ≤ 10000

/-- The routes that a withdrawal of `account` follows; a route to the account with id 0 is
never reached. -/
def Terms.routesOf (t : Terms) (account : Nat) : List WithdrawVestingRouteObject :=
  orderBy (fun r s => r.toAccount < s.toAccount)
    (t.routes.rows.filter fun r => r.fromAccount = account && 0 < r.toAccount)

/-- The percentage that the routes of `account` take of a withdrawal. -/
def Terms.routesPercent (t : Terms) (account : Nat) : Nat :=
  ((t.routesOf account).map (·.percent)).sum

theorem Terms.routesPercent_eq (t : Terms) (account : Nat) :
    (t.routesPercent account : Int) =
      t.routes.sum fun r =>
        if r.fromAccount = account ∧ 0 < r.toAccount then (r.percent : Int) else 0 := by
  have hperm := (orderBy_perm (fun r s : WithdrawVestingRouteObject => r.toAccount < s.toAccount)
    (t.routes.rows.filter fun r => r.fromAccount = account && 0 < r.toAccount)).map (·.percent)
  have hsum := hperm.sum_eq
  unfold Terms.routesPercent Terms.routesOf Table.sum
  rw [hsum]
  induction t.routes.rows with
  | nil => rfl
  | cons r rest ih =>
    by_cases h : r.fromAccount = account ∧ 0 < r.toAccount
    · simp [h, ih]
    · have hfalse : (decide (r.fromAccount = account) && decide (0 < r.toAccount)) = false := by
        simpa using h
      simp only [List.filter_cons, hfalse, Bool.false_eq_true, if_false, List.map_cons,
        List.sum_cons, if_neg h, zero_add]
      exact ih

structure Terms.Sound (t : Terms) : Prop where
  median : PropsSound t.medianProps
  witnesses : t.witnessProps.All PropsSound
  inflation : 0 ≤ t.inflationWitnessPercent ∧ t.inflationWitnessPercent ≤ 10000
  ratio : 0 ≤ t.inflationRatio ∧ t.inflationRatio ≤ 10000
  subscriptions : t.subscriptions.All fun s => 0 ≤ s.amount
  requests : t.requests.All fun r => 0 ≤ r.requiredAmountMin ∧ 0 ≤ r.remainPayoutAmount
  routes : ∀ account, t.routesPercent account ≤ 10000

/-- The part that fees and emission need. -/
structure Terms.Fair (t : Terms) : Prop where
  median : PropsSound t.medianProps
  witnesses : t.witnessProps.All PropsSound
  inflation : 0 ≤ t.inflationWitnessPercent ∧ t.inflationWitnessPercent ≤ 10000
  ratio : 0 ≤ t.inflationRatio ∧ t.inflationRatio ≤ 10000

theorem Terms.Sound.fair {t : Terms} (h : t.Sound) : t.Fair :=
  ⟨h.median, h.witnesses, h.inflation, h.ratio⟩

/-! ## The ledger and its totals -/

namespace Ledger

variable (L : Ledger)

def find (name : AccountName) : Option Purse := L.purses.get (·.name) name

def modify (name : AccountName) (f : Purse → Purse) : Ledger :=
  { L with purses := L.purses.update (·.name) name f }

/-- All tokens in accounts, escrows, invites and funds. -/
def holdings : Int :=
  L.purses.sum (·.balance) + L.purses.sum (·.reserved) +
    L.escrows.sum (fun e => e.tokenBalance + e.pendingFee) + L.invites.sum (·.balance) +
    L.vestingFund + L.rewardFund + L.committeeFund

/-- Tokens held above the supply. -/
def surplus : Int := L.holdings - L.supply

/-- Shares held above the total. -/
def shareGap : Int := L.purses.sum (·.shares) - L.vestingShares

/-- The bids that the account `name` has standing. -/
def bidsOf (name : AccountName) : Int :=
  L.purses.sum fun p => if p.bidder = name then p.bid else 0

def reservedOf (name : AccountName) : Int := ((L.find name).map (·.reserved)).getD 0

/-- An approved escrow has paid its fee, a claimed invite is empty, a proposal carries
validated operations. -/
structure Settled (fc : Fc) : Prop where
  escrows : L.escrows.All fun e => e.isApproved = true → e.pendingFee = 0
  invites : L.invites.All fun i => i.status ≠ 0 → i.balance = 0
  proposals : L.proposals.All fun p => validateAll fc p.proposedOperations = .ok ()

/-- No amount is negative, standing bids are covered by reserves, and a share is worth at
least a thousandth of a token unit. -/
structure Sound : Prop where
  purses : L.purses.All fun p => 0 ≤ p.balance ∧ 0 ≤ p.reserved ∧ 0 ≤ p.shares ∧ 0 ≤ p.bid
  reserves : ∀ name, name ≠ "" → L.bidsOf name ≤ L.reservedOf name
  escrows : L.escrows.All fun e => 0 ≤ e.tokenBalance ∧ 0 ≤ e.pendingFee
  invites : L.invites.All fun i => 0 ≤ i.balance
  rewardFund : 0 ≤ L.rewardFund
  committeeFund : 0 ≤ L.committeeFund
  vestingFund : 0 ≤ L.vestingFund
  vestingShares : 0 ≤ L.vestingShares
  price : L.vestingShares ≤ 1000 * L.vestingFund
  terms : L.terms.Sound

/-- The part of soundness that the price of a share needs. -/
structure Convertible : Prop where
  vestingFund : 0 ≤ L.vestingFund
  vestingShares : 0 ≤ L.vestingShares
  price : L.vestingShares ≤ 1000 * L.vestingFund

/-- The funds of the chain are not negative, and nothing that it charges is. -/
structure Fair : Prop where
  rewardFund : 0 ≤ L.rewardFund
  committeeFund : 0 ≤ L.committeeFund
  terms : L.terms.Fair

variable {L}

theorem Sound.fair (hL : L.Sound) : L.Fair := ⟨hL.rewardFund, hL.committeeFund, hL.terms.fair⟩

theorem Sound.convertible (hL : L.Sound) : L.Convertible :=
  ⟨hL.vestingFund, hL.vestingShares, hL.price⟩

end Ledger

/-! ## Moves -/

/-- The elementary changes of the ledger, with their weight in tokens and in shares.  `g` is
what is known when the move is made: under `g`, and in a sound ledger, what is taken is
covered.  What is taken from the funds of the chain is covered in any case. -/
inductive Move (fc : Fc) (g : Prop) : Int × Int → Ledger → Ledger → Prop
  /-- the balance of an account changes by `x` -/
  | pay (L : Ledger) (name : AccountName) (x : Int) (p : Purse) (hp : L.find name = some p)
      (ok : g → L.Sound → 0 ≤ p.balance + x) :
      Move fc g (x, 0) L (L.modify name (·.add x))
  /-- tokens become vesting shares of an account -/
  | vest (L : Ledger) (name : AccountName) (t v : Int) (p : Purse) (hp : L.find name = some p)
      (ok : g → L.Sound → 0 ≤ t ∧ 0 ≤ v ∧ v ≤ 1000 * t) :
      Move fc g (t, 0) L { L.modify name (·.addShares v) with
        vestingFund := L.vestingFund + t, vestingShares := L.vestingShares + v }
  /-- the vesting shares of an account change by `v` -/
  | grant (L : Ledger) (name : AccountName) (v : Int) (p : Purse) (hp : L.find name = some p)
      (ok : g → L.Sound → 0 ≤ p.shares + v) :
      Move fc g (0, v) L (L.modify name (·.addShares v))
  /-- `v` shares are cancelled and `t` tokens leave the vesting fund -/
  | redeem (L : Ledger) (t v : Int)
      (ok : g → L.Sound → t ≤ L.vestingFund ∧ v ≤ L.vestingShares ∧
        L.vestingShares - v ≤ 1000 * (L.vestingFund - t)) :
      Move fc g (-t, v) L
        { L with vestingFund := L.vestingFund - t, vestingShares := L.vestingShares - v }
  /-- the reward fund changes by `x` -/
  | reward (L : Ledger) (x : Int) (ok : L.Fair → 0 ≤ L.rewardFund + x)
      (fits : L.rewardFund + x < 2 ^ 63) :
      Move fc g (x, 0) L { L with rewardFund := L.rewardFund + x }
  /-- the committee fund changes by `x` -/
  | committee (L : Ledger) (x : Int) (ok : L.Fair → 0 ≤ L.committeeFund + x) :
      Move fc g (x, 0) L { L with committeeFund := L.committeeFund + x }
  /-- the supply changes by `x` -/
  | issue (L : Ledger) (x : Int) : Move fc g (-x, 0) L { L with supply := L.supply + x }
  | escrows (L : Ledger) (t : Table EscrowObject) (x : Int)
      (hx : t.sum (fun e => e.tokenBalance + e.pendingFee) =
        L.escrows.sum (fun e => e.tokenBalance + e.pendingFee) + x)
      (settled : L.Settled fc → t.All fun e => e.isApproved = true → e.pendingFee = 0)
      (ok : g → L.Sound → t.All fun e => 0 ≤ e.tokenBalance ∧ 0 ≤ e.pendingFee) :
      Move fc g (x, 0) L { L with escrows := t }
  | invites (L : Ledger) (t : Table InviteObject) (x : Int)
      (hx : t.sum (·.balance) = L.invites.sum (·.balance) + x)
      (settled : L.Settled fc → t.All fun i => i.status ≠ 0 → i.balance = 0)
      (ok : g → L.Sound → t.All fun i => 0 ≤ i.balance) :
      Move fc g (x, 0) L { L with invites := t }
  | proposals (L : Ledger) (t : Table ProposalObject)
      (settled : L.Settled fc → t.All fun p => validateAll fc p.proposedOperations = .ok ()) :
      Move fc g (0, 0) L { L with proposals := t }
  | terms (L : Ledger) (t : Terms) (ok : g → L.Sound → t.Sound) (fair : L.terms.Fair → t.Fair) :
      Move fc g (0, 0) L { L with terms := t }
  /-- a new account -/
  | enroll (L : Ledger) (name : AccountName) (hnew : L.find name = none) :
      Move fc g (0, 0) L
        { L with purses := L.purses.create fun _ => ⟨name, 0, 0, 0, 0, ""⟩ }
  /-- the bid on an account is forgotten -/
  | drop (L : Ledger) (name : AccountName) :
      Move fc g (0, 0) L (L.modify name (·.withBid 0 ""))
  /-- the bid on an account is given back -/
  | refund (L : Ledger) (name : AccountName) (p q : Purse) (hp : L.find name = some p)
      (hq : L.find p.bidder = some q) (hne : p.bidder ≠ "") :
      Move fc g (0, 0) L ((L.modify p.bidder (·.release p.bid)).modify name (·.withBid 0 ""))
  /-- the bid on an account is paid to its seller -/
  | settle (L : Ledger) (name seller : AccountName) (p q r : Purse) (hp : L.find name = some p)
      (hq : L.find p.bidder = some q) (hne : p.bidder ≠ "") (hr : L.find seller = some r) :
      Move fc g (0, 0) L
        (((L.modify p.bidder (·.unreserve p.bid)).modify seller (·.add p.bid)).modify name
          (·.withBid 0 ""))
  /-- `bidder` puts `x` on an account without a bid -/
  | place (L : Ledger) (name bidder : AccountName) (x : Int) (p q : Purse)
      (hp : L.find name = some p) (hq : L.find bidder = some q) (hfree : p.bidder = "")
      (ok : g → L.Sound → 0 ≤ x ∧ x ≤ q.balance) :
      Move fc g (0, 0) L
        ((L.modify name (·.withBid x bidder)).modify bidder (·.release (-x)))

/-! ## Changing one purse -/

namespace Ledger

variable {L : Ledger} {name m : AccountName} {f : Purse → Purse}

theorem find_modify (L : Ledger) (name m : AccountName) (f : Purse → Purse)
    (hf : ∀ p, (f p).name = p.name) :
    (L.modify name f).find m = if m = name then (L.find name).map f else L.find m := by
  unfold find modify
  split
  · rename_i h
    rw [h]
    exact Table.get_update_same L.purses _ name f hf
  · rename_i h
    exact Table.get_update_ne L.purses _ f h hf

theorem isSome_find_modify (L : Ledger) (name m : AccountName) (f : Purse → Purse)
    (hf : ∀ p, (f p).name = p.name) :
    ((L.modify name f).find m).isSome = (L.find m).isSome := by
  rw [find_modify L name m f hf]
  split
  · rename_i h
    rw [h, Option.isSome_map]
  · rfl

/-- A change that adds `x` to a quantity of one purse adds `x` to its total. -/
theorem sum_modify (g : Purse → Int) (x : Int) (hfound : (L.find name).isSome)
    (hg : ∀ p, g (f p) = g p + x) : (L.modify name f).purses.sum g = L.purses.sum g + x := by
  obtain ⟨p, hp⟩ := Option.isSome_iff_exists.1 hfound
  have h := Table.sum_update L.purses (·.name) name f g hp
  rw [hg] at h
  simp only [modify]
  omega

theorem sum_modify_of_same (L : Ledger) (name : AccountName) (f : Purse → Purse)
    (g : Purse → Int) (hg : ∀ p, g (f p) = g p) :
    (L.modify name f).purses.sum g = L.purses.sum g :=
  Table.sum_update_of_same L.purses _ name f g hg

theorem surplus_modify (x y : Int) (hfound : (L.find name).isSome)
    (hb : ∀ p, (f p).balance = p.balance + x) (hr : ∀ p, (f p).reserved = p.reserved + y) :
    (L.modify name f).surplus = L.surplus + x + y := by
  have hbal := sum_modify (·.balance) x hfound hb
  have hres := sum_modify (·.reserved) y hfound hr
  simp only [modify] at hbal hres
  simp only [surplus, holdings, modify, hbal, hres]
  omega

theorem surplus_modify_of_same (L : Ledger) (name : AccountName) (f : Purse → Purse)
    (hb : ∀ p, (f p).balance = p.balance) (hr : ∀ p, (f p).reserved = p.reserved) :
    (L.modify name f).surplus = L.surplus := by
  have hbal := sum_modify_of_same L name f (·.balance) hb
  have hres := sum_modify_of_same L name f (·.reserved) hr
  simp only [modify] at hbal hres
  simp only [surplus, holdings, modify, hbal, hres]

theorem surplus_add (x : Int) (hfound : (L.find name).isSome) :
    (L.modify name (·.add x)).surplus = L.surplus + x := by
  have h := surplus_modify (f := (·.add x)) x 0 hfound (fun _ => rfl)
    fun p => (add_zero p.reserved).symm
  omega

theorem surplus_unreserve (x : Int) (hfound : (L.find name).isSome) :
    (L.modify name (·.unreserve x)).surplus = L.surplus - x := by
  have h := surplus_modify (f := (·.unreserve x)) 0 (-x) hfound
    (fun p => (add_zero p.balance).symm) fun p => sub_eq_add_neg p.reserved x
  omega

theorem surplus_release (x : Int) (hfound : (L.find name).isSome) :
    (L.modify name (·.release x)).surplus = L.surplus := by
  have h := surplus_modify (f := (·.release x)) x (-x) hfound (fun _ => rfl)
    fun p => sub_eq_add_neg p.reserved x
  omega

theorem surplus_withBid (L : Ledger) (name : AccountName) (x : Int) (bidder : AccountName) :
    (L.modify name (·.withBid x bidder)).surplus = L.surplus :=
  surplus_modify_of_same L name _ (fun _ => rfl) fun _ => rfl

theorem surplus_addShares (L : Ledger) (name : AccountName) (v : Int) :
    (L.modify name (·.addShares v)).surplus = L.surplus :=
  surplus_modify_of_same L name _ (fun _ => rfl) fun _ => rfl

theorem shareGap_addShares (v : Int) (hfound : (L.find name).isSome) :
    (L.modify name (·.addShares v)).shareGap = L.shareGap + v := by
  have hsum := sum_modify (L := L) (·.shares) v hfound fun p => (rfl : (p.addShares v).shares = _)
  simp only [modify] at hsum
  simp only [shareGap, modify, hsum]
  omega

theorem shareGap_modify_of_same (L : Ledger) (name : AccountName) (f : Purse → Purse)
    (hs : ∀ p, (f p).shares = p.shares) : (L.modify name f).shareGap = L.shareGap := by
  have hsum := sum_modify_of_same L name f (·.shares) hs
  simp only [modify] at hsum
  simp only [shareGap, modify, hsum]

@[simp] theorem shareGap_add (L : Ledger) (name : AccountName) (x : Int) :
    (L.modify name (·.add x)).shareGap = L.shareGap :=
  shareGap_modify_of_same L name (·.add x) fun _ => rfl

@[simp] theorem shareGap_release (L : Ledger) (name : AccountName) (x : Int) :
    (L.modify name (·.release x)).shareGap = L.shareGap :=
  shareGap_modify_of_same L name (·.release x) fun _ => rfl

@[simp] theorem shareGap_unreserve (L : Ledger) (name : AccountName) (x : Int) :
    (L.modify name (·.unreserve x)).shareGap = L.shareGap :=
  shareGap_modify_of_same L name (·.unreserve x) fun _ => rfl

@[simp] theorem shareGap_withBid (L : Ledger) (name : AccountName) (x : Int)
    (bidder : AccountName) : (L.modify name (·.withBid x bidder)).shareGap = L.shareGap :=
  shareGap_modify_of_same L name (·.withBid x bidder) fun _ => rfl

end Ledger

/-! ## What a move does to the totals -/

section Totals

variable {fc : Fc} {g : Prop} {w : Int × Int} {L L' : Ledger}

theorem Move.surplus (h : Move fc g w L L') : L'.surplus = L.surplus + w.1 := by
  cases h with
  | pay L name x p hp ok => exact Ledger.surplus_add x (Option.isSome_of_eq_some hp)
  | vest L name t v p hp ok =>
    have h := Ledger.surplus_addShares L name v
    simp only [Ledger.surplus, Ledger.holdings, Ledger.modify] at h ⊢
    omega
  | grant L name v p hp ok => exact (Ledger.surplus_addShares L name v).trans (add_zero _).symm
  | redeem L t v ok =>
    simp only [Ledger.surplus, Ledger.holdings]
    omega
  | reward L x ok fits =>
    simp only [Ledger.surplus, Ledger.holdings]
    omega
  | committee L x ok =>
    simp only [Ledger.surplus, Ledger.holdings]
    omega
  | issue L x =>
    simp only [Ledger.surplus, Ledger.holdings]
    omega
  | escrows L t x hx settled ok =>
    simp only [Ledger.surplus, Ledger.holdings, hx]
    omega
  | invites L t x hx settled ok =>
    simp only [Ledger.surplus, Ledger.holdings, hx]
    omega
  | proposals L t settled => exact (add_zero _).symm
  | terms L t ok fair => exact (add_zero _).symm
  | enroll L name hnew =>
    simp only [Ledger.surplus, Ledger.holdings, Table.sum_create]
    omega
  | drop L name => exact (Ledger.surplus_withBid L name 0 "").trans (add_zero _).symm
  | refund L name p q hp hq hne =>
    rw [Ledger.surplus_withBid, Ledger.surplus_release p.bid (Option.isSome_of_eq_some hq)]
    exact (add_zero _).symm
  | settle L name seller p q r hp hq hne hr =>
    have hseller : ((L.modify p.bidder (·.unreserve p.bid)).find seller).isSome := by
      rw [Ledger.isSome_find_modify L p.bidder seller (·.unreserve p.bid) fun _ => rfl]
      exact Option.isSome_of_eq_some hr
    rw [Ledger.surplus_withBid, Ledger.surplus_add p.bid hseller,
      Ledger.surplus_unreserve p.bid (Option.isSome_of_eq_some hq)]
    omega
  | place L name bidder x p q hp hq hfree ok =>
    have hbidder : ((L.modify name (·.withBid x bidder)).find bidder).isSome := by
      rw [Ledger.isSome_find_modify L name bidder (·.withBid x bidder) fun _ => rfl]
      exact Option.isSome_of_eq_some hq
    rw [Ledger.surplus_release (-x) hbidder, Ledger.surplus_withBid]
    exact (add_zero _).symm

theorem Move.shareGap (h : Move fc g w L L') : L'.shareGap = L.shareGap + w.2 := by
  cases h with
  | pay L name x p hp ok => simp
  | vest L name t v p hp ok =>
    have h := Ledger.shareGap_addShares v (Option.isSome_of_eq_some hp)
    simp only [Ledger.shareGap, Ledger.modify] at h ⊢
    omega
  | grant L name v p hp ok => exact Ledger.shareGap_addShares v (Option.isSome_of_eq_some hp)
  | redeem L t v ok =>
    simp only [Ledger.shareGap]
    omega
  | reward | committee | issue | escrows | invites | proposals | terms => exact (add_zero _).symm
  | enroll L name hnew =>
    simp only [Ledger.shareGap, Table.sum_create]
    omega
  | drop L name => simp
  | refund L name p q hp hq hne => simp
  | settle L name seller p q r hp hq hne hr => simp
  | place L name bidder x p q hp hq hfree ok => simp

theorem Move.settled (h : Move fc g w L L') (hL : L.Settled fc) : L'.Settled fc := by
  obtain ⟨hescrows, hinvites, hproposals⟩ := hL
  cases h with
  | escrows L t x hx settled ok =>
    exact ⟨settled ⟨hescrows, hinvites, hproposals⟩, hinvites, hproposals⟩
  | invites L t x hx settled ok =>
    exact ⟨hescrows, settled ⟨hescrows, hinvites, hproposals⟩, hproposals⟩
  | proposals L t settled => exact ⟨hescrows, hinvites, settled ⟨hescrows, hinvites, hproposals⟩⟩
  | _ => exact ⟨hescrows, hinvites, hproposals⟩

end Totals

/-! ## Soundness -/

namespace Ledger

variable {L : Ledger} {name m : AccountName} {f : Purse → Purse}

theorem bidsOf_modify_of_same (L : Ledger) (name n : AccountName) (f : Purse → Purse)
    (hbid : ∀ p, (f p).bid = p.bid) (hbidder : ∀ p, (f p).bidder = p.bidder) :
    (L.modify name f).bidsOf n = L.bidsOf n :=
  sum_modify_of_same L name f _ fun p => by rw [hbid, hbidder]

/-- A new bid replaces the old one in the sums of the bidders. -/
theorem bidsOf_withBid {p : Purse} (hp : L.find name = some p) (x : Int)
    (bidder n : AccountName) :
    (L.modify name (·.withBid x bidder)).bidsOf n =
      L.bidsOf n + ((if bidder = n then x else 0) - if p.bidder = n then p.bid else 0) :=
  Table.sum_update L.purses _ name _ _ hp

theorem reservedOf_modify (n : AccountName) (y : Int) (hfound : (L.find name).isSome)
    (hname : ∀ p, (f p).name = p.name) (hr : ∀ p, (f p).reserved = p.reserved + y) :
    (L.modify name f).reservedOf n = L.reservedOf n + if n = name then y else 0 := by
  obtain ⟨p, hp⟩ := Option.isSome_iff_exists.1 hfound
  unfold reservedOf
  rw [find_modify L name n f hname]
  split
  · rename_i hn
    rw [hn, hp]
    exact hr p
  · exact (add_zero _).symm

theorem reservedOf_modify_of_same (L : Ledger) (name n : AccountName) (f : Purse → Purse)
    (hname : ∀ p, (f p).name = p.name) (hr : ∀ p, (f p).reserved = p.reserved) :
    (L.modify name f).reservedOf n = L.reservedOf n := by
  unfold reservedOf
  rw [find_modify L name n f hname]
  split
  · rename_i hn
    rw [hn, Option.map_map]
    have hcomp : (fun p : Purse => p.reserved) ∘ f = fun p => p.reserved := funext hr
    rw [hcomp]
  · rfl

theorem Sound.bid_le_reserved (hL : L.Sound) {p q : Purse} (hp : L.find name = some p)
    (hq : L.find p.bidder = some q) (hne : p.bidder ≠ "") : p.bid ≤ q.reserved := by
  have hpos : L.purses.All fun r => 0 ≤ if r.bidder = p.bidder then r.bid else 0 := by
    intro r hr
    have h := (hL.purses r hr).2.2.2
    split
    · exact h
    · exact le_rfl
  have hmem : p.bid ≤ L.bidsOf p.bidder := by
    have h := Table.le_sum_of_mem hpos (Table.get_mem hp)
    rwa [if_pos rfl] at h
  have hres := hL.reserves p.bidder hne
  rw [reservedOf, hq] at hres
  exact hmem.trans hres

/-- The parts of the holdings of a sound ledger are not negative. -/
theorem Sound.parts_nonneg (hL : L.Sound) :
    0 ≤ L.purses.sum (·.balance) ∧ 0 ≤ L.purses.sum (·.reserved) ∧
      0 ≤ L.escrows.sum (fun e => e.tokenBalance + e.pendingFee) ∧
      0 ≤ L.invites.sum (·.balance) := by
  refine ⟨?_, ?_, ?_, ?_⟩
  · exact Table.sum_nonneg fun p hp => (hL.purses p hp).1
  · exact Table.sum_nonneg fun p hp => (hL.purses p hp).2.1
  · exact Table.sum_nonneg fun e he => add_nonneg (hL.escrows e he).1 (hL.escrows e he).2
  · exact Table.sum_nonneg hL.invites

theorem Sound.balance_le_holdings (hL : L.Sound) {p : Purse} (hp : L.find name = some p) :
    p.balance ≤ L.holdings := by
  obtain ⟨-, hres, hesc, hinv⟩ := hL.parts_nonneg
  have hle : p.balance ≤ L.purses.sum (·.balance) :=
    Table.le_sum_of_mem (fun q hq => (hL.purses q hq).1) (Table.get_mem hp)
  have hv := hL.vestingFund
  have hr := hL.rewardFund
  have hc := hL.committeeFund
  unfold holdings
  omega

theorem Sound.invite_le_holdings (hL : L.Sound) {i : InviteObject} (hi : i ∈ L.invites.rows) :
    i.balance ≤ L.holdings := by
  obtain ⟨hbal, hres, hesc, -⟩ := hL.parts_nonneg
  have hle : i.balance ≤ L.invites.sum (·.balance) := Table.le_sum_of_mem hL.invites hi
  have hv := hL.vestingFund
  have hr := hL.rewardFund
  have hc := hL.committeeFund
  unfold holdings
  omega

theorem Sound.vestingFund_le_holdings (hL : L.Sound) : L.vestingFund ≤ L.holdings := by
  obtain ⟨hbal, hres, hesc, hinv⟩ := hL.parts_nonneg
  have hr := hL.rewardFund
  have hc := hL.committeeFund
  unfold holdings
  omega

theorem Sound.rewardFund_le_holdings (hL : L.Sound) : L.rewardFund ≤ L.holdings := by
  obtain ⟨hbal, hres, hesc, hinv⟩ := hL.parts_nonneg
  have hv := hL.vestingFund
  have hc := hL.committeeFund
  unfold holdings
  omega

/-- A change of one purse that keeps its reserve and its bid and leaves no amount
negative. -/
theorem Sound.modify (hL : L.Sound) (hname : ∀ p, (f p).name = p.name)
    (hbid : ∀ p, (f p).bid = p.bid) (hbidder : ∀ p, (f p).bidder = p.bidder)
    (hr : ∀ p, (f p).reserved = p.reserved)
    (hok : ∀ p, L.find name = some p → 0 ≤ (f p).balance ∧ 0 ≤ (f p).shares) :
    (L.modify name f).Sound := by
  refine { hL with purses := ?_, reserves := ?_ }
  · refine Table.all_update hL.purses fun p hp hpos => ?_
    obtain ⟨hbal, hshares⟩ := hok p hp
    rw [hbid, hr]
    exact ⟨hbal, hpos.2.1, hshares, hpos.2.2.2⟩
  · intro n hn
    rw [bidsOf_modify_of_same L name n f hbid hbidder,
      reservedOf_modify_of_same L name n f hname hr]
    exact hL.reserves n hn

theorem find_modify_bid {p : Purse} (hp : L.find name = some p) (m : AccountName)
    (f : Purse → Purse) (hname : ∀ p, (f p).name = p.name) (hbid : ∀ p, (f p).bid = p.bid)
    (hbidder : ∀ p, (f p).bidder = p.bidder) :
    ∃ q, (L.modify m f).find name = some q ∧ q.bid = p.bid ∧ q.bidder = p.bidder := by
  rw [find_modify L m name f hname]
  split
  · rename_i h
    rw [h] at hp
    exact ⟨f p, by rw [hp]; rfl, hbid p, hbidder p⟩
  · exact ⟨p, hp, rfl, rfl⟩

/-- The bid on an account may be cleared once its bidder's reserve has been taken down by
it. -/
theorem Sound.closeBid (hL : L.Sound) {p q : Purse} (t : Table Purse)
    (hpurses : t.All fun p => 0 ≤ p.balance ∧ 0 ≤ p.reserved ∧ 0 ≤ p.shares ∧ 0 ≤ p.bid)
    (hbids : ∀ n, Ledger.bidsOf { L with purses := t } n = L.bidsOf n)
    (hq : Ledger.find { L with purses := t } name = some q)
    (hbid : q.bid = p.bid) (hbidder : q.bidder = p.bidder)
    (hres : ∀ n, Ledger.reservedOf { L with purses := t } n =
      L.reservedOf n - if n = p.bidder then p.bid else 0) :
    (Ledger.modify { L with purses := t } name (·.withBid 0 "")).Sound := by
  refine { hL with purses := ?_, reserves := ?_ }
  · exact Table.all_update hpurses fun r _ hr => ⟨hr.1, hr.2.1, hr.2.2.1, le_rfl⟩
  · intro n hn
    have hle := hL.reserves n hn
    rw [reservedOf_modify_of_same _ name n (·.withBid 0 "") (fun _ => rfl) fun _ => rfl,
      bidsOf_withBid hq, hbids, hres, hbid, hbidder, if_neg (Ne.symm hn)]
    by_cases h : n = p.bidder
    · rw [if_pos h.symm, if_pos h]
      omega
    · rw [if_neg (Ne.symm h), if_neg h]
      omega

theorem Sound.refund (hL : L.Sound) {p q : Purse} (hp : L.find name = some p)
    (hq : L.find p.bidder = some q) (hne : p.bidder ≠ "") :
    ((L.modify p.bidder (·.release p.bid)).modify name (·.withBid 0 "")).Sound := by
  have hcover := hL.bid_le_reserved hp hq hne
  have hpos := hL.purses p (Table.get_mem hp)
  obtain ⟨p', hp', hbid, hbidder⟩ := find_modify_bid hp p.bidder (·.release p.bid)
    (fun _ => rfl) (fun _ => rfl) fun _ => rfl
  refine hL.closeBid (L.modify p.bidder (·.release p.bid)).purses ?_ (fun n => ?_) hp' hbid
    hbidder fun n => ?_
  · refine Table.all_update hL.purses fun r hr hrpos => ?_
    rw [show L.purses.get (·.name) p.bidder = some q from hq] at hr
    cases hr
    exact ⟨add_nonneg hrpos.1 hpos.2.2.2, sub_nonneg.2 hcover, hrpos.2.2.1, hrpos.2.2.2⟩
  · exact bidsOf_modify_of_same L p.bidder n (·.release p.bid) (fun _ => rfl) fun _ => rfl
  · have h := reservedOf_modify (f := (·.release p.bid)) n (-p.bid)
      (Option.isSome_of_eq_some hq) (fun _ => rfl) fun r => sub_eq_add_neg r.reserved p.bid
    refine h.trans ?_
    split <;> omega

theorem Sound.settle (hL : L.Sound) {p q : Purse} {seller : AccountName}
    (hp : L.find name = some p) (hq : L.find p.bidder = some q) (hne : p.bidder ≠ "") :
    (((L.modify p.bidder (·.unreserve p.bid)).modify seller (·.add p.bid)).modify name
      (·.withBid 0 "")).Sound := by
  have hcover := hL.bid_le_reserved hp hq hne
  have hpos := hL.purses p (Table.get_mem hp)
  let K := L.modify p.bidder (·.unreserve p.bid)
  obtain ⟨p₁, hp₁, hbid₁, hbidder₁⟩ := find_modify_bid hp p.bidder (·.unreserve p.bid)
    (fun _ => rfl) (fun _ => rfl) fun _ => rfl
  obtain ⟨p₂, hp₂, hbid₂, hbidder₂⟩ := find_modify_bid hp₁ seller (·.add p.bid)
    (fun _ => rfl) (fun _ => rfl) fun _ => rfl
  refine hL.closeBid (K.modify seller (·.add p.bid)).purses ?_ (fun n => ?_) hp₂
    (hbid₂.trans hbid₁) (hbidder₂.trans hbidder₁) fun n => ?_
  · refine Table.all_update ?_ fun s _ hspos =>
      ⟨add_nonneg hspos.1 hpos.2.2.2, hspos.2.1, hspos.2.2.1, hspos.2.2.2⟩
    refine Table.all_update hL.purses fun s hs hspos => ?_
    rw [show L.purses.get (·.name) p.bidder = some q from hq] at hs
    cases hs
    exact ⟨hspos.1, sub_nonneg.2 hcover, hspos.2.2.1, hspos.2.2.2⟩
  · have h₁ := bidsOf_modify_of_same K seller n (·.add p.bid) (fun _ => rfl) fun _ => rfl
    have h₂ := bidsOf_modify_of_same L p.bidder n (·.unreserve p.bid) (fun _ => rfl) fun _ => rfl
    exact h₁.trans h₂
  · have h₁ := reservedOf_modify_of_same K seller n (·.add p.bid) (fun _ => rfl) fun _ => rfl
    have h₂ := reservedOf_modify (f := (·.unreserve p.bid)) n (-p.bid)
      (Option.isSome_of_eq_some hq) (fun _ => rfl) fun r => sub_eq_add_neg r.reserved p.bid
    refine (h₁.trans h₂).trans ?_
    split <;> omega

theorem Sound.place (hL : L.Sound) {bidder : AccountName} {x : Int} {p q : Purse}
    (hp : L.find name = some p) (hq : L.find bidder = some q) (hfree : p.bidder = "")
    (hx : 0 ≤ x) (hcover : x ≤ q.balance) :
    ((L.modify name (·.withBid x bidder)).modify bidder (·.release (-x))).Sound := by
  let K := L.modify name (·.withBid x bidder)
  have hfound : (K.find bidder).isSome := by
    rw [isSome_find_modify L name bidder (·.withBid x bidder) fun _ => rfl]
    exact Option.isSome_of_eq_some hq
  refine { hL with purses := ?_, reserves := ?_ }
  · have hK : K.purses.All fun p => 0 ≤ p.balance ∧ 0 ≤ p.reserved ∧ 0 ≤ p.shares ∧ 0 ≤ p.bid :=
      Table.all_update hL.purses fun r _ hr => ⟨hr.1, hr.2.1, hr.2.2.1, hx⟩
    refine Table.all_update hK fun r hr hrpos => ?_
    have hbal : r.balance = q.balance := by
      have hfind : K.find bidder = some r := hr
      rw [find_modify L name bidder (·.withBid x bidder) fun _ => rfl] at hfind
      split at hfind
      · rename_i h
        rw [← h, hq] at hfind
        cases hfind
        rfl
      · rw [hq] at hfind
        cases hfind
        rfl
    refine ⟨?_, ?_, hrpos.2.2.1, hrpos.2.2.2⟩
    · simp only [Purse.release]
      omega
    · simp only [Purse.release]
      omega
  · intro n hn
    have hle := hL.reserves n hn
    have hbids := bidsOf_modify_of_same K bidder n (·.release (-x)) (fun _ => rfl) fun _ => rfl
    have hnew : K.bidsOf n = _ := bidsOf_withBid hp x bidder n
    have hres := reservedOf_modify (f := (·.release (-x))) n x hfound (fun _ => rfl)
      fun r => sub_neg_eq_add r.reserved x
    have hold : K.reservedOf n = _ :=
      reservedOf_modify_of_same L name n (·.withBid x bidder) (fun _ => rfl) fun _ => rfl
    rw [hbids, hnew, hres, hold, hfree, if_neg (Ne.symm hn)]
    by_cases h : n = bidder
    · rw [if_pos h, if_pos h.symm]
      omega
    · rw [if_neg h, if_neg (Ne.symm h)]
      omega

/-- Forgetting a bid leaves a reserve that is larger than needed. -/
theorem Sound.drop (hL : L.Sound) (name : AccountName) :
    (L.modify name (·.withBid 0 "")).Sound := by
  refine { hL with purses := ?_, reserves := ?_ }
  · exact Table.all_update hL.purses fun r _ hr => ⟨hr.1, hr.2.1, hr.2.2.1, le_rfl⟩
  · intro n hn
    have hle := hL.reserves n hn
    rw [reservedOf_modify_of_same L name n (·.withBid 0 "") (fun _ => rfl) fun _ => rfl]
    cases hp : L.find name with
    | none =>
      have hsame : L.modify name (·.withBid 0 "") = L := by
        unfold Ledger.modify
        rw [Table.update_of_get_none _ _ _ _ hp]
      rwa [hsame]
    | some p =>
      have hbid := (hL.purses p (Table.get_mem hp)).2.2.2
      rw [bidsOf_withBid hp, if_neg (Ne.symm hn)]
      split <;> omega

/-- A new account has no bids standing: those of a name that nobody has are worth nothing. -/
theorem Sound.enroll (hL : L.Sound) :
    Sound { L with purses := L.purses.create fun _ => ⟨name, 0, 0, 0, 0, ""⟩ } := by
  refine { hL with purses := ?_, reserves := ?_ }
  · exact Table.all_create hL.purses ⟨le_rfl, le_rfl, le_rfl, le_rfl⟩
  · intro n hn
    have hbids : Ledger.bidsOf
        { L with purses := L.purses.create fun _ => ⟨name, 0, 0, 0, 0, ""⟩ } n = L.bidsOf n := by
      simp [bidsOf]
    have hres : Ledger.reservedOf
        { L with purses := L.purses.create fun _ => ⟨name, 0, 0, 0, 0, ""⟩ } n =
          L.reservedOf n := by
      simp only [reservedOf, find, Table.get, Table.create, List.find?_append]
      cases L.purses.rows.find? fun p => decide (p.name = n) with
      | some p => rfl
      | none =>
        by_cases h : name = n
        · simp [h]
        · simp [h]
    rw [hbids, hres]
    exact hL.reserves n hn

end Ledger

/-- **Soundness of moves.**  Whenever what is known covers the amounts, a move keeps a sound
ledger sound. -/
theorem Move.sound {fc : Fc} {g : Prop} {w : Int × Int} {L L' : Ledger}
    (h : Move fc g w L L') (hg : g) (hL : L.Sound) : L'.Sound := by
  cases h with
  | pay L name x p hp ok =>
    refine hL.modify (f := (·.add x)) (fun _ => rfl) (fun _ => rfl) (fun _ => rfl)
      (fun _ => rfl) fun q hq => ?_
    rw [hp] at hq
    cases hq
    exact ⟨ok hg hL, (hL.purses p (Table.get_mem hp)).2.2.1⟩
  | vest L name t v p hp ok =>
    obtain ⟨ht, hv, hvt⟩ := ok hg hL
    have hmod : (L.modify name (·.addShares v)).Sound := by
      refine hL.modify (f := (·.addShares v)) (fun _ => rfl) (fun _ => rfl) (fun _ => rfl)
        (fun _ => rfl) fun q hq => ?_
      have hpos := hL.purses q (Table.get_mem hq)
      exact ⟨hpos.1, add_nonneg hpos.2.2.1 hv⟩
    have hprice := hL.price
    exact { hmod with
      vestingFund := add_nonneg hL.vestingFund ht
      vestingShares := add_nonneg hL.vestingShares hv
      price := by
        show L.vestingShares + v ≤ 1000 * (L.vestingFund + t)
        omega }
  | grant L name v p hp ok =>
    refine hL.modify (f := (·.addShares v)) (fun _ => rfl) (fun _ => rfl) (fun _ => rfl)
      (fun _ => rfl) fun q hq => ?_
    rw [hp] at hq
    cases hq
    exact ⟨(hL.purses p (Table.get_mem hp)).1, ok hg hL⟩
  | redeem L t v ok =>
    obtain ⟨ht, hv, hprice⟩ := ok hg hL
    exact { hL with
      vestingFund := sub_nonneg.2 ht, vestingShares := sub_nonneg.2 hv, price := hprice }
  | reward L x ok fits => exact { hL with rewardFund := ok hL.fair }
  | committee L x ok => exact { hL with committeeFund := ok hL.fair }
  | issue L x => exact { hL with }
  | escrows L t x hx settled ok => exact { hL with escrows := ok hg hL }
  | invites L t x hx settled ok => exact { hL with invites := ok hg hL }
  | proposals L t settled => exact { hL with }
  | terms L t ok fair => exact { hL with terms := ok hg hL }
  | enroll L name hnew => exact hL.enroll
  | drop L name => exact hL.drop name
  | refund L name p q hp hq hne => exact hL.refund hp hq hne
  | settle L name seller p q r hp hq hne hr => exact hL.settle hp hq hne
  | place L name bidder x p q hp hq hfree ok =>
    obtain ⟨hx, hcover⟩ := ok hg hL
    exact hL.place hp hq hfree hx hcover

/-- No move overdraws the funds of the chain. -/
theorem Move.fair {fc : Fc} {g : Prop} {w : Int × Int} {L L' : Ledger}
    (h : Move fc g w L L') (hL : L.Fair) : L'.Fair := by
  cases h with
  | reward L x ok fits => exact { hL with rewardFund := ok hL }
  | committee L x ok => exact { hL with committeeFund := ok hL }
  | terms L t ok fair => exact { hL with terms := fair hL.terms }
  | _ => exact { hL with }

/-- No move overflows the reward fund. -/
theorem Move.rewardFund_lt {fc : Fc} {g : Prop} {w : Int × Int} {L L' : Ledger}
    (h : Move fc g w L L') (hL : L.rewardFund < 2 ^ 63) : L'.rewardFund < 2 ^ 63 := by
  cases h with
  | reward L x ok fits => exact fits
  | _ => exact hL

end VizCore.Chain
