import VizCore.Chain.Flow

/-!
# Paid subscriptions

Evaluators of `paid_subscription_evaluator.cpp`.

* `setPaidSubscription_flow`: the fee goes to the committee, the amount of a
  subscription is positive;
* `paidSubscribe_flow`: what the subscriber pays, the creator gets.
-/

namespace VizCore.Chain

open VizCore.Lib VizCore.Protocol

/-- `t + fc::seconds(s)`: 64-bit microseconds, cut to the 32 bits of `time_point_sec`. -/
def addSeconds (t : TimePointSec) (s : Int) : TimePointSec :=
  ((wrapInt64 ((t + s) * 1000000)).tdiv 1000000 % 2 ^ 32).toNat

def PaidSubscribeObject.key (s : PaidSubscribeObject) : AccountName × AccountName :=
  (s.subscriber, s.creator)

namespace Db

/-! ## Subscriptions -/

/-- `set_paid_subscription_evaluator::do_apply` -/
def setPaidSubscription (db : Db) (o : SetPaidSubscriptionOperation) : Result Db := do
  let _ ← db.getAccount o.account
  match db.paidSubscriptions.get (·.creator) o.account with
  | some _ =>
    return { db with
      paidSubscriptions := db.paidSubscriptions.update (·.creator) o.account fun s =>
        { s with
          url := o.url, levels := o.levels, amount := o.amount.amount, period := o.period
          updateTime := db.headBlockTime } }
  | none =>
    let db ← db.payFee o.account db.medianProps.createPaidSubscriptionFee.amount
      "Account does not have sufficient funds to create a paid subscription: required $\x7ba\x7d."
    return { db with
      paidSubscriptions := db.paidSubscriptions.create fun id =>
        { id := id, creator := o.account, url := o.url, levels := o.levels
          amount := o.amount.amount, period := o.period, updateTime := db.headBlockTime } }

/-! ## Subscribing -/

/-- The subscriber pays the creator. -/
def paySubscription (db : Db) (o : PaidSubscribeOperation) (cost : Int) : Result Db := do
  let subscriber ← db.getAccount o.subscriber
  fcAssert (cost ≤ subscriber.balance) "Account does not have sufficient TOKEN for paid subscribe."
  let db ← db.adjustBalance o.subscriber (-cost)
  db.adjustBalance o.account cost

/-- The subscription starts anew and lasts for `seconds`. -/
def restartSubscribe (db : Db) (o : PaidSubscribeOperation) (seconds : Nat) : Db :=
  { db with
    paidSubscribes := db.paidSubscribes.update (·.key) (o.subscriber, o.account) fun s =>
      { s with
        level := o.level, amount := o.amount.amount, period := o.period
        startTime := db.headBlockTime, nextTime := addSeconds db.headBlockTime seconds
        endTime := timeMaximum, active := true, autoRenewal := o.autoRenewal } }

/-- The part of the running period that has been paid and not been used. -/
def subscribeRemain (db : Db) (s : PaidSubscribeObject) : Result Int := do
  let oldSummary ← safeMul s.amount s.level
  let left : Int := (s.nextTime : Int) - db.headBlockTime
  let remain ← divUint128 (toUint128 oldSummary * toUint128 left % 2 ^ 128) (s.period * 86400)
  toSigned64 remain

/-- An active subscription gets another level, amount or period. -/
def changeSubscribe (db : Db) (o : PaidSubscribeOperation) (summary : Int)
    (s : PaidSubscribeObject) : Result Db := do
  let remain ← db.subscribeRemain s
  if summary ≤ remain then
    let seconds ← divUint128 (toUint128 remain * o.period % 2 ^ 128 * 86400 % 2 ^ 128)
      (toUint128 summary)
    fcAssert (seconds < 2 ^ 64) "hi == 0"
    return db.restartSubscribe o seconds
  else
    let cost ← safeSub summary remain
    let db ← db.paySubscription o cost
    return db.restartSubscribe o (o.period * 86400)

def newSubscribe (db : Db) (o : PaidSubscribeOperation) (summary : Int) : Result Db := do
  let db ← db.paySubscription o summary
  return { db with
    paidSubscribes := db.paidSubscribes.create fun id =>
      { id := id, subscriber := o.subscriber, creator := o.account, level := o.level
        amount := o.amount.amount, period := o.period, startTime := db.headBlockTime
        nextTime := addSeconds db.headBlockTime (o.period * 86400 : Nat), endTime := timeMaximum
        active := true, autoRenewal := o.autoRenewal } }

/-- `paid_subscribe_evaluator::do_apply` -/
def paidSubscribe (db : Db) (o : PaidSubscribeOperation) : Result Db := do
  fcAssert (0 < o.level) ("Paid subscibe can not be turn off manually, please wait subscribe end " ++
    "time or turn off auto_renewal.")
  let _ ← db.getAccount o.subscriber
  let _ ← db.getAccount o.account
  let subscription ← getOrThrow (db.paidSubscriptions.get (·.creator) o.account)
    (.assertion "Paid subscription was not found.")
  fcAssert (subscription.levels ≠ 0) "Paid subscription was closed."
  fcAssert (o.level ≤ subscription.levels)
    "Paid subscribe level greater that allowed in subscription options."
  fcAssert (subscription.period = o.period)
    "Paid subscribe period must be equal period in subscription options."
  fcAssert (subscription.amount = o.amount.amount)
    "Paid subscribe amount must be equal amount per level in subscription options."
  let summary ← safeMul o.amount.amount o.level
  match db.paidSubscribes.get (·.key) (o.subscriber, o.account) with
  | none => db.newSubscribe o summary
  | some s =>
    if s.active then
      if s.amount = o.amount.amount ∧ s.level = o.level ∧ s.period = o.period then
        fcAssert (s.autoRenewal ≠ o.autoRenewal)
          "Paid subscribe auto_renewal must be change if subscription model not changed."
        return { db with
          paidSubscribes := db.paidSubscribes.update (·.key) (o.subscriber, o.account) fun s =>
            { s with autoRenewal := o.autoRenewal } }
      else db.changeSubscribe o summary s
    else
      let db := { db with
        paidSubscribes := db.paidSubscribes.erase (·.key) (o.subscriber, o.account) }
      db.newSubscribe o summary

/-! ## What the evaluators do to the ledger -/

variable {fc : Fc} {g : Prop} {db db' : Db}

/-- A change of the subscriptions that keeps their amounts nonnegative. -/
theorem subscriptions_flow (db : Db) (t : Table PaidSubscriptionObject)
    (ok : g → db.ledger.Sound → t.All fun s => 0 ≤ s.amount) :
    Flow fc g 0 0 db { db with paidSubscriptions := t } :=
  .of_move (.terms db.ledger { db.terms with subscriptions := t }
    (fun hg hL => { hL.terms with subscriptions := ok hg hL }) fun hF => { hF with })

theorem validateSubscriptionTerms_pos {amount : Asset} {period : Nat}
    (h : validateSubscriptionTerms amount period = .ok ()) : 0 < amount.amount := by
  simp only [validateSubscriptionTerms, bind_eq_ok, fcAssert_eq_ok] at h
  obtain ⟨_, -, _, hpos, -⟩ := h
  exact hpos

theorem setPaidSubscription_flow {o : SetPaidSubscriptionOperation} (hv : o.validate fc = .ok ())
    (h : db.setPaidSubscription o = .ok db') : Flow fc db.Ready 0 0 db db' := by
  have hpos : 0 ≤ o.amount.amount := by
    simp only [SetPaidSubscriptionOperation.validate, bind_eq_ok] at hv
    obtain ⟨_, -, _, -, _, -, _, -, hterms⟩ := hv
    exact (validateSubscriptionTerms_pos hterms).le
  simp only [setPaidSubscription, bind_eq_ok] at h
  obtain ⟨_, -, h⟩ := h
  split at h
  · rw [pure_eq_ok] at h
    subst h
    exact subscriptions_flow db _ fun _ hL =>
      Table.all_update hL.terms.subscriptions fun _ _ _ => hpos
  · simp only [bind_eq_ok, pure_eq_ok] at h
    obtain ⟨db₁, hfee, rfl⟩ := h
    have hpaid : Flow fc db.Ready 0 0 db db₁ :=
      payFee_flow hfee fun hF => hF.terms.median.subscription
    refine hpaid.then_neutral (subscriptions_flow db₁ _ fun _ hL => ?_)
    exact Table.all_create hL.terms.subscriptions hpos

theorem paySubscription_flow {o : PaidSubscribeOperation} {cost : Int} (hcost : 0 ≤ cost)
    (h : db.paySubscription o cost = .ok db') : Flow fc g 0 0 db db' := by
  simp only [paySubscription, getAccount, bind_eq_ok, getOrThrow_eq_ok, fcAssert_eq_ok] at h
  obtain ⟨subscriber, hsubscriber, _, hcover, db₁, hdebit, hcredit⟩ := h
  have hout : Flow fc g (-cost) 0 db db₁ := adjustBalance_debit hdebit hsubscriber hcover
  have hin : Flow fc g cost 0 db₁ db' := adjustBalance_credit hcredit fun _ _ => hcost
  exact (hout.trans hin).cast (by omega) rfl

theorem newSubscribe_flow {o : PaidSubscribeOperation} {summary : Int} (hsummary : 0 ≤ summary)
    (h : db.newSubscribe o summary = .ok db') : Flow fc g 0 0 db db' := by
  simp only [newSubscribe, bind_eq_ok, pure_eq_ok] at h
  obtain ⟨db₁, hpay, rfl⟩ := h
  exact (paySubscription_flow hsummary hpay).then_same rfl

theorem changeSubscribe_flow {o : PaidSubscribeOperation} {summary : Int}
    {s : PaidSubscribeObject} (h : db.changeSubscribe o summary s = .ok db') :
    Flow fc g 0 0 db db' := by
  simp only [changeSubscribe, bind_eq_ok] at h
  obtain ⟨remain, -, h⟩ := h
  split at h
  · simp only [bind_eq_ok, pure_eq_ok] at h
    obtain ⟨_, -, _, -, rfl⟩ := h
    exact .of_ledger_eq rfl
  · rename_i hmore
    simp only [bind_eq_ok, safeSub_eq_ok, pure_eq_ok] at h
    obtain ⟨_, ⟨-, rfl⟩, db₁, hpay, rfl⟩ := h
    have hcost : 0 ≤ summary - remain := by omega
    exact (paySubscription_flow hcost hpay).then_same rfl

theorem paidSubscribe_amount_pos {o : PaidSubscribeOperation} (hv : o.validate = .ok ()) :
    0 < o.amount.amount := by
  simp only [PaidSubscribeOperation.validate, bind_eq_ok] at hv
  obtain ⟨_, -, _, -, _, -, hterms⟩ := hv
  exact validateSubscriptionTerms_pos hterms

theorem paidSubscribe_flow {o : PaidSubscribeOperation} (hv : o.validate = .ok ())
    (h : db.paidSubscribe o = .ok db') : Flow fc g 0 0 db db' := by
  have hamount := paidSubscribe_amount_pos hv
  simp only [paidSubscribe, bind_eq_ok, safeMul_eq_ok] at h
  obtain ⟨_, -, _, -, _, -, _, -, _, -, _, -, _, -, _, -, summary, ⟨-, hsum⟩, h⟩ := h
  have hsummary : 0 ≤ summary := by
    rw [← hsum]
    exact mul_nonneg hamount.le (Int.natCast_nonneg _)
  split at h
  · exact newSubscribe_flow hsummary h
  · split at h
    · split at h
      · simp only [bind_eq_ok, pure_eq_ok] at h
        obtain ⟨_, -, rfl⟩ := h
        exact .of_ledger_eq rfl
      · exact changeSubscribe_flow h
    · have hnew : Flow fc g 0 0 _ db' := newSubscribe_flow hsummary h
      exact hnew.after_same rfl

end Db

end VizCore.Chain
