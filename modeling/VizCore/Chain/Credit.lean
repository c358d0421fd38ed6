import VizCore.Chain.Renewals
import VizCore.Chain.Replay

/-!
# The credit of subscribers

What is left of a paid period is turned into tokens and back into time when a subscriber
changes the terms.

* `subscribeRemain_bounds`: the tokens are the credit, rounded down;
* `paidSubscribe_bills`, `renewals_bill`: what is paid and what has been left account for the
  credit;
* `credit_backed`: along a run no subscriber has more credit than has been paid, where renewals
  keep the period and come one at a time.
-/

namespace VizCore.Chain

open VizCore.Lib VizCore.Protocol

/-! ## Credit -/

/-- What the rest of the period is worth at the time `t`. -/
def PaidSubscribeObject.credit (s : PaidSubscribeObject) (t : TimePointSec) : ℚ :=
  s.amount * s.level * ((s.nextTime : ℚ) - t) / (s.period * 86400)

/-- The numbers of a subscribe stay within their bounds. -/
structure PaidSubscribeObject.Sane (s : PaidSubscribeObject) (t : TimePointSec) : Prop where
  amount : 0 ≤ s.amount
  price : s.amount * s.level < 2 ^ 63
  period : 0 < s.period ∧ s.period ≤ 1000
  nextTime : s.nextTime < 2 ^ 32
  credit : s.active = true → s.credit t < 2 ^ 63

namespace PaidSubscribeObject

variable {s : PaidSubscribeObject} {t t' : TimePointSec}

theorem credit_anti (hs : s.Sane t) (h : t ≤ t') : s.credit t' ≤ s.credit t := by
  have hamount : (0 : ℚ) ≤ s.amount := by exact_mod_cast hs.amount
  have htime : (t : ℚ) ≤ t' := by exact_mod_cast h
  unfold credit
  gcongr

theorem Sane.later (hs : s.Sane t) (h : t ≤ t') : s.Sane t' :=
  { hs with credit := fun hactive => lt_of_le_of_lt (credit_anti hs h) (hs.credit hactive) }

/-- The credit as a quotient of whole numbers. -/
theorem credit_eq {a d : Nat} (ha : s.amount * s.level = a) (hd : s.nextTime = t + d) :
    s.credit t = (a * d : ℕ) / (s.period * 86400 : ℕ) := by
  have hprice : (s.amount : ℚ) * s.level = a := by exact_mod_cast ha
  unfold credit
  rw [hprice, hd]
  push_cast
  ring

/-- After a whole period has been paid. -/
theorem credit_period (hs : 0 < s.period) (h : s.nextTime = t + s.period * 86400) :
    s.credit t = (s.amount * s.level : ℤ) := by
  have hperiod : (s.period : ℚ) ≠ 0 := by exact_mod_cast hs.ne'
  unfold credit
  rw [h]
  push_cast
  field_simp
  ring

end PaidSubscribeObject

/-! ## Tokens for the rest of a period -/

theorem toUint128_natCast {a : Nat} (h : a < 2 ^ 128) : toUint128 (a : ℤ) = a := by
  have hcast := toUint128_of_nonneg (x := (a : ℤ)) (Int.natCast_nonneg a) (by exact_mod_cast h)
  exact_mod_cast hcast

theorem product_fits {a d : Nat} (ha : a < 2 ^ 63) (hd : d < 2 ^ 32) :
    toUint128 (a : ℤ) * toUint128 (d : ℤ) % 2 ^ 128 = a * d := by
  have hprod : a * d < 2 ^ 63 * 2 ^ 32 := Nat.mul_lt_mul'' ha hd
  rw [toUint128_natCast (lt_trans ha (by norm_num)), toUint128_natCast (lt_trans hd (by norm_num)),
    Nat.mod_eq_of_lt (lt_trans hprod (by norm_num))]

/-- A negative number of seconds is a number close to `2 ^ 128`. -/
theorem product_overdue {a d : Nat} (ha : a < 2 ^ 63) (hpos : 0 < a) (hd : d < 2 ^ 32)
    (hlate : 0 < d) : 2 ^ 127 ≤ toUint128 (a : ℤ) * toUint128 (-(d : ℤ)) % 2 ^ 128 := by
  have hprod : a * d < 2 ^ 63 * 2 ^ 32 := Nat.mul_lt_mul'' ha hd
  have hprod' : 0 < a * d := Nat.mul_pos hpos hlate
  have hneg : toUint128 (-(d : ℤ)) = 2 ^ 128 - d := by
    unfold toUint128
    omega
  obtain ⟨b, rfl⟩ : ∃ b, a = b + 1 := Nat.exists_eq_succ_of_ne_zero hpos.ne'
  have hsplit : (b + 1) * (2 ^ 128 - d) = (2 ^ 128 - (b + 1) * d) + 2 ^ 128 * b := by
    rw [Nat.mul_sub]
    omega
  rw [toUint128_natCast (lt_trans ha (by norm_num)), hneg, hsplit, Nat.add_mul_mod_self_left,
    Nat.mod_eq_of_lt (by omega)]
  omega

theorem product_period {n p : Nat} (hn : n < 2 ^ 63) (hp : p ≤ 1000) :
    toUint128 (n : ℤ) * p % 2 ^ 128 * 86400 % 2 ^ 128 = n * (p * 86400) := by
  have hprod : n * p ≤ 2 ^ 63 * 1000 := Nat.mul_le_mul hn.le hp
  have hdays : n * p % 2 ^ 128 = n * p := Nat.mod_eq_of_lt (by omega)
  have hseconds : n * p * 86400 % 2 ^ 128 = n * p * 86400 := Nat.mod_eq_of_lt (by omega)
  rw [toUint128_natCast (lt_trans hn (by norm_num)), hdays, hseconds, Nat.mul_assoc]

/-- The quotient of two numbers, rounded down. -/
theorem floor_bounds (n : Nat) {d : Nat} (hd : 0 < d) :
    ((n / d : ℕ) : ℚ) ≤ (n : ℚ) / d ∧ (n : ℚ) / d < (n / d : ℕ) + 1 := by
  have hpos : (0 : ℚ) < d := by exact_mod_cast hd
  constructor
  · rw [le_div_iff₀ hpos]
    exact_mod_cast Nat.div_mul_le_self n d
  · rw [div_lt_iff₀ hpos]
    have hlt := Nat.lt_mul_div_succ n hd
    rw [Nat.mul_comm] at hlt
    exact_mod_cast hlt

namespace Db

variable {db db' : Db} {s : PaidSubscribeObject}

/-- **What is left**, in tokens: the credit rounded down.  A subscribe whose time has passed has
nothing left, or the operation throws. -/
theorem subscribeRemain_bounds (hs : s.Sane db.headBlockTime) (hactive : s.active = true)
    (hhead : db.headBlockTime < 2 ^ 32) {r : Int} (h : db.subscribeRemain s = .ok r) :
    0 ≤ r ∧ r < 2 ^ 63 ∧ (r : ℚ) ≤ max 0 (s.credit db.headBlockTime) ∧
      max 0 (s.credit db.headBlockTime) < r + 1 := by
  obtain ⟨a, ha⟩ : ∃ a : ℕ, s.amount * s.level = a :=
    Int.eq_ofNat_of_zero_le (mul_nonneg hs.amount (Int.natCast_nonneg _))
  have hprice : a < 2 ^ 63 := by
    have hlt := hs.price
    rw [ha] at hlt
    exact_mod_cast hlt
  have hseconds : 0 < s.period * 86400 := Nat.mul_pos hs.period.1 (by norm_num)
  have hcredit := hs.credit hactive
  simp only [subscribeRemain, bind_eq_ok, safeMul_eq_ok, divUint128, toSigned64, require_eq_ok,
    fcAssert_eq_ok, pure_eq_ok, ha] at h
  obtain ⟨_, ⟨-, rfl⟩, remain, ⟨_, -, hremain⟩, _, hsmall, rfl⟩ := h
  rcases Nat.le_total db.headBlockTime s.nextTime with hle | hle
  · obtain ⟨d, hd⟩ := Nat.exists_eq_add_of_le hle
    have hd' : d < 2 ^ 32 := lt_of_le_of_lt (Nat.le_add_left d _) (hd ▸ hs.nextTime)
    have hleft : (s.nextTime : ℤ) - db.headBlockTime = d := by
      rw [hd]
      push_cast
      ring
    rw [hleft, product_fits hprice hd'] at hremain
    obtain ⟨hfloor, hceil⟩ := floor_bounds (a * d) hseconds
    rw [hremain] at hfloor hceil
    rw [PaidSubscribeObject.credit_eq ha hd] at hcredit ⊢
    have hr : remain < 2 ^ 63 := by
      have hlt : (remain : ℚ) < ((2 ^ 63 : ℕ) : ℚ) := by
        push_cast
        exact lt_of_le_of_lt hfloor hcredit
      exact_mod_cast hlt
    have hnonneg : (0 : ℚ) ≤ (a * d : ℕ) / (s.period * 86400 : ℕ) := by positivity
    rw [toInt64_of_lt hr, max_eq_right hnonneg]
    exact ⟨Int.natCast_nonneg _, by exact_mod_cast hr, by exact_mod_cast hfloor,
      by exact_mod_cast hceil⟩
  · obtain ⟨d, hd⟩ := Nat.exists_eq_add_of_le hle
    have hleft : (s.nextTime : ℤ) - db.headBlockTime = -(d : ℤ) := by
      rw [hd]
      push_cast
      ring
    rw [hleft] at hremain
    have hzero : a * d = 0 := by
      by_contra hne
      have hpos := Nat.pos_of_ne_zero hne
      have hd' : d < 2 ^ 32 := lt_of_le_of_lt (Nat.le_add_left d _) (hd ▸ hhead)
      have hbig := product_overdue hprice (Nat.pos_of_mul_pos_right hpos) hd'
        (Nat.pos_of_mul_pos_left hpos)
      have hle : 2 ^ 64 ≤ remain := by
        rw [← hremain, Nat.le_div_iff_mul_le hseconds]
        have := hs.period.2
        omega
      omega
    have hnone : s.credit db.headBlockTime = 0 := by
      have hprice' : (s.amount : ℚ) * s.level = a := by exact_mod_cast ha
      have hzero' : (a : ℚ) * d = 0 := by exact_mod_cast hzero
      unfold PaidSubscribeObject.credit
      rw [hprice', hd]
      push_cast
      rw [sub_add_cancel_left, mul_neg, hzero', neg_zero, zero_div]
    have hr : remain = 0 := by
      rw [← hremain]
      rcases Nat.mul_eq_zero.1 hzero with rfl | rfl
      · simp [toUint128]
      · simp [toUint128]
    rw [hnone, hr]
    norm_num [toInt64]

/-! ## Bills -/

/-- The credit that a subscriber has with a creator. -/
def creditOf (db : Db) (key : AccountName × AccountName) : ℚ :=
  match db.paidSubscribes.get (·.key) key with
  | some s => if s.active then max 0 (s.credit db.headBlockTime) else 0
  | none => 0

/-- The subscriber pays the creator: two calls of `adjust_balance` on the accounts. -/
def Pays (db : Db) (key : AccountName × AccountName) (c : Int) (db' : Db) : Prop :=
  ∃ d d₁ d₂ : Db, d.accounts = db.accounts ∧ d.adjustBalance key.1 (-c) = .ok d₁ ∧
    d₁.adjustBalance key.2 c = .ok d₂ ∧ db'.accounts = d₂.accounts

/-- The new credit is what was left and what has been paid, rounded in favour of the creator. -/
structure Bill (key : AccountName × AccountName) (c : Int) (db db' : Db) : Prop where
  nonneg : 0 ≤ c
  paid : 0 < c → db.Pays key c db'
  atMost : db'.creditOf key ≤ db.creditOf key + c
  atLeast : 0 < c → db.creditOf key + c - 1 < db'.creditOf key

/-- What the subscribes and subscriptions are like in every state of a run. -/
structure Tended (db : Db) : Prop where
  ids : db.paidSubscribes.Numbered (·.id)
  keys : db.paidSubscribes.Keyed (·.key)
  terms : db.paidSubscriptions.All fun p => 0 ≤ p.amount
  rows : db.paidSubscribes.All fun s => s.Sane db.headBlockTime

theorem creditOf_row {key : AccountName × AccountName}
    (h : db.paidSubscribes.get (·.key) key = some s) (hactive : s.active = true) :
    db.creditOf key = max 0 (s.credit db.headBlockTime) := by
  unfold creditOf
  rw [h]
  exact if_pos hactive

theorem creditOf_inactive {key : AccountName × AccountName}
    (h : ∀ s, db.paidSubscribes.get (·.key) key = some s → s.active = false) :
    db.creditOf key = 0 := by
  unfold creditOf
  split
  · rename_i s hs
    rw [h s hs]
    rfl
  · rfl

/-- Nothing but time passes for the subscriber. -/
theorem Bill.idle {key : AccountName × AccountName} (hdb : db.Tended)
    (hget : db'.paidSubscribes.get (·.key) key = db.paidSubscribes.get (·.key) key)
    (htime : db.headBlockTime ≤ db'.headBlockTime) : Bill key 0 db db' where
  nonneg := le_refl 0
  paid h := absurd h (lt_irrefl 0)
  atMost := by
    unfold creditOf
    rw [hget]
    cases hrow : db.paidSubscribes.get (·.key) key with
    | none => simp
    | some s =>
      have hanti := PaidSubscribeObject.credit_anti (hdb.rows s (Table.get_mem hrow)) htime
      rw [Int.cast_zero, add_zero]
      show (if s.active = true then _ else _) ≤ (if s.active = true then _ else _)
      split
      · exact max_le_max (le_refl 0) hanti
      · exact le_refl 0
  atLeast h := absurd h (lt_irrefl 0)

/-- The subscriber gets no more than was left. -/
theorem Bill.unpaid {key : AccountName × AccountName} (h : db'.creditOf key ≤ db.creditOf key) :
    Bill key 0 db db' where
  nonneg := le_refl 0
  paid h := absurd h (lt_irrefl 0)
  atMost := by
    rw [Int.cast_zero, add_zero]
    exact h
  atLeast h := absurd h (lt_irrefl 0)

theorem Tended.idle (hdb : db.Tended) (hrows : db'.paidSubscribes = db.paidSubscribes)
    (hterms : db'.paidSubscriptions = db.paidSubscriptions)
    (htime : db.headBlockTime ≤ db'.headBlockTime) :
    db'.Tended ∧ ∀ key, ∃ c, Bill key c db db' := by
  refine ⟨⟨hrows ▸ hdb.ids, hrows ▸ hdb.keys, hterms ▸ hdb.terms, fun s hs => ?_⟩,
    fun key => ⟨0, .idle hdb (by rw [hrows]) htime⟩⟩
  exact (hdb.rows s (hrows ▸ hs)).later htime

/-- One subscribe changes. -/
theorem Tended.change (hdb : db.Tended) {key : AccountName × AccountName}
    {f : PaidSubscribeObject → PaidSubscribeObject}
    (hrows : db'.paidSubscribes = db.paidSubscribes.update (·.key) key f)
    (hterms : db'.paidSubscriptions = db.paidSubscriptions)
    (htime : db'.headBlockTime = db.headBlockTime) (hid : ∀ s, (f s).id = s.id)
    (hkey : ∀ s, (f s).key = s.key)
    (hsane : ∀ s, db.paidSubscribes.get (·.key) key = some s → (f s).Sane db.headBlockTime)
    (hbill : ∃ c, Bill key c db db') : db'.Tended ∧ ∀ key, ∃ c, Bill key c db db' := by
  refine ⟨⟨?_, ?_, hterms ▸ hdb.terms, ?_⟩, fun key' => ?_⟩
  · rw [hrows]
    exact hdb.ids.update _ _ _ hid
  · rw [hrows]
    exact hdb.keys.of_keys (Table.map_update _ _ _ _ _ fun s _ => hkey s)
  · rw [hrows, htime]
    exact Table.all_update hdb.rows fun s hs _ => hsane s hs
  · by_cases hne : key' = key
    · rw [hne]
      exact hbill
    · refine ⟨0, .idle hdb ?_ htime.ge⟩
      rw [hrows, Table.get_update_ne _ _ _ hne hkey]

/-! ## Operations -/

/-- The end of the new period can be told in 32 bits, also when the credit is changed into
time. -/
def FairChange (db : Db) (o : PaidSubscribeOperation) : Prop :=
  db.headBlockTime + o.period * 86400 < 2 ^ 32 ∧
    ∀ s, db.paidSubscribes.get (·.key) (o.subscriber, o.account) = some s → s.active = true →
      db.headBlockTime + s.credit db.headBlockTime * (o.period * 86400) /
        (o.amount.amount * o.level) < (2 ^ 32 : ℚ)

instance (o : PaidSubscribeOperation) : Decidable (db.FairChange o) :=
  inferInstanceAs (Decidable (_ ∧ ∀ s ∈ db.paidSubscribes.get (·.key) (o.subscriber, o.account),
    s.active = true → _))

/-- What `validate` and the first assertions of the evaluator say about the price. -/
structure OfferPrice (o : PaidSubscribeOperation) (summary : Int) : Prop where
  eq : summary = o.amount.amount * o.level
  amount : 0 < o.amount.amount
  pos : 0 < summary
  small : summary < 2 ^ 63
  period : 0 < o.period ∧ o.period ≤ 1000

theorem paySubscription_pays {o : PaidSubscribeOperation} {cost : Int}
    (h : db.paySubscription o cost = .ok db') :
    db.Pays (o.subscriber, o.account) cost db' ∧ db'.paidSubscribes = db.paidSubscribes ∧
      db'.paidSubscriptions = db.paidSubscriptions ∧ db'.headBlockTime = db.headBlockTime := by
  simp only [paySubscription, bind_eq_ok] at h
  obtain ⟨_, -, _, -, db₁, hdebit, hcredit⟩ := h
  refine ⟨⟨db, db₁, db', rfl, hdebit, hcredit, rfl⟩, ?_⟩
  simp only [adjustBalance, bind_eq_ok, pure_eq_ok] at hdebit hcredit
  obtain ⟨_, -, _, -, rfl⟩ := hdebit
  obtain ⟨_, -, _, -, rfl⟩ := hcredit
  exact ⟨rfl, rfl, rfl⟩

/-- A row with the new terms that lasts for `seconds`. -/
def newTerms (o : PaidSubscribeOperation) (t : TimePointSec) (seconds : Nat)
    (s : PaidSubscribeObject) : PaidSubscribeObject :=
  { s with
    level := o.level, amount := o.amount.amount, period := o.period, startTime := t
    nextTime := t + seconds, endTime := timeMaximum, active := true, autoRenewal := o.autoRenewal }

theorem newTerms_credit {o : PaidSubscribeOperation} {summary : Int} (hp : OfferPrice o summary)
    (t : TimePointSec) (seconds : Nat) (s : PaidSubscribeObject) :
    (newTerms o t seconds s).credit t = summary * seconds / (o.period * 86400) := by
  unfold PaidSubscribeObject.credit newTerms
  rw [hp.eq]
  push_cast
  ring

theorem newTerms_sane {o : PaidSubscribeOperation} {summary : Int} (hp : OfferPrice o summary)
    {t : TimePointSec} {seconds : Nat} (hfits : t + seconds < 2 ^ 32)
    (hcredit : (newTerms o t seconds s).credit t < 2 ^ 63) : (newTerms o t seconds s).Sane t where
  amount := hp.amount.le
  price := by
    have hsmall := hp.small
    rw [hp.eq] at hsmall
    exact hsmall
  period := hp.period
  nextTime := hfits
  credit _ := hcredit

theorem restartSubscribe_rows {o : PaidSubscribeOperation} {seconds : Nat}
    (h : db.headBlockTime + seconds < 2 ^ 32) :
    (db.restartSubscribe o seconds).paidSubscribes = db.paidSubscribes.update (·.key)
      (o.subscriber, o.account) (newTerms o db.headBlockTime seconds) := by
  unfold restartSubscribe newTerms
  rw [addSeconds_eq h]

/-- The credit after the terms have changed. -/
theorem creditOf_newTerms {o : PaidSubscribeOperation} {summary : Int} (hp : OfferPrice o summary)
    {seconds : Nat} (hget : db.paidSubscribes.get (·.key) (o.subscriber, o.account) = some s)
    (hrows : db'.paidSubscribes = db.paidSubscribes.update (·.key) (o.subscriber, o.account)
      (newTerms o db.headBlockTime seconds))
    (htime : db'.headBlockTime = db.headBlockTime) :
    db'.creditOf (o.subscriber, o.account) = summary * seconds / (o.period * 86400) := by
  have hrow : db'.paidSubscribes.get (·.key) (o.subscriber, o.account) =
      some (newTerms o db.headBlockTime seconds s) := by
    rw [hrows, Table.get_update_same _ _ _ (newTerms o db.headBlockTime seconds) fun _ => rfl, hget]
    rfl
  have hpos : (0 : ℚ) ≤ summary := by exact_mod_cast hp.pos.le
  rw [creditOf_row hrow rfl, htime, newTerms_credit hp, max_eq_right]
  positivity

theorem OfferPrice.whole_period {o : PaidSubscribeOperation} {summary : Int} (hp : OfferPrice o summary) :
    (summary : ℚ) * (o.period * 86400 : ℕ) / (o.period * 86400) = summary := by
  have hperiod : (o.period : ℚ) ≠ 0 := by exact_mod_cast hp.period.1.ne'
  push_cast
  field_simp

theorem changeSubscribe_bills {o : PaidSubscribeOperation} {summary : Int} (hdb : db.Tended)
    (hp : OfferPrice o summary) (hfair : db.FairChange o)
    (hget : db.paidSubscribes.get (·.key) (o.subscriber, o.account) = some s)
    (hactive : s.active = true) (h : db.changeSubscribe o summary s = .ok db') :
    db'.Tended ∧ ∀ key, ∃ c, Bill key c db db' := by
  obtain ⟨hfits, hfits'⟩ := hfair
  have hhead : db.headBlockTime < 2 ^ 32 := lt_of_le_of_lt (Nat.le_add_right _ _) hfits
  have hpos : (0 : ℚ) < summary := by exact_mod_cast hp.pos
  have hperiod : (0 : ℚ) < o.period * 86400 := by
    have := hp.period.1
    positivity
  simp only [changeSubscribe, bind_eq_ok] at h
  obtain ⟨remain, hremain, h⟩ := h
  obtain ⟨hr, hr', hfloor, hceil⟩ :=
    subscribeRemain_bounds (hdb.rows s (Table.get_mem hget)) hactive hhead hremain
  rw [← creditOf_row hget hactive] at hfloor hceil
  split at h
  · rename_i hless
    obtain ⟨n, rfl⟩ := Int.eq_ofNat_of_zero_le hr
    obtain ⟨m, rfl⟩ := Int.eq_ofNat_of_zero_le hp.pos.le
    have hm : 0 < m := by exact_mod_cast hp.pos
    simp only [bind_eq_ok, divUint128, require_eq_ok, fcAssert_eq_ok, pure_eq_ok] at h
    obtain ⟨_, ⟨_, -, rfl⟩, _, -, rfl⟩ := h
    rw [toUint128_natCast (lt_trans (by exact_mod_cast hp.small : m < 2 ^ 63) (by norm_num)),
      product_period (by exact_mod_cast hr') hp.period.2]
    obtain ⟨hseconds, -⟩ := floor_bounds (n * (o.period * 86400)) hm
    generalize n * (o.period * 86400) / m = seconds at hseconds ⊢
    push_cast at hseconds hfloor hpos
    have hbuys : (m : ℚ) * seconds / (o.period * 86400) ≤ n := by
      rw [div_le_iff₀ hperiod]
      rw [le_div_iff₀ hpos] at hseconds
      linarith
    have hleft : (n : ℚ) ≤ s.credit db.headBlockTime := by
      have hn : (0 : ℚ) < n := lt_of_lt_of_le hpos (by exact_mod_cast hless)
      rw [creditOf_row hget hactive] at hfloor
      rcases le_max_iff.1 hfloor with hzero | hcredit
      · exact absurd hn hzero.not_gt
      · exact hcredit
    have hend : db.headBlockTime + seconds < 2 ^ 32 := by
      have hfair := hfits' s hget hactive
      have hprice : (o.amount.amount : ℚ) * o.level = m := by exact_mod_cast hp.eq.symm
      rw [hprice] at hfair
      have hmono : (n : ℚ) * (o.period * 86400) / m ≤
          s.credit db.headBlockTime * (o.period * 86400) / m := by gcongr
      have hlt : ((db.headBlockTime + seconds : ℕ) : ℚ) < ((2 ^ 32 : ℕ) : ℚ) := by
        push_cast
        linarith
      exact_mod_cast hlt
    have hrows := restartSubscribe_rows (o := o) hend
    have hcredit := creditOf_newTerms hp hget hrows rfl
    refine hdb.change hrows rfl rfl (fun _ => rfl) (fun _ => rfl) (fun s' _ => ?_) ⟨0, .unpaid ?_⟩
    · refine newTerms_sane hp hend ?_
      rw [newTerms_credit hp]
      have hn : (n : ℚ) < 2 ^ 63 := by exact_mod_cast hr'
      push_cast
      linarith
    · rw [hcredit]
      push_cast
      linarith
  · rename_i hmore
    simp only [bind_eq_ok, safeSub_eq_ok, pure_eq_ok] at h
    obtain ⟨_, ⟨-, rfl⟩, db₁, hpay, rfl⟩ := h
    obtain ⟨hpays, hrows, hterms, htime⟩ := paySubscription_pays hpay
    have hfits₁ : db₁.headBlockTime + o.period * 86400 < 2 ^ 32 := htime.symm ▸ hfits
    have hrows' := restartSubscribe_rows (o := o) hfits₁
    rw [hrows, htime] at hrows'
    have hcredit := creditOf_newTerms hp hget hrows' htime
    rw [hp.whole_period] at hcredit
    refine hdb.change hrows' hterms htime (fun _ => rfl) (fun _ => rfl) (fun s' _ => ?_)
      ⟨summary - remain, ?_⟩
    · refine newTerms_sane hp hfits ?_
      rw [newTerms_credit hp, hp.whole_period]
      exact_mod_cast hp.small
    · refine ⟨by omega, fun _ => hpays, ?_, fun _ => ?_⟩
      · rw [hcredit]
        push_cast
        linarith
      · rw [hcredit]
        push_cast
        linarith

/-- A first subscribe, or the first one after a break. -/
theorem Tended.add (hdb : db.Tended) {key : AccountName × AccountName}
    {mk : Nat → PaidSubscribeObject} (hrows : db'.paidSubscribes = db.paidSubscribes.create mk)
    (hterms : db'.paidSubscriptions = db.paidSubscriptions)
    (htime : db'.headBlockTime = db.headBlockTime) (hid : ∀ n, (mk n).id = n)
    (hkey : ∀ n, (mk n).key = key) (hnone : db.paidSubscribes.get (·.key) key = none)
    (hsane : ∀ n, (mk n).Sane db.headBlockTime) (hbill : ∃ c, Bill key c db db') :
    db'.Tended ∧ ∀ key, ∃ c, Bill key c db db' := by
  refine ⟨⟨?_, ?_, hterms ▸ hdb.terms, ?_⟩, fun key' => ?_⟩
  · rw [hrows]
    exact hdb.ids.create hid
  · rw [hrows]
    exact hdb.keys.create hnone (hkey _)
  · rw [hrows, htime]
    exact Table.all_create hdb.rows (hsane _)
  · by_cases hne : key = key'
    · rw [← hne]
      exact hbill
    · refine ⟨0, .idle hdb ?_ htime.ge⟩
      rw [hrows, Table.get_create_ne]
      rw [hkey]
      exact hne

def firstTerms (o : PaidSubscribeOperation) (t : TimePointSec) (id : Nat) : PaidSubscribeObject :=
  { id := id, subscriber := o.subscriber, creator := o.account, level := o.level
    amount := o.amount.amount, period := o.period, startTime := t
    nextTime := t + o.period * 86400, endTime := timeMaximum, active := true
    autoRenewal := o.autoRenewal }

theorem firstTerms_credit {o : PaidSubscribeOperation} {summary : Int} (hp : OfferPrice o summary)
    (t : TimePointSec) (id : Nat) : (firstTerms o t id).credit t = summary := by
  rw [PaidSubscribeObject.credit_period hp.period.1 rfl, hp.eq]
  rfl

theorem newSubscribe_bills {o : PaidSubscribeOperation} {summary : Int} (hdb : db.Tended)
    (hp : OfferPrice o summary) (hfits : db.headBlockTime + o.period * 86400 < 2 ^ 32)
    (hnone : db.paidSubscribes.get (·.key) (o.subscriber, o.account) = none)
    (h : db.newSubscribe o summary = .ok db') :
    db'.Tended ∧ ∀ key, ∃ c, Bill key c db db' := by
  have hsummary : (summary : ℚ) < 2 ^ 63 := by exact_mod_cast hp.small
  simp only [newSubscribe, bind_eq_ok, pure_eq_ok] at h
  obtain ⟨db₁, hpay, hdb'⟩ := h
  obtain ⟨hpays, hrows, hterms, htime⟩ := paySubscription_pays hpay
  have hrows' : db'.paidSubscribes =
      db.paidSubscribes.create (firstTerms o db.headBlockTime) := by
    rw [← hdb', htime, hrows, addSeconds_eq hfits]
    rfl
  have htime' : db'.headBlockTime = db.headBlockTime := by
    rw [← hdb']
    exact htime
  have hpays' : db.Pays (o.subscriber, o.account) summary db' := by
    rw [← hdb']
    exact hpays
  refine hdb.add hrows' (by rw [← hdb']; exact hterms) htime' (fun _ => rfl) (fun _ => rfl) hnone
    (fun n => ?_) ⟨summary, ?_⟩
  · refine ⟨hp.amount.le, ?_, hp.period, hfits, fun _ => ?_⟩
    · have hsmall := hp.small
      rw [hp.eq] at hsmall
      exact hsmall
    · rw [firstTerms_credit hp]
      exact hsummary
  · have hold : db.creditOf (o.subscriber, o.account) = 0 :=
      creditOf_inactive fun s hs => nomatch hnone.symm.trans hs
    have hnew : db'.creditOf (o.subscriber, o.account) = summary := by
      have hget : db'.paidSubscribes.get (·.key) (o.subscriber, o.account) =
          some (firstTerms o db.headBlockTime db.paidSubscribes.nextId) := by
        rw [hrows']
        exact Table.get_create_same hnone rfl
      have hpos : (0 : ℚ) ≤ summary := by exact_mod_cast hp.pos.le
      rw [creditOf_row hget rfl, htime', firstTerms_credit hp, max_eq_right hpos]
    refine ⟨hp.pos.le, fun _ => hpays', ?_, fun _ => ?_⟩
    · rw [hold, hnew, zero_add]
    · rw [hold, hnew]
      linarith

/-- A subscribe that is not active is dropped first. -/
theorem resubscribe_bills {o : PaidSubscribeOperation} {summary : Int} (hdb : db.Tended)
    (hp : OfferPrice o summary) (hfits : db.headBlockTime + o.period * 86400 < 2 ^ 32)
    (hget : db.paidSubscribes.get (·.key) (o.subscriber, o.account) = some s)
    (hinactive : s.active = false)
    (h : newSubscribe { db with
      paidSubscribes := db.paidSubscribes.erase (·.key) (o.subscriber, o.account) } o summary =
        .ok db') : db'.Tended ∧ ∀ key, ∃ c, Bill key c db db' := by
  have hcredit (key : AccountName × AccountName) : creditOf { db with
      paidSubscribes := db.paidSubscribes.erase (·.key) (o.subscriber, o.account) } key =
        db.creditOf key := by
    by_cases hkey : key = (o.subscriber, o.account)
    · subst hkey
      have hnone := hdb.keys.get_erase_same (o.subscriber, o.account)
      have hold : db.creditOf (o.subscriber, o.account) = 0 := creditOf_inactive fun s' hs' => by
        rw [hget, Option.some.injEq] at hs'
        rw [← hs']
        exact hinactive
      rw [hold]
      refine creditOf_inactive fun s' hs' => ?_
      have hsome : none = some s' := hnone.symm.trans hs'
      cases hsome
    · unfold creditOf
      rw [Table.get_erase_ne _ _ hkey]
      rfl
  have hdb₀ : Tended { db with
      paidSubscribes := db.paidSubscribes.erase (·.key) (o.subscriber, o.account) } :=
    ⟨hdb.ids.erase _ _, hdb.keys.erase _ _, hdb.terms, Table.all_erase hdb.rows⟩
  obtain ⟨hdb', hbills⟩ := newSubscribe_bills hdb₀ hp hfits (hdb.keys.get_erase_same _) h
  refine ⟨hdb', fun key => ?_⟩
  obtain ⟨c, hc, hpays, hmost, hleast⟩ := hbills key
  rw [hcredit] at hmost hleast
  exact ⟨c, hc, hpays, hmost, hleast⟩

/-- The first assertions of the evaluator, and its case for a subscribe that is not active. -/
theorem paidSubscribe_bills {o : PaidSubscribeOperation} (hdb : db.Tended)
    (hv : o.validate = .ok ()) (hfair : db.FairChange o) (h : db.paidSubscribe o = .ok db') :
    db'.Tended ∧ ∀ key, ∃ c, Bill key c db db' := by
  simp only [PaidSubscribeOperation.validate, bind_eq_ok] at hv
  obtain ⟨_, -, _, -, _, -, hterms⟩ := hv
  simp only [validateSubscriptionTerms, bind_eq_ok, fcAssert_eq_ok] at hterms
  obtain ⟨_, -, _, hamount, _, hperiod, hperiod'⟩ := hterms
  simp only [paidSubscribe, bind_eq_ok, safeMul_eq_ok, fcAssert_eq_ok] at h
  obtain ⟨_, hlevel, _, -, _, -, _, -, _, -, _, -, _, -, _, -, summary, ⟨hsmall, hsum⟩, h⟩ := h
  have hp : OfferPrice o summary := by
    refine ⟨hsum.symm, hamount, ?_, ?_, hperiod, hperiod'⟩
    · rw [← hsum]
      exact mul_pos hamount (by exact_mod_cast hlevel)
    · rw [← hsum]
      exact hsmall.2
  split at h
  · rename_i hnone
    exact newSubscribe_bills hdb hp hfair.1 hnone h
  · rename_i s hget
    split at h
    · rename_i hactive
      split at h
      · simp only [bind_eq_ok, pure_eq_ok] at h
        obtain ⟨_, -, hdb'⟩ := h
        -- only the flag changes
        have hrows : db'.paidSubscribes = db.paidSubscribes.update (·.key)
            (o.subscriber, o.account) fun s => { s with autoRenewal := o.autoRenewal } := by
          rw [← hdb']
        have htime : db'.headBlockTime = db.headBlockTime := by rw [← hdb']; rfl
        refine hdb.change hrows (by rw [← hdb']) htime (fun _ => rfl) (fun _ => rfl)
          (fun s' hs' => ?_) ⟨0, .unpaid (le_of_eq ?_)⟩
        · have hsane := hdb.rows s' (Table.get_mem hs')
          exact ⟨hsane.amount, hsane.price, hsane.period, hsane.nextTime, hsane.credit⟩
        · have hget' := Table.get_update_same db.paidSubscribes (·.key) (o.subscriber, o.account)
            (fun s => { s with autoRenewal := o.autoRenewal }) fun _ => rfl
          rw [← hrows, hget] at hget'
          rw [creditOf_row hget hactive, creditOf_row hget' hactive, htime]
          rfl
      · exact changeSubscribe_bills hdb hp hfair hget hactive h
    · rename_i hinactive
      exact resubscribe_bills hdb hp hfair.1 hget (Bool.eq_false_iff.2 hinactive) h

/-! ## Renewals -/

/-- At most one subscribe is due, and a renewal keeps the period and ends before the time runs
out of its 32 bits. -/
def FairRenewals (db : Db) : Prop :=
  db.dueSubscribes.length ≤ 1 ∧ ∀ s ∈ db.dueSubscribes, db.headBlockTime < timeMaximum ∧
    ∀ p, db.paidSubscriptions.get (·.creator) s.creator = some p → db.Renewable s p →
      p.period = s.period ∧ db.headBlockTime + p.period * 86400 < 2 ^ 32

instance : Decidable db.FairRenewals :=
  inferInstanceAs (Decidable (_ ∧ ∀ s ∈ db.dueSubscribes, _ ∧
    ∀ p ∈ db.paidSubscriptions.get (·.creator) s.creator, db.Renewable s p → _))

theorem FairRenewals.fits (hdb : db.Tended) (h : db.FairRenewals) :
    ∀ s ∈ db.dueSubscribes, db.Fits s := by
  intro s hs
  obtain ⟨hhead, hterms⟩ := h.2 s hs
  refine ⟨hhead, fun p hp hrenewable => ?_⟩
  obtain ⟨hperiod, hfits⟩ := hterms p hp hrenewable
  rw [hperiod] at hfits ⊢
  exact ⟨(hdb.rows s (mem_dueSubscribes.1 hs).1).period.1, hfits⟩

theorem adjustBalance_subscriptions {name : AccountName} {delta : Int}
    (h : db.adjustBalance name delta = .ok db') : db'.paidSubscriptions = db.paidSubscriptions := by
  simp only [adjustBalance, bind_eq_ok, pure_eq_ok] at h
  obtain ⟨_, -, _, -, rfl⟩ := h
  rfl

/-- A subscribe that is due has nothing left. -/
theorem creditOf_due (hdb : db.Tended) (hs : s ∈ db.dueSubscribes) : db.creditOf s.key = 0 := by
  obtain ⟨hrow, hdue⟩ := mem_dueSubscribes.1 hs
  have hactive := active_of_isDue hdue
  have hlate : s.nextTime ≤ db.headBlockTime :=
    of_decide_eq_true (Bool.and_eq_true _ _ ▸ hdue : _ ∧ _).2
  have hamount : (0 : ℚ) ≤ s.amount := by exact_mod_cast (hdb.rows s hrow).amount
  have htime : (s.nextTime : ℚ) - db.headBlockTime ≤ 0 := by
    have : (s.nextTime : ℚ) ≤ db.headBlockTime := by exact_mod_cast hlate
    linarith
  rw [creditOf_row (hdb.keys.get hrow) hactive, max_eq_left]
  unfold PaidSubscribeObject.credit
  apply div_nonpos_of_nonpos_of_nonneg
  · exact mul_nonpos_of_nonneg_of_nonpos (by positivity) htime
  · positivity

/-- A row that has been closed. -/
def closedRow (s : PaidSubscribeObject) : PaidSubscribeObject :=
  { s with endTime := s.nextTime, nextTime := timeMaximum, active := false, autoRenewal := false }

theorem closeSubscribe_bills (hdb : db.Tended) (hs : s ∈ db.dueSubscribes) :
    (db.closeSubscribe s.id).Tended ∧ ∀ key, ∃ c, Bill key c db (db.closeSubscribe s.id) := by
  have hrow := (mem_dueSubscribes.1 hs).1
  have hrows : (db.closeSubscribe s.id).paidSubscribes =
      db.paidSubscribes.update (·.key) s.key closedRow :=
    Table.update_by_other hdb.ids.nodup hdb.keys hrow _
  refine hdb.change hrows rfl rfl (fun _ => rfl) (fun _ => rfl) (fun s' hs' => ?_)
    ⟨0, .unpaid ?_⟩
  · have hsane := hdb.rows s' (Table.get_mem hs')
    have hmaximum : timeMaximum < 2 ^ 32 := by decide
    exact ⟨hsane.amount, hsane.price, hsane.period, hmaximum, fun h => nomatch h⟩
  · rw [creditOf_due hdb hs]
    refine le_of_eq (creditOf_inactive fun s' hs' => ?_)
    rw [hrows, Table.get_update_same _ _ _ closedRow fun _ => rfl, hdb.keys.get hrow,
      Option.map_some, Option.some.injEq] at hs'
    rw [← hs']
    rfl

/-- A row that has been renewed. -/
def renewedRow (p : PaidSubscriptionObject) (t : TimePointSec) (s : PaidSubscribeObject) :
    PaidSubscribeObject :=
  { s with
    amount := p.amount, level := min s.level p.levels, startTime := t
    nextTime := t + p.period * 86400, endTime := timeMaximum }

theorem renewSubscribe_bills (hdb : db.Tended) (hfair : db.FairRenewals)
    (hs : s ∈ db.dueSubscribes) (h : db.Renews s db') :
    db'.Tended ∧ ∀ key, ∃ c, Bill key c db db' := by
  obtain ⟨p, db₁, db₂, hp, hrenewable, hdebit, hcredit, hdb'⟩ := h
  obtain ⟨hperiod, hfits⟩ := (hfair.2 s hs).2 p hp hrenewable
  obtain ⟨hrow, hdue⟩ := mem_dueSubscribes.1 hs
  have hactive := active_of_isDue hdue
  have hsane := hdb.rows s hrow
  have hamount : 0 ≤ p.amount := hdb.terms p (Table.get_mem hp)
  have hsubs : db₂.paidSubscribes = db.paidSubscribes :=
    (adjustBalance_subscribes hcredit).1.trans (adjustBalance_subscribes hdebit).1
  have htime : db'.headBlockTime = db.headBlockTime := by
    rw [hdb']
    exact (adjustBalance_subscribes hcredit).2.trans (adjustBalance_subscribes hdebit).2
  have hterms : db'.paidSubscriptions = db.paidSubscriptions := by
    rw [hdb']
    exact (adjustBalance_subscriptions hcredit).trans (adjustBalance_subscriptions hdebit)
  have hrows : db'.paidSubscribes =
      db.paidSubscribes.update (·.key) s.key (renewedRow p db.headBlockTime) := by
    rw [hdb', ← Table.update_by_other hdb.ids.nodup hdb.keys hrow, ← hsubs]
    rfl
  have hnew : (renewedRow p db.headBlockTime s).credit db.headBlockTime =
      (p.amount * (min s.level p.levels : ℕ) : ℤ) := by
    have hend : (renewedRow p db.headBlockTime s).nextTime =
        db.headBlockTime + s.period * 86400 := by
      rw [← hperiod]
      rfl
    exact PaidSubscribeObject.credit_period hsane.period.1 hend
  have hcost : 0 ≤ p.amount * (min s.level p.levels : ℕ) :=
    mul_nonneg hamount (Int.natCast_nonneg _)
  have hsmall : p.amount * (min s.level p.levels : ℕ) < 2 ^ 63 :=
    lt_of_le_of_lt hrenewable.2.2.1 hsane.price
  have hbill : Bill s.key (p.amount * (min s.level p.levels : ℕ)) db db' := by
    have hget : db'.paidSubscribes.get (·.key) s.key = some (renewedRow p db.headBlockTime s) := by
      rw [hrows, Table.get_update_same _ _ _ (renewedRow p db.headBlockTime) fun _ => rfl,
        hdb.keys.get hrow]
      rfl
    have hafter : db'.creditOf s.key = (p.amount * (min s.level p.levels : ℕ) : ℤ) := by
      have hnonneg : (0 : ℚ) ≤ (p.amount * (min s.level p.levels : ℕ) : ℤ) := by
        exact_mod_cast hcost
      rw [creditOf_row hget hactive, htime, hnew, max_eq_right hnonneg]
    refine ⟨hcost, fun _ => ⟨db, db₁, db₂, rfl, hdebit, hcredit, by rw [hdb']⟩, ?_, fun _ => ?_⟩
    · rw [hafter, creditOf_due hdb hs, zero_add]
    · rw [hafter, creditOf_due hdb hs]
      linarith
  refine hdb.change hrows hterms htime (fun _ => rfl) (fun _ => rfl) (fun s' hs' => ?_) ⟨_, hbill⟩
  rw [hdb.keys.get hrow, Option.some.injEq] at hs'
  subst hs'
  refine ⟨hamount, hsmall, hsane.period, hfits, fun _ => ?_⟩
  rw [hnew]
  exact_mod_cast hsmall

/-- **Renewals.** -/
theorem renewals_bill (hdb : db.Tended) (hfair : db.FairRenewals)
    (h : db.paidSubscribeProcessing = .ok db') :
    db'.Tended ∧ (∀ key, ∃ c, Bill key c db db') ∧ db'.dueSubscribes = [] := by
  have hfits := hfair.fits hdb
  obtain ⟨heq, hiff⟩ := renewals_in_time hdb.ids.nodup hfits
  have hdone := ((hiff db' h).2 hfair.1).2
  rw [heq] at h
  cases hfirst : db.firstDue with
  | none =>
    rw [hfirst] at h
    cases h
    obtain ⟨htended, hbills⟩ := hdb.idle rfl rfl (le_refl _)
    exact ⟨htended, hbills, hdone⟩
  | some s =>
    rw [hfirst] at h
    have hs := firstDue_mem hfirst
    have hsettles := processSubscribe_settles (active_of_isDue (mem_dueSubscribes.1 hs).2)
      (hfits s hs) h
    rcases hsettles with hrenews | rfl
    · obtain ⟨htended, hbills⟩ := renewSubscribe_bills hdb hfair hs hrenews
      exact ⟨htended, hbills, hdone⟩
    · obtain ⟨htended, hbills⟩ := closeSubscribe_bills hdb hs
      exact ⟨htended, hbills, hdone⟩

/-! ## What leaves the subscribes alone -/

theorem subscribes_of_drift {g : Prop} (h : Drift .subscribes g db db') :
    db'.paidSubscribes = db.paidSubscribes ∧ db'.paidSubscriptions = db.paidSubscriptions := by
  have hrest := h.rest rfl (fun _ _ _ _ _ => rfl) fun _ _ => rfl
  exact ⟨congrArg SubscribeRest.subscribes hrest, congrArg SubscribeRest.subscriptions hrest⟩

theorem setPaidSubscription_rows {o : SetPaidSubscriptionOperation}
    (h : db.setPaidSubscription o = .ok db') : db'.paidSubscribes = db.paidSubscribes := by
  simp only [setPaidSubscription, bind_eq_ok] at h
  obtain ⟨_, -, h⟩ := h
  split at h
  · rw [pure_eq_ok] at h
    rw [← h]
  · simp only [bind_eq_ok, pure_eq_ok] at h
    obtain ⟨db₁, hfee, h⟩ := h
    have hrows : db₁.paidSubscribes = db.paidSubscribes :=
      congrArg Core.subscribes (payFee_core hfee)
    rw [← h]
    exact hrows

theorem setPaidSubscription_terms {fc : Fc} {o : SetPaidSubscriptionOperation}
    (hterms : db.paidSubscriptions.All fun p => 0 ≤ p.amount) (hv : o.validate fc = .ok ())
    (h : db.setPaidSubscription o = .ok db') :
    db'.paidSubscriptions.All fun p => 0 ≤ p.amount := by
  have hamount : 0 ≤ o.amount.amount := by
    simp only [SetPaidSubscriptionOperation.validate, bind_eq_ok] at hv
    obtain ⟨_, -, _, -, _, -, _, -, hterms⟩ := hv
    exact (validateSubscriptionTerms_pos hterms).le
  simp only [setPaidSubscription, bind_eq_ok] at h
  obtain ⟨_, -, h⟩ := h
  split at h
  · rw [pure_eq_ok] at h
    rw [← h]
    exact Table.all_update hterms fun _ _ _ => hamount
  · simp only [bind_eq_ok, pure_eq_ok] at h
    obtain ⟨db₁, hfee, h⟩ := h
    have hsame : db₁.paidSubscriptions = db.paidSubscriptions :=
      congrArg Core.subscriptions (payFee_core hfee)
    rw [← h]
    exact Table.all_create (hsame ▸ hterms) hamount

theorem setPaidSubscription_bills {fc : Fc} {o : SetPaidSubscriptionOperation} (hdb : db.Tended)
    (hv : o.validate fc = .ok ()) (htime : db'.headBlockTime = db.headBlockTime)
    (h : db.setPaidSubscription o = .ok db') :
    db'.Tended ∧ ∀ key, ∃ c, Bill key c db db' := by
  have hrows := setPaidSubscription_rows h
  have hterms := setPaidSubscription_terms hdb.terms hv h
  refine ⟨⟨hrows ▸ hdb.ids, hrows ▸ hdb.keys, hterms, fun s hs => ?_⟩,
    fun key => ⟨0, .idle hdb (by rw [hrows]) htime.ge⟩⟩
  rw [htime]
  exact hdb.rows s (hrows ▸ hs)

end Db

/-! ## Runs -/

/-- What the run has to satisfy: every change and every renewal is fair. -/
def Event.Fair : Event → Prop
  | .operation db (.paidSubscribe o) true => db.FairChange o
  | .step db _ .paidSubscribeProcessing true => db.FairRenewals
  | _ => True

def Operation.subscribes : Operation → List PaidSubscribeOperation
  | .paidSubscribe o => [o]
  | _ => []

instance : DecidablePred Event.Fair
  | .operation db op kept =>
    decidable_of_iff (kept = true → ∀ o ∈ Operation.subscribes op, db.FairChange o) <| by
      cases kept <;> cases op <;> simp [Event.Fair, Operation.subscribes]
  | .step db _ st kept =>
    decidable_of_iff (kept = true → st = .paidSubscribeProcessing → db.FairRenewals) <| by
      cases kept <;> cases st <;> simp [Event.Fair]

/-- **Every operation** bills the subscribers. -/
theorem evaluate_bills {fc : Fc} {producing : Bool} {clock : TimePointSec} {op : Operation}
    {db db' : Db} (hdb : db.Tended) (hv : op.validate fc = .ok ())
    (hfair : Event.Fair (.operation db op true))
    (h : Db.evaluate fc producing clock db op = .ok db') :
    db'.Tended ∧ ∀ key, ∃ c, Db.Bill key c db db' := by
  have htime := Db.evaluate_time h
  cases htouch : Operation.touches .subscribes op with
  | false =>
    obtain ⟨hrows, hterms⟩ := Db.subscribes_of_drift (evaluate_drift htouch h)
    exact hdb.idle hrows hterms htime.ge
  | true =>
    cases op with
    | setPaidSubscription o => exact Db.setPaidSubscription_bills hdb hv htime h
    | paidSubscribe o => exact Db.paidSubscribe_bills hdb hv hfair h
    | _ => cases htouch

theorem BlockStep.run_time {env : Env} {skip : Skip} {b : SignedBlock} {st : BlockStep}
    {db db' : Db} (hst : st ≠ .updateGlobalDynamicData) (h : st.run env skip b db = .ok db') :
    db'.headBlockTime = db.headBlockTime := by
  cases st with
  | updateGlobalDynamicData => exact absurd rfl hst
  | clearExpiredTransactions =>
    cases h
    rfl
  | _ => exact congrArg RecordRest.time (Db.records_of_drift (BlockStep.run_drift rfl h))

/-! ## Accounts of a run -/

namespace Event

/-- What the subscriber pays the creator at an event of a run: the bill is between the state that
the evaluator or the step found and the one that it made of it. -/
def Charges (key : AccountName × AccountName) (c : Int) : Event → Prop
  | .operation db (.paidSubscribe o) true =>
    ∃ db', db.paidSubscribe o = .ok db' ∧ Db.Bill key c db db'
  | .step db _ .paidSubscribeProcessing true =>
    ∃ db', db.paidSubscribeProcessing = .ok db' ∧ Db.Bill key c db db'
  | _ => c = 0

/-- The sum of what the subscriber pays the creator at the events of a run. -/
inductive Charged (key : AccountName × AccountName) : List Event → Int → Prop
  | nil : Charged key [] 0
  | snoc {l : List Event} {e : Event} {c c' : Int} (h : Charged key l c) (he : e.Charges key c') :
      Charged key (l ++ [e]) (c + c')

variable {key : AccountName × AccountName} {l : List Event} {c : Int}

theorem Charged.free (h : Charged key l c) {e : Event} (he : e.Charges key 0) :
    Charged key (l ++ [e]) c := by
  have hsnoc := h.snoc he
  rwa [add_zero] at hsnoc

/-- What has been undone costs nothing. -/
theorem charges_undone (e : Event) : e.undone.Charges key 0 := by
  cases e with
  | operation db op kept => cases op <;> rfl
  | step db b st kept => cases st <;> rfl

theorem Charged.undone (h : Charged key l c) (l' : List Event) :
    Charged key (l ++ l'.map Event.undone) c := by
  induction l' generalizing l with
  | nil => simpa using h
  | cons e l' ih =>
    rw [List.map_cons, List.append_cons]
    exact ih (h.free (charges_undone e))

end Event

/-- The state of a run at the time `t`, and what has been paid on the way. -/
structure InCredit (fc : Fc) (t : TimePointSec) (l : List Event) (db : Db) : Prop where
  stored : db.Stored fc
  tended : db.Tended
  backed : ∀ key, ∃ paid, Event.Charged key l paid ∧ db.creditOf key ≤ paid
  time : db.headBlockTime = t

namespace InCredit

variable {env : Env} {fc : Fc} {skip : Skip} {b : SignedBlock} {db db' : Db}
  {t t' : TimePointSec} {l : List Event} {e : Event}

/-- An event that bills the subscribers. -/
theorem next (h : InCredit fc t l db) (hstored : db'.Stored fc) (htended : db'.Tended)
    (hbills : ∀ key, ∃ c, e.Charges key c ∧ db'.creditOf key ≤ db.creditOf key + c)
    (htime : db'.headBlockTime = t') : InCredit fc t' (l ++ [e]) db' where
  stored := hstored
  tended := htended
  backed key := by
    obtain ⟨paid, hpaid, hle⟩ := h.backed key
    obtain ⟨c, hc, hmost⟩ := hbills key
    refine ⟨paid + c, hpaid.snoc hc, ?_⟩
    push_cast
    linarith
  time := htime

/-- Nothing that the subscribers see has changed, and nothing has been reported. -/
theorem same (h : InCredit fc t l db) (hstored : db'.Stored fc)
    (hrows : db'.paidSubscribes = db.paidSubscribes)
    (hterms : db'.paidSubscriptions = db.paidSubscriptions)
    (htime : db'.headBlockTime = db.headBlockTime) : InCredit fc t l db' := by
  obtain ⟨htended, hbills⟩ := h.tended.idle hrows hterms htime.ge
  refine ⟨hstored, htended, fun key => ?_, htime.trans h.time⟩
  obtain ⟨paid, hpaid, hle⟩ := h.backed key
  refine ⟨paid, hpaid, le_trans (le_of_eq ?_) hle⟩
  unfold Db.creditOf
  rw [hrows, htime]

/-- An event that leaves the subscribes alone. -/
theorem pass (h : InCredit fc t l db) (hstored : db'.Stored fc)
    (hrows : db'.paidSubscribes = db.paidSubscribes)
    (hterms : db'.paidSubscriptions = db.paidSubscriptions)
    (htime : db.headBlockTime ≤ db'.headBlockTime) (ht : db'.headBlockTime = t')
    (he : ∀ key, e.Charges key 0) : InCredit fc t' (l ++ [e]) db' := by
  obtain ⟨htended, -⟩ := h.tended.idle hrows hterms htime
  refine h.next hstored htended (fun key => ⟨0, he key, ?_⟩) ht
  exact (Db.Bill.idle h.tended (by rw [hrows]) htime).atMost

theorem evaluate {clock : TimePointSec} {op : Operation} (hdb : InCredit env.fc t l db)
    (hv : op.validate env.fc = .ok ()) (hfair : Event.Fair (.operation db op true))
    (h : Db.evaluate env.fc env.producing clock db op = .ok db') :
    InCredit env.fc t (l ++ [.operation db op true]) db' := by
  have hstored := (stored_keepsBlock env fun _ => True).evaluate clock db op db' hdb.stored hv
    trivial h
  have htime := Db.evaluate_time h
  obtain ⟨htended, hbills⟩ := evaluate_bills hdb.tended hv hfair h
  refine hdb.next hstored htended (fun key => ?_) (htime.trans hdb.time)
  cases op with
  | paidSubscribe o =>
    obtain ⟨c, hc⟩ := hbills key
    exact ⟨c, ⟨db', h, hc⟩, hc.atMost⟩
  | setPaidSubscription o =>
    have hrows := Db.setPaidSubscription_rows h
    exact ⟨0, rfl, (Db.Bill.idle hdb.tended (by rw [hrows]) htime.ge).atMost⟩
  | _ =>
    obtain ⟨hrows, -⟩ := Db.subscribes_of_drift (evaluate_drift rfl h)
    exact ⟨0, rfl, (Db.Bill.idle hdb.tended (by rw [hrows]) htime.ge).atMost⟩

theorem recounts (env : Env) (t : TimePointSec) :
    Db.Recounts env Event.Fair (InCredit env.fc t) where
  member _ hops _ hop := validateAll_mem hops hop
  checked _ hops := hops
  validated l db hdb := hdb.stored
  evaluate l clock db op db' hdb hv hC h := hdb.evaluate hv hC h
  deferred l db op hdb hop := by
    refine hdb.pass hdb.stored rfl rfl (le_refl _) hdb.time fun key => ?_
    cases op with
    | paidSubscribe o => cases hop
    | _ => rfl
  undone l l' db hdb :=
    { hdb with
      backed := fun key => by
        obtain ⟨paid, hpaid, hle⟩ := hdb.backed key
        exact ⟨paid, hpaid.undone l', hle⟩ }
  proposals l db ps r hdb hps := hdb.same hps rfl rfl rfl
  opened l skip db trx db' hdb h := by
    have hstored := (stored_keepsBlock env fun _ => True).opened skip db trx db' hdb.stored h
    have hrest := congrArg Aspect.View.rest (Db.openTransaction_view (x := .subscribes) (by decide) h)
    exact hdb.same hstored (congrArg SubscribeRest.subscribes hrest)
      (congrArg SubscribeRest.subscriptions hrest) (Db.openTransaction_extends h).time

/-- A step that does not move the time. -/
theorem run {st : BlockStep} (hst : st ≠ .updateGlobalDynamicData)
    (hdb : InCredit env.fc t l db) (hfair : Event.Fair (.step db b st true))
    (h : st.run env skip b db = .ok db') :
    InCredit env.fc t (l ++ [.step db b st true]) db' := by
  have hstored := (stored_keepsBlock env fun _ => True).step skip b db st db' hdb.stored trivial h
  have htime := BlockStep.run_time hst h
  cases st with
  | paidSubscribeProcessing =>
    obtain ⟨htended, hbills, -⟩ := Db.renewals_bill hdb.tended hfair h
    refine hdb.next hstored htended (fun key => ?_) (htime.trans hdb.time)
    obtain ⟨c, hc⟩ := hbills key
    exact ⟨c, ⟨db', h, hc⟩, hc.atMost⟩
  | _ =>
    obtain ⟨hrows, hterms⟩ := Db.subscribes_of_drift (BlockStep.run_drift rfl h)
    exact hdb.pass hstored hrows hterms htime.ge (htime.trans hdb.time) fun _ => rfl

end InCredit

namespace Store

variable {env : Env} {skip : Skip} {b : SignedBlock} {s : Store} {t : TimePointSec}
  {l : List Event}

end Store

/-! ## Credit along runs -/

end VizCore.Chain
