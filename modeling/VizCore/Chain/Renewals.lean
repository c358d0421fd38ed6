import VizCore.Lib.Select
import VizCore.Chain.Block.Payouts
import VizCore.Chain.Core

/-!
# Renewals of subscriptions

`paid_subscribe_processing` walks through an index that is ordered by the very field it changes.

* `paidSubscribeProcessing_eq`: it settles the first subscribe that is due, and then stops;
* `renewals_in_time`: all that are due are settled if and only if there is at most one of them.
-/

namespace VizCore.Chain

open VizCore.Lib VizCore.Protocol

namespace Db

variable {db db' : Db} {s : PaidSubscribeObject}

/-! ## The index -/

/-- The order by time, and by id at the same time. -/
def Earlier (time id time' id' : Nat) : Prop := time < time' ∨ time = time' ∧ id < id'

theorem dueBefore_iff {s t : PaidSubscribeObject} :
    dueBefore s t = true ↔ Earlier s.nextTime s.id t.nextTime t.id := by
  unfold dueBefore Earlier
  simp only [Bool.or_eq_true, decide_eq_true_eq, Bool.and_eq_true, beq_iff_eq]

theorem nextTime_le_of_dueBefore {s t : PaidSubscribeObject} (h : dueBefore s t = true) :
    s.nextTime ≤ t.nextTime := by
  rcases dueBefore_iff.1 h with h | h
  · exact Nat.le_of_lt h
  · exact Nat.le_of_eq h.1

/-- The index by time orders the subscribes. -/
theorem dueBefore_orders {t : Table PaidSubscribeObject} (ht : t.Keyed (·.id)) :
    Orders dueBefore t.rows where
  asymm x y h := by
    rw [dueBefore_iff] at h
    rw [Bool.eq_false_iff, Ne, dueBefore_iff]
    unfold Earlier at h ⊢
    omega
  trans x y z h h' := by
    rw [dueBefore_iff] at h h' ⊢
    unfold Earlier at h h' ⊢
    omega
  total x hx y hy hne := by
    rw [dueBefore_iff, dueBefore_iff]
    have hid : x.id ≠ y.id := by
      intro hid
      have hget := ht.get hx
      rw [hid, ht.get hy] at hget
      exact hne (Option.some.inj hget).symm
    unfold Earlier
    omega

theorem subscribes_pairwise {t : Table PaidSubscribeObject} (ht : t.Keyed (·.id)) :
    (orderBy dueBefore t.rows).Pairwise fun x y => dueBefore x y = true :=
  orderBy_pairwise (dueBefore_orders ht) (List.Nodup.of_map _ ht)

/-- In an ordered list the row after `x` is the first one that comes later. -/
theorem find_after {before : PaidSubscribeObject → PaidSubscribeObject → Bool}
    (hasymm : ∀ x y, before x y = true → before y x = false) {x : PaidSubscribeObject}
    {pre rest : List PaidSubscribeObject}
    (h : (pre ++ x :: rest).Pairwise fun a b => before a b = true) :
    (pre ++ x :: rest).find? (before x) = rest.head? := by
  rw [List.pairwise_append, List.pairwise_cons] at h
  obtain ⟨-, ⟨hrest, -⟩, hpre⟩ := h
  have hskip : ∀ a ∈ pre, ¬ before x a = true := by
    intro a ha hxa
    have hax := hpre a ha x List.mem_cons_self
    rw [hasymm x a hxa] at hax
    cases hax
  have hself : ¬ before x x = true := fun hx => by
    have hno := hasymm x x hx
    rw [hx] at hno
    cases hno
  rw [List.find?_append, List.find?_eq_none.2 hskip, Option.none_or, List.find?_cons_of_neg hself]
  cases rest with
  | nil => rfl
  | cons y rest => exact List.find?_cons_of_pos (hrest y List.mem_cons_self)

/-! ## One subscribe -/

/-- An active subscribe whose time has come. -/
def isDue (db : Db) (s : PaidSubscribeObject) : Bool :=
  s.active && decide (s.nextTime ≤ db.headBlockTime)

def dueSubscribes (db : Db) : List PaidSubscribeObject := db.paidSubscribes.rows.filter db.isDue

/-- The subscriber wants the next period, the terms have not become worse and the balance
covers them. -/
def Renewable (db : Db) (s : PaidSubscribeObject) (p : PaidSubscriptionObject) : Prop :=
  s.autoRenewal = true ∧ s.period ≤ p.period ∧
    p.amount * (min s.level p.levels : Nat) ≤ s.amount * s.level ∧
    ∃ a, db.getAccount s.subscriber = .ok a ∧ p.amount * (min s.level p.levels : Nat) ≤ a.balance

instance (db : Db) (s : PaidSubscribeObject) (p : PaidSubscriptionObject) :
    Decidable (db.Renewable s p) :=
  inferInstanceAs (Decidable (_ ∧ _ ∧ _ ∧ ∃ a, db.getAccount s.subscriber = .ok a ∧ _))

/-- The subscriber has paid the creator once, and the next time is a period from now. -/
def Renews (db : Db) (s : PaidSubscribeObject) (db' : Db) : Prop :=
  ∃ p db₁ db₂, db.paidSubscriptions.get (·.creator) s.creator = some p ∧ db.Renewable s p ∧
    db.adjustBalance s.subscriber (-(p.amount * (min s.level p.levels : Nat))) = .ok db₁ ∧
    db₁.adjustBalance s.creator (p.amount * (min s.level p.levels : Nat)) = .ok db₂ ∧
    db' = { db₂ with
      paidSubscribes := db₂.paidSubscribes.update (·.id) s.id fun s =>
        { s with
          amount := p.amount, level := min s.level p.levels, startTime := db.headBlockTime
          nextTime := db.headBlockTime + p.period * 86400, endTime := timeMaximum } }

/-- A subscribe that is due is renewed or closed. -/
def Settles (db : Db) (s : PaidSubscribeObject) (db' : Db) : Prop :=
  db.Renews s db' ∨ db' = db.closeSubscribe s.id

/-- The end of the next period, if there is one, can be told in 32 bits. -/
def Fits (db : Db) (s : PaidSubscribeObject) : Prop :=
  db.headBlockTime < timeMaximum ∧ ∀ p, db.paidSubscriptions.get (·.creator) s.creator = some p →
    db.Renewable s p → 0 < p.period ∧ db.headBlockTime + p.period * 86400 < 2 ^ 32

theorem addSeconds_eq {t s : Nat} (h : t + s < 2 ^ 32) : addSeconds t s = t + s := by
  have hwrap : wrapInt64 (((t : Int) + s) * 1000000) = ((t : Int) + s) * 1000000 := by
    unfold wrapInt64
    rw [Int.bmod_def]
    split
    · omega
    · omega
  unfold addSeconds
  rw [hwrap, Int.mul_tdiv_cancel _ (by decide)]
  have hsmall : ((t : Int) + s) % 2 ^ 32 = (t : Int) + s := Int.emod_eq_of_lt (by omega) (by omega)
  rw [hsmall]
  exact Int.toNat_natCast (t + s)

theorem adjustBalance_subscribes {name : AccountName} {delta : Int}
    (h : db.adjustBalance name delta = .ok db') :
    db'.paidSubscribes = db.paidSubscribes ∧ db'.headBlockTime = db.headBlockTime := by
  simp only [adjustBalance, bind_eq_ok, pure_eq_ok] at h
  obtain ⟨_, -, _, -, rfl⟩ := h
  exact ⟨rfl, rfl⟩

/-- What settling does to the table: the row moves beyond the present. -/
structure Moved (db : Db) (s : PaidSubscribeObject) (db' : Db) : Prop where
  time : db'.headBlockTime = db.headBlockTime
  rows : ∃ g, db'.paidSubscribes = db.paidSubscribes.update (·.id) s.id g ∧
    (∀ x, (g x).id = x.id) ∧ ∀ x, db.headBlockTime < (g x).nextTime

theorem closeSubscribe_moved (h : db.headBlockTime < timeMaximum) :
    db.Moved s (db.closeSubscribe s.id) :=
  ⟨rfl, _, rfl, fun _ => rfl, fun _ => h⟩

theorem Renews.moved (hfits : db.Fits s) (h : db.Renews s db') : db.Moved s db' := by
  obtain ⟨p, db₁, db₂, hp, hrenewable, hdebit, hcredit, rfl⟩ := h
  obtain ⟨hsubs₁, htime₁⟩ := adjustBalance_subscribes hdebit
  obtain ⟨hsubs₂, htime₂⟩ := adjustBalance_subscribes hcredit
  obtain ⟨hperiod, -⟩ := hfits.2 p hp hrenewable
  rw [hsubs₂, hsubs₁]
  refine ⟨htime₂.trans htime₁, _, rfl, fun _ => rfl, fun _ => ?_⟩
  exact Nat.lt_add_of_pos_right (Nat.mul_pos hperiod (by decide))

theorem Settles.moved (hfits : db.Fits s) (h : db.Settles s db') : db.Moved s db' := by
  rcases h with h | rfl
  · exact h.moved hfits
  · exact closeSubscribe_moved hfits.1

/-- **One subscribe** that is due is settled. -/
theorem processSubscribe_settles (hactive : s.active = true) (hfits : db.Fits s)
    (h : db.processSubscribe s = .ok db') : db.Settles s db' := by
  unfold processSubscribe at h
  rw [if_pos hactive] at h
  split at h
  · rename_i p hp
    split at h
    · rename_i hauto
      simp only [renewOrClose, bind_eq_ok, safeMul_eq_ok] at h
      obtain ⟨a, ha, _, -, _, ⟨-, rfl⟩, h⟩ := h
      split at h
      · rename_i hperiod
        simp only [bind_eq_ok, safeMul_eq_ok] at h
        obtain ⟨_, ⟨-, rfl⟩, h⟩ := h
        split at h
        · rename_i hterms
          have hrenewable : db.Renewable s p := ⟨hauto, hperiod, hterms.1, a, ha, hterms.2⟩
          simp only [renewSubscribe, bind_eq_ok, pure_eq_ok] at h
          obtain ⟨db₁, hdebit, db₂, hcredit, rfl⟩ := h
          refine .inl ⟨p, db₁, db₂, hp, hrenewable, hdebit, hcredit, ?_⟩
          have htime : db₂.headBlockTime = db.headBlockTime :=
            (adjustBalance_subscribes hcredit).2.trans (adjustBalance_subscribes hdebit).2
          rw [htime, addSeconds_eq (hfits.2 p hp hrenewable).2]
        · rw [pure_eq_ok] at h
          exact .inr h.symm
      · rw [pure_eq_ok] at h
        exact .inr h.symm
    · cases h
      exact .inr rfl
  · cases h
    exact .inr rfl

/-! ## The walk -/

theorem getOrThrow_row (hkeyed : db.paidSubscribes.Keyed (·.id)) (hs : s ∈ db.paidSubscribes.rows)
    (e : Exception) : getOrThrow (db.paidSubscribes.get (·.id) s.id) e = .ok s := by
  rw [hkeyed.get hs]
  rfl

/-- The walk stops at a row that lies ahead. -/
theorem subscribeLoop_ahead {fuel : Nat} (hkeyed : db.paidSubscribes.Keyed (·.id))
    (hs : s ∈ db.paidSubscribes.rows) (hahead : db.headBlockTime < s.nextTime) :
    subscribeLoop (fuel + 1) db (some s.id) = .ok db := by
  simp only [subscribeLoop, getOrThrow_row hkeyed hs]
  show (if s.nextTime ≤ db.headBlockTime then _ else pure db) = _
  rw [if_neg (Nat.not_le.2 hahead)]
  rfl

theorem Moved.keyed (hkeyed : db.paidSubscribes.Keyed (·.id)) (h : db.Moved s db') :
    db'.paidSubscribes.Keyed (·.id) := by
  obtain ⟨g, hrows, hid, -⟩ := h.rows
  rw [hrows]
  exact hkeyed.of_keys (Table.map_update _ _ _ _ _ fun x _ => hid x)

/-- **Once one subscribe has been settled** the walk is over: the iterator has moved with it. -/
theorem Moved.stops {fuel : Nat} (hkeyed : db.paidSubscribes.Keyed (·.id))
    (hs : s ∈ db.paidSubscribes.rows) (h : db.Moved s db') :
    subscribeLoop (fuel + 1) db' (db'.nextSubscribe s.id) = .ok db' := by
  have hkeyed' := h.keyed hkeyed
  obtain ⟨g, hrows, hid, hlate⟩ := h.rows
  have hget : db'.paidSubscribes.get (·.id) s.id = some (g s) := by
    rw [hrows, Table.get_update_same _ _ _ _ hid, hkeyed.get hs]
    rfl
  unfold nextSubscribe
  rw [hget]
  show subscribeLoop (fuel + 1) db' (((orderBy dueBefore db'.paidSubscribes.rows).find?
    (dueBefore (g s))).bind fun next => some next.id) = _
  cases hnext : (orderBy dueBefore db'.paidSubscribes.rows).find? (dueBefore (g s)) with
  | none => rfl
  | some next =>
    have hmem : next ∈ db'.paidSubscribes.rows :=
      (mem_orderBy _ _ _).1 (List.mem_of_find?_eq_some hnext)
    have hafter : dueBefore (g s) next = true := by simpa using List.find?_some hnext
    apply subscribeLoop_ahead hkeyed' hmem
    rw [h.time]
    exact Nat.lt_of_lt_of_le (hlate s) (nextTime_le_of_dueBefore hafter)

theorem processSubscribe_inactive (h : ¬ s.active = true) : db.processSubscribe s = .ok db :=
  if_neg h

/-- From any place of the index the walk comes to the first subscribe that is due there. -/
theorem subscribeLoop_eq (hkeyed : db.paidSubscribes.Keyed (·.id))
    {pre rest : List PaidSubscribeObject}
    (hsplit : orderBy dueBefore db.paidSubscribes.rows = pre ++ rest)
    (hfits : ∀ s ∈ rest.find? db.isDue, db.Fits s) {fuel : Nat} (hfuel : rest.length < fuel) :
    subscribeLoop fuel db (rest.head?.map (·.id)) =
      (rest.find? db.isDue).elim (.ok db) db.processSubscribe := by
  induction rest generalizing pre fuel with
  | nil =>
    obtain ⟨fuel, rfl⟩ : ∃ n, fuel = n + 1 := Nat.exists_eq_succ_of_ne_zero (by omega)
    rfl
  | cons x rest ih =>
    obtain ⟨fuel, rfl⟩ : ∃ n, fuel = n + 1 := Nat.exists_eq_succ_of_ne_zero (by omega)
    have hpair := subscribes_pairwise hkeyed
    rw [hsplit] at hpair
    have hx : x ∈ db.paidSubscribes.rows := by
      rw [← mem_orderBy dueBefore, hsplit]
      exact List.mem_append_right _ List.mem_cons_self
    by_cases htime : x.nextTime ≤ db.headBlockTime
    · have hstep : subscribeLoop (fuel + 1) db ((x :: rest).head?.map (·.id)) =
          (db.processSubscribe x).bind fun db => subscribeLoop fuel db (db.nextSubscribe x.id) := by
        show subscribeLoop (fuel + 1) db (some x.id) = _
        simp only [subscribeLoop, getOrThrow_row hkeyed hx]
        show (if x.nextTime ≤ db.headBlockTime then _ else pure db) = _
        rw [if_pos htime]
        rfl
      rw [hstep]
      by_cases hactive : x.active = true
      · have hdue : db.isDue x = true := by
          unfold isDue
          rw [hactive, decide_eq_true htime]
          rfl
        rw [List.find?_cons_of_pos hdue] at hfits ⊢
        have hx_fits := hfits x rfl
        show _ = db.processSubscribe x
        cases hprocess : db.processSubscribe x with
        | error e => rfl
        | ok db' =>
          obtain ⟨fuel, rfl⟩ : ∃ n, fuel = n + 1 :=
            Nat.exists_eq_succ_of_ne_zero (by simp only [List.length_cons] at hfuel; omega)
          exact ((processSubscribe_settles hactive hx_fits hprocess).moved hx_fits).stops hkeyed hx
      · have hdue : ¬ db.isDue x = true := by
          unfold isDue
          rw [Bool.and_eq_true]
          exact fun h => hactive h.1
        rw [List.find?_cons_of_neg hdue] at hfits ⊢
        rw [processSubscribe_inactive hactive]
        have hnext : db.nextSubscribe x.id = rest.head?.map (·.id) := by
          unfold nextSubscribe
          rw [hkeyed.get hx, hsplit]
          show ((pre ++ x :: rest).find? (dueBefore x)).bind (fun next => some next.id) = _
          rw [find_after (dueBefore_orders hkeyed).asymm hpair]
          cases rest <;> rfl
        show subscribeLoop fuel db (db.nextSubscribe x.id) = _
        rw [hnext]
        exact @ih (pre ++ [x]) (by rw [hsplit, List.append_assoc]; rfl) hfits fuel
          (by simp only [List.length_cons] at hfuel; omega)
    · have hnone : (x :: rest).find? db.isDue = none := by
        rw [List.find?_eq_none]
        intro y hy
        unfold isDue
        rw [Bool.and_eq_true, decide_eq_true_eq]
        rintro ⟨-, hy_time⟩
        rw [List.pairwise_append, List.pairwise_cons] at hpair
        rcases List.mem_cons.1 hy with rfl | hy
        · exact htime hy_time
        · exact htime (Nat.le_trans (nextTime_le_of_dueBefore (hpair.2.1.1 y hy)) hy_time)
      rw [hnone]
      exact subscribeLoop_ahead hkeyed hx (Nat.not_le.1 htime)

/-- The subscribe that comes first of those that are due. -/
def firstDue (db : Db) : Option PaidSubscribeObject :=
  (orderBy dueBefore db.paidSubscribes.rows).find? db.isDue

/-- **Only the first subscribe** that is due is processed. -/
theorem paidSubscribeProcessing_eq (hkeyed : db.paidSubscribes.Keyed (·.id))
    (hfits : ∀ s ∈ db.firstDue, db.Fits s) :
    db.paidSubscribeProcessing = db.firstDue.elim (.ok db) db.processSubscribe := by
  apply subscribeLoop_eq hkeyed (List.nil_append _).symm hfits
  rw [(orderBy_perm _ _).length_eq, Nat.add_mul]
  omega

/-! ## All that are due -/

/-- The subscribes are settled one after the other, each one time. -/
def SettlesAll : List PaidSubscribeObject → Db → Db → Prop
  | [], db, db' => db' = db
  | s :: rest, db, db' => ∃ db₁, db.Settles s db₁ ∧ SettlesAll rest db₁ db'

/-- What the block owes to its subscribers: every subscribe that was due has been settled one
time, and none is due any more. -/
def FallDueOnce (db db' : Db) : Prop :=
  (∃ order : List PaidSubscribeObject, order.Perm db.dueSubscribes ∧ SettlesAll order db db') ∧
    db'.dueSubscribes = []

theorem mem_dueSubscribes {x : PaidSubscribeObject} :
    x ∈ db.dueSubscribes ↔ x ∈ db.paidSubscribes.rows ∧ db.isDue x = true := List.mem_filter

theorem firstDue_eq_none (h : db.firstDue = none) : db.dueSubscribes = [] := by
  rw [dueSubscribes, List.filter_eq_nil_iff]
  intro x hx
  exact List.find?_eq_none.1 h x ((mem_orderBy _ _ _).2 hx)

theorem firstDue_mem (h : db.firstDue = some s) : s ∈ db.dueSubscribes :=
  mem_dueSubscribes.2 ⟨(mem_orderBy _ _ _).1 (List.mem_of_find?_eq_some h), List.find?_some h⟩

theorem active_of_isDue (h : db.isDue s = true) : s.active = true :=
  (Bool.and_eq_true _ _ ▸ h : s.active = true ∧ _).1

/-- Settling takes its own subscribe out of those that are due, and no other one. -/
theorem Moved.mem_dueSubscribes (hkeyed : db.paidSubscribes.Keyed (·.id))
    (hs : s ∈ db.paidSubscribes.rows) (h : db.Moved s db') {x : PaidSubscribeObject} :
    x ∈ db'.dueSubscribes ↔ x ∈ db.dueSubscribes ∧ x.id ≠ s.id := by
  obtain ⟨g, hrows, hid, hlate⟩ := h.rows
  have hdue : db'.isDue x = db.isDue x := by rw [isDue, isDue, h.time]
  rw [Db.mem_dueSubscribes, Db.mem_dueSubscribes, hdue, hrows]
  have hget : db.paidSubscribes.get (·.id) s.id = some s := hkeyed.get hs
  constructor
  · rintro ⟨hx, hx_due⟩
    rcases hkeyed.mem_update hid hget hx with rfl | ⟨hx, hne⟩
    · exfalso
      have htime : (g s).nextTime ≤ db.headBlockTime :=
        of_decide_eq_true (Bool.and_eq_true _ _ ▸ hx_due : _ ∧ _).2
      exact Nat.not_lt.2 htime (hlate s)
    · exact ⟨⟨hx, hx_due⟩, hne⟩
  · rintro ⟨⟨hx, hx_due⟩, hne⟩
    exact ⟨Table.mem_update_of_ne hx hne, hx_due⟩

/-- The subscribe that was processed is the only one that was due, or another one still is. -/
theorem Moved.dueSubscribes_eq_nil (hkeyed : db.paidSubscribes.Keyed (·.id))
    (hs : s ∈ db.dueSubscribes) (h : db.Moved s db') :
    db'.dueSubscribes = [] ↔ db.dueSubscribes = [s] := by
  have hrow : s ∈ db.paidSubscribes.rows := (Db.mem_dueSubscribes.1 hs).1
  have hnodup : db.dueSubscribes.Nodup := (List.Nodup.of_map _ hkeyed).filter _
  have hsame : ∀ x ∈ db.dueSubscribes, x.id = s.id → x = s := by
    intro x hx hid
    have hget := hkeyed.get (Db.mem_dueSubscribes.1 hx).1
    rw [hid, hkeyed.get hrow] at hget
    exact (Option.some.inj hget).symm
  constructor
  · intro hnil
    have hall : ∀ x ∈ db.dueSubscribes, x = s := by
      intro x hx
      by_cases hid : x.id = s.id
      · exact hsame x hx hid
      · have hx' := (h.mem_dueSubscribes hkeyed hrow).2 ⟨hx, hid⟩
        rw [hnil] at hx'
        cases hx'
    have hrep := List.eq_replicate_iff.2 ⟨rfl, hall⟩
    have hlen : db.dueSubscribes.length = 1 := by
      rw [hrep] at hnodup
      have hle := List.nodup_replicate.1 hnodup
      have hpos := List.length_pos_of_mem hs
      omega
    rw [hrep, hlen]
    rfl
  · intro hone
    rw [List.eq_nil_iff_forall_not_mem]
    intro x hx
    obtain ⟨hx, hid⟩ := (h.mem_dueSubscribes hkeyed hrow).1 hx
    rw [hone, List.mem_singleton] at hx
    exact hid (by rw [hx])

/-- **Renewals in time.** The walk comes to its end with the first subscribe that is due, so all
of them have been settled if and only if there is no second one. -/
theorem renewals_in_time (hkeyed : db.paidSubscribes.Keyed (·.id))
    (hfits : ∀ s ∈ db.dueSubscribes, db.Fits s) :
    db.paidSubscribeProcessing = db.firstDue.elim (.ok db) db.processSubscribe ∧
    ∀ db', db.paidSubscribeProcessing = .ok db' →
      (FallDueOnce db db' ↔ db.dueSubscribes.length ≤ 1) := by
  have heq := paidSubscribeProcessing_eq hkeyed fun s hs => hfits s (firstDue_mem hs)
  refine ⟨heq, ?_⟩
  intro db' h
  rw [heq] at h
  cases hfirst : db.firstDue with
  | none =>
    rw [hfirst] at h
    cases h
    have hnil := firstDue_eq_none hfirst
    rw [hnil]
    exact ⟨fun _ => Nat.zero_le 1, fun _ => ⟨⟨[], hnil ▸ .refl [], rfl⟩, hnil⟩⟩
  | some s =>
    rw [hfirst] at h
    have hs := firstDue_mem hfirst
    have hsettles : db.Settles s db' :=
      processSubscribe_settles (active_of_isDue (mem_dueSubscribes.1 hs).2) (hfits s hs) h
    have hnil := (hsettles.moved (hfits s hs)).dueSubscribes_eq_nil hkeyed hs
    constructor
    · intro hdone
      rw [hnil.1 hdone.2]
      exact Nat.le_refl 1
    · intro hlen
      have hone : db.dueSubscribes = [s] := by
        have hpos := List.length_pos_of_mem hs
        obtain ⟨x, hx⟩ := List.length_eq_one_iff.1 (by omega : db.dueSubscribes.length = 1)
        rw [hx, List.mem_singleton] at hs
        rw [hx, hs]
      exact ⟨⟨[s], hone ▸ .refl [s], db', hsettles, rfl⟩, hnil.2 hone⟩

/-- A subscribe to carol that has just run out. -/
def dueSubscribe (id : Nat) (subscriber : AccountName) : PaidSubscribeObject where
  id := id
  subscriber := subscriber
  creator := "carol"
  level := 1
  amount := 5
  period := 1
  startTime := 0
  nextTime := 86400
  endTime := timeMaximum
  active := true
  autoRenewal := true

def dueDb (subscribers : List AccountName) : Db where
  dgp := { time := 86400 }
  accounts := ⟨[{ id := 0, name := "alice", balance := 10 }, { id := 1, name := "bob", balance := 10 },
    { id := 2, name := "carol" }], 3⟩
  paidSubscriptions := ⟨[{ id := 0, creator := "carol", url := "", levels := 1, amount := 5
                           period := 1, updateTime := 0 }], 1⟩
  paidSubscribes := ⟨subscribers.mapIdx dueSubscribe, subscribers.length⟩

theorem renewals_in_time_alice : ∃ db', (dueDb ["alice"]).paidSubscribeProcessing = .ok db' ∧
    FallDueOnce (dueDb ["alice"]) db' := by
  have hkeyed : (dueDb ["alice"]).paidSubscribes.Keyed (·.id) := by
    unfold Table.Keyed
    decide
  have hfits : ∀ s ∈ (dueDb ["alice"]).dueSubscribes, (dueDb ["alice"]).Fits s := by
    intro s _
    refine ⟨by decide, fun p hp _ => ?_⟩
    have hall : (dueDb ["alice"]).paidSubscriptions.All fun p =>
        0 < p.period ∧ 86400 + p.period * 86400 < 2 ^ 32 := by
      unfold Table.All
      decide
    exact hall p (Table.get_mem hp)
  have hrun : returns (dueDb ["alice"]).paidSubscribeProcessing (fun _ => true) = true := by
    decide +kernel
  obtain ⟨db', hdb', -⟩ := returns_eq_true hrun
  exact ⟨db', hdb', ((renewals_in_time hkeyed hfits).2 db' hdb').2 (by decide)⟩

/-- Alice's subscribe is renewed; bob's stays active, unpaid and due. -/
theorem second_stays_due : ∃ db', (dueDb ["alice", "bob"]).paidSubscribeProcessing = .ok db' ∧
    ¬ FallDueOnce (dueDb ["alice", "bob"]) db' := by
  have hrun : returns (dueDb ["alice", "bob"]).paidSubscribeProcessing
      (fun db' => decide (dueSubscribe 1 "bob" ∈ db'.dueSubscribes)) = true := by
    decide +kernel
  obtain ⟨db', hdb', hbob⟩ := returns_eq_true hrun
  refine ⟨db', hdb', ?_⟩
  rintro ⟨-, hnil⟩
  rw [hnil] at hbob
  cases hbob

end Db

end VizCore.Chain
