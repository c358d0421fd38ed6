import VizCore.Lib.Select
import VizCore.Chain.Block.Schedule

/-!
# Rounds

What `update_witness_schedule` selects.  `Round db db' top support` says it without the
loops: the top witnesses are the first by counted votes, the support witnesses the first
of the others by virtual time, and the seats alternate between the two groups.  `Advance`
says what happens to the virtual times of the witnesses that the walk passed.

* `scheduleWitnesses_round`, `scheduleWitnesses_virtualTime`: the code fills the seats and moves
  the virtual times so;
* `scheduleWitnesses_returns`: it fails only on a dangling name or on votes out of range.
-/

namespace VizCore.Chain

open VizCore.Lib VizCore.Protocol

/-- The virtual times of a witness. -/
def WitnessObject.clock (w : WitnessObject) : Nat × Nat × Nat :=
  (w.virtualLastUpdate, w.virtualPosition, w.virtualScheduledTime)

/-- The virtual time that a witness takes for a lap. -/
def WitnessObject.lap (w : WitnessObject) : Nat :=
  virtualScheduleLapLength / toUint128 (wrapInt64 (w.countedVotes + 1))

/-- What ranks a witness and lets it sign. -/
def WitnessObject.badge (w : WitnessObject) : Nat × AccountName × PublicKey × Int :=
  (w.id, w.owner, w.signingKey, w.countedVotes)

namespace Db

/-- The index of witnesses: ids and names are unique and times have 128 bits. -/
structure Panel (db : Db) : Prop where
  ids : db.witnesses.Keyed (·.id)
  owners : db.witnesses.Keyed (·.owner)
  times : ∀ w ∈ db.witnesses.rows, w.virtualScheduledTime < 2 ^ 128

/-- A witness that can be scheduled. -/
def Eligible (db : Db) (w : WitnessObject) : Prop :=
  w ∈ db.witnesses.rows ∧ w.signingKey ≠ 0

/-- The walk along the virtual schedule passes everyone while seats are left, and otherwise
those up to the last support witness. -/
def Passed (db : Db) (top support : List WitnessObject) (w : WitnessObject) : Prop :=
  w ∈ db.witnesses.rows ∧ (top.length + support.length < maxWitnesses ∨
    ∃ s ∈ support, s = w ∨ scheduledBefore w s = true)

/-- The selection of a round and its seats. -/
structure Round (db db' : Db) (top support : List WitnessObject) : Prop where
  tops : FirstOf countedBefore db.Eligible maxTopWitnesses top
  supports : FirstOf scheduledBefore (fun w => db.Eligible w ∧ w ∉ top)
    (maxWitnesses - top.length) support
  num : db'.witnessSchedule.numScheduledWitnesses = top.length + support.length
  size : db'.witnessSchedule.currentShuffledWitnesses.length = maxWitnesses
  /-- as long as both groups last they take turns -/
  turns : ∀ i, i < top.length → i < support.length →
    db'.witnessSchedule.currentShuffledWitnesses[2 * i]? = top[i]?.map (·.owner) ∧
    db'.witnessSchedule.currentShuffledWitnesses[2 * i + 1]? = support[i]?.map (·.owner)
  topRest : ∀ i, support.length ≤ i → i < top.length →
    db'.witnessSchedule.currentShuffledWitnesses[support.length + i]? = top[i]?.map (·.owner)
  supportRest : ∀ i, top.length ≤ i → i < support.length →
    db'.witnessSchedule.currentShuffledWitnesses[top.length + i]? = support[i]?.map (·.owner)
  empty : ∀ i, db'.witnessSchedule.numScheduledWitnesses ≤ i → i < maxWitnesses →
    db'.witnessSchedule.currentShuffledWitnesses[i]? = some ""
  /-- ids, names, keys and counted votes stay as they are -/
  badges : db'.witnesses.image (·.badge) = db.witnesses.image (·.badge)
  /-- the seats are taken by different witnesses that can sign -/
  nodup : db'.scheduledNames.Nodup
  signs : ∀ name ∈ db'.scheduledNames, ∃ w, db'.findWitness name = some w ∧ w.signingKey ≠ 0

/-- Everyone that was passed starts a lap at the time of the last of them, and the others
are left alone. -/
structure Advance (db db' : Db) (top support : List WitnessObject) (now : Nat) : Prop where
  current : db'.witnessSchedule.currentVirtualTime = now
  passed : ∀ w, db.Passed top support w →
    (db'.findWitness w.owner).map (·.clock) = some (now, 0, now + w.lap)
  others : ∀ w ∈ db.witnesses.rows, ¬ db.Passed top support w →
    (db'.findWitness w.owner).map (·.clock) = some w.clock

/-- The virtual times start anew. -/
structure Reset (db db' : Db) : Prop where
  current : db'.witnessSchedule.currentVirtualTime = 0
  all : ∀ w ∈ db.witnesses.rows,
    (db'.findWitness w.owner).map (·.clock) = some (0, 0, w.lap)

/-- The virtual times after a round: `now` is the latest time among those that were passed;
they advance to it, unless a lap from there overflows. -/
def VirtualTime (db db' : Db) (top support : List WitnessObject) : Prop :=
  ∃ now, (∃ w, db.Passed top support w ∧ w.virtualScheduledTime = now) ∧
    (∀ w, db.Passed top support w → w.virtualScheduledTime ≤ now) ∧
    ((∀ w, db.Passed top support w → now + w.lap < 2 ^ 128) →
      db.Advance db' top support now) ∧
    ((∃ w, db.Passed top support w ∧ 2 ^ 128 ≤ now + w.lap) → db.Reset db')

variable {db db' : Db}

/-! ## Counted votes -/

/-- The penalty is taken from the votes without wrapping. -/
theorem countedVotesOf_eq {votes : Int} (h : 0 ≤ votes) (h' : votes < 2 ^ 63) (penalty : Nat) :
    countedVotesOf votes penalty =
      .ok (votes - votes * min penalty percent100 / percent100) := by
  obtain ⟨n, rfl⟩ := Int.eq_ofNat_of_zero_le h
  have hn : n < 2 ^ 63 := by omega
  have huint : toUint128 n = n := by
    simp only [toUint128]
    omega
  have hmin : min penalty percent100 ≤ percent100 := Nat.min_le_right _ _
  have hle : n * min penalty percent100 ≤ n * percent100 := Nat.mul_le_mul_left n hmin
  have hprod : n * min penalty percent100 / percent100 ≤ n := by
    calc n * min penalty percent100 / percent100 ≤ n * percent100 / percent100 :=
          Nat.div_le_div_right hle
      _ = n := Nat.mul_div_cancel n (by decide)
  have hfits : n * min penalty percent100 < 2 ^ 128 := by
    have hpercent : percent100 = 10000 := rfl
    rw [hpercent] at hle ⊢
    omega
  have hcast : ((n * min penalty percent100 / percent100 : Nat) : Int) =
      (n : Int) * ((min penalty percent100 : Nat) : Int) / ((percent100 : Nat) : Int) := by
    push_cast
    rfl
  simp only [countedVotesOf, huint, Nat.mod_eq_of_lt hfits]
  rw [← hcast]
  generalize n * min penalty percent100 / percent100 = q at hprod ⊢
  have hdiff : (n + 2 ^ 128 - q) % 2 ^ 128 = n - q := by omega
  rw [hdiff, toSigned64, bind_eq_ok]
  refine ⟨(), (fcAssert_eq_ok _ _ _).2 (by omega), ?_⟩
  rw [pure_eq_ok, toInt64, if_pos (by omega)]
  omega

theorem countedVotesOf_returns {votes : Int} (h : 0 ≤ votes) (h' : votes < 2 ^ 63)
    (penalty : Nat) : ∃ counted, countedVotesOf votes penalty = .ok counted ∧
      0 ≤ counted ∧ counted < 2 ^ 63 := by
  refine ⟨_, countedVotesOf_eq h h' penalty, ?_⟩
  have hmin : ((min penalty percent100 : Nat) : Int) ≤ 10000 := by
    exact_mod_cast Nat.min_le_right penalty percent100
  have hpos : (0 : Int) ≤ ((min penalty percent100 : Nat) : Int) := Int.natCast_nonneg _
  have hpercent : ((percent100 : Nat) : Int) = 10000 := rfl
  have hprod : votes * ((min penalty percent100 : Nat) : Int) ≤ votes * 10000 :=
    mul_le_mul_of_nonneg_left hmin h
  have hprod' : 0 ≤ votes * ((min penalty percent100 : Nat) : Int) := mul_nonneg h hpos
  rw [hpercent]
  omega

/-! ## The two orders -/

theorem countedBefore_iff (v w : WitnessObject) : countedBefore v w = true ↔
    w.countedVotes < v.countedVotes ∨ (v.countedVotes = w.countedVotes ∧ v.owner < w.owner) := by
  simp [countedBefore]

theorem scheduledBefore_iff (v w : WitnessObject) : scheduledBefore v w = true ↔
    v.virtualScheduledTime < w.virtualScheduledTime ∨
      (v.virtualScheduledTime = w.virtualScheduledTime ∧ v.id < w.id) := by
  simp [scheduledBefore]

/-- Rows that agree on a unique key are one row. -/
theorem eq_of_keyed {κ : Type} [DecidableEq κ] {t : Table WitnessObject}
    {key : WitnessObject → κ} (h : t.Keyed key) {v w : WitnessObject} (hv : v ∈ t.rows)
    (hw : w ∈ t.rows) (heq : key v = key w) : v = w := by
  have hget := h.get hv
  rw [heq, h.get hw] at hget
  exact (Option.some.inj hget).symm

theorem orders_countedBefore (h : db.witnesses.Keyed (·.owner)) :
    Orders countedBefore db.witnesses.rows := by
  constructor
  · intro v w hvw
    rw [countedBefore_iff] at hvw
    rw [Bool.eq_false_iff, ne_eq, countedBefore_iff]
    rintro (hlt | ⟨heq, hlt⟩)
    · rcases hvw with hvw | ⟨hvw, -⟩ <;> omega
    · rcases hvw with hvw | ⟨-, hvw⟩
      · omega
      · exact String.lt_asymm hvw hlt
  · intro u v w huv hvw
    rw [countedBefore_iff] at huv hvw ⊢
    rcases huv with huv | ⟨huv, huv'⟩
    · rcases hvw with hvw | ⟨hvw, -⟩ <;> left <;> omega
    · rcases hvw with hvw | ⟨hvw, hvw'⟩
      · left
        omega
      · exact .inr ⟨huv.trans hvw, String.lt_trans huv' hvw'⟩
  · intro v hv w hw hne
    rw [countedBefore_iff, countedBefore_iff]
    have howner : v.owner ≠ w.owner := fun heq => hne (eq_of_keyed h hv hw heq)
    rcases lt_trichotomy v.countedVotes w.countedVotes with hlt | heq | hlt
    · exact .inr (.inl hlt)
    · by_cases hlt : v.owner < w.owner
      · exact .inl (.inr ⟨heq, hlt⟩)
      · refine .inr (.inr ⟨heq.symm, ?_⟩)
        by_contra hge
        exact howner (String.le_antisymm hge hlt)
    · exact .inl (.inl hlt)

theorem orders_scheduledBefore (h : db.witnesses.Keyed (·.id)) :
    Orders scheduledBefore db.witnesses.rows := by
  constructor
  · intro v w hvw
    rw [scheduledBefore_iff] at hvw
    rw [Bool.eq_false_iff, ne_eq, scheduledBefore_iff]
    omega
  · intro u v w huv hvw
    rw [scheduledBefore_iff] at huv hvw ⊢
    omega
  · intro v hv w hw hne
    rw [scheduledBefore_iff, scheduledBefore_iff]
    have hid : v.id ≠ w.id := fun heq => hne (eq_of_keyed h hv hw heq)
    omega

theorem Panel.rows_nodup (h : db.Panel) : db.witnesses.rows.Nodup :=
  List.Nodup.of_map _ h.ids

/-! ## Selection -/

theorem topWitnesses_first (h : db.Panel) :
    FirstOf countedBefore db.Eligible maxTopWitnesses db.topWitnesses := by
  refine (FirstOf.orderBy (orders_countedBefore h.owners) h.rows_nodup
    (fun w => decide (w.signingKey ≠ 0)) maxTopWitnesses).congr fun w => ?_
  rw [decide_eq_true_eq]
  rfl

/-- A witness that takes a support seat. -/
def supports (selected : List Nat) (w : WitnessObject) : Bool :=
  w.signingKey ≠ 0 && w.id ∉ selected

theorem passedWitnesses_eq_upTo (selected : List Nat) (l : List WitnessObject) (count : Nat) :
    passedWitnesses selected l count = upTo (supports selected) (maxWitnesses - count) l := by
  induction l generalizing count with
  | nil => cases maxWitnesses - count <;> rfl
  | cons w rest ih =>
    unfold passedWitnesses
    by_cases hfull : maxWitnesses ≤ count
    · rw [if_pos hfull, Nat.sub_eq_zero_of_le hfull]
      rfl
    · have hsucc : maxWitnesses - count = maxWitnesses - (count + 1) + 1 := by omega
      rw [if_neg hfull]
      by_cases hskip : w.signingKey = 0 ∨ w.id ∈ selected
      · have hno : ¬ supports selected w = true := by
          simpa [supports, or_iff_not_imp_left] using hskip
        rw [if_pos hskip, ih, hsucc]
        simp only [upTo]
        rw [if_neg hno]
      · have hyes : supports selected w = true := by
          simpa [supports] using hskip
        rw [if_neg hskip, ih, hsucc]
        simp only [upTo]
        rw [if_pos hyes]

theorem selected_iff (h : db.Panel) {top : List WitnessObject}
    (htop : ∀ w ∈ top, w ∈ db.witnesses.rows) {w : WitnessObject} (hw : w ∈ db.witnesses.rows) :
    w.id ∈ top.map (·.id) ↔ w ∈ top := by
  constructor
  · intro hid
    obtain ⟨v, hv, heq⟩ := List.mem_map.1 hid
    rwa [← eq_of_keyed h.ids (htop v hv) hw heq]
  · exact List.mem_map_of_mem

/-- The support witnesses: those of the queue that take a seat. -/
theorem support_first (h : db.Panel) {top : List WitnessObject}
    (htop : ∀ w ∈ top, w ∈ db.witnesses.rows) :
    FirstOf scheduledBefore (fun w => db.Eligible w ∧ w ∉ top) (maxWitnesses - top.length)
      (((orderBy scheduledBefore db.witnesses.rows).filter (supports (top.map (·.id)))).take
        (maxWitnesses - top.length)) := by
  refine (FirstOf.orderBy (orders_scheduledBefore h.ids) h.rows_nodup _ _).congr fun w => ?_
  constructor
  · rintro ⟨hw, hsupports⟩
    rw [supports, Bool.and_eq_true, decide_eq_true_eq, decide_eq_true_eq,
      selected_iff h htop hw] at hsupports
    exact ⟨⟨hw, hsupports.1⟩, hsupports.2⟩
  · rintro ⟨⟨hw, hkey⟩, hnot⟩
    refine ⟨hw, ?_⟩
    rw [supports, Bool.and_eq_true, decide_eq_true_eq, decide_eq_true_eq, selected_iff h htop hw]
    exact ⟨hkey, hnot⟩

/-- The queue is walked as `Passed` says. -/
theorem mem_passedWitnesses (h : db.Panel) {top support : List WitnessObject}
    (hlen : top.length < maxWitnesses)
    (hsupport : support = ((orderBy scheduledBefore db.witnesses.rows).filter
      (supports (top.map (·.id)))).take (maxWitnesses - top.length)) (w : WitnessObject) :
    w ∈ passedWitnesses (top.map (·.id)) (orderBy scheduledBefore db.witnesses.rows) top.length ↔
      db.Passed top support w := by
  have horders := orders_scheduledBefore h.ids
  rw [passedWitnesses_eq_upTo, mem_upTo (by omega) horders.asymm
    (orderBy_pairwise horders h.rows_nodup), mem_orderBy, ← hsupport]
  have hroom : support.length < maxWitnesses - top.length ↔
      top.length + support.length < maxWitnesses := by omega
  rw [hroom]
  rfl

/-! ## Seats -/

theorem interleave_perm (top support : List AccountName) :
    (interleave top support).Perm (top ++ support) := by
  induction top, support using interleave.induct with
  | case1 support => exact List.Perm.refl _
  | case2 a top =>
    rw [interleave, List.append_nil]
  | case3 a top s support ih =>
    refine List.Perm.cons a ?_
    exact (ih.cons s).trans List.perm_middle.symm

theorem interleave_length (top support : List AccountName) :
    (interleave top support).length = top.length + support.length := by
  rw [(interleave_perm top support).length_eq, List.length_append]

theorem interleave_turns (top support : List AccountName) (i : Nat) (htop : i < top.length)
    (hsupport : i < support.length) : (interleave top support)[2 * i]? = top[i]? ∧
      (interleave top support)[2 * i + 1]? = support[i]? := by
  induction top, support using interleave.induct generalizing i with
  | case1 support => exact absurd htop (Nat.not_lt_zero i)
  | case2 a top => exact absurd hsupport (Nat.not_lt_zero i)
  | case3 a top s support ih =>
    cases i with
    | zero => exact ⟨rfl, rfl⟩
    | succ i =>
      rw [List.length_cons] at htop hsupport
      have hi := ih i (by omega) (by omega)
      exact hi

theorem interleave_topRest (top support : List AccountName) (i : Nat)
    (hi : support.length ≤ i) : (interleave top support)[support.length + i]? = top[i]? := by
  induction top, support using interleave.induct generalizing i with
  | case1 support =>
    rw [interleave, List.getElem?_eq_none (by omega)]
    rfl
  | case2 a top =>
    rw [interleave, List.length_nil, Nat.zero_add]
  | case3 a top s support ih =>
    cases i with
    | zero => exact absurd hi (Nat.not_succ_le_zero _)
    | succ i =>
      rw [List.length_cons] at hi ⊢
      have hshift : support.length + 1 + (i + 1) = support.length + i + 1 + 1 := by omega
      rw [hshift, interleave, List.getElem?_cons_succ, List.getElem?_cons_succ,
        List.getElem?_cons_succ]
      exact ih i (by omega)

theorem interleave_supportRest (top support : List AccountName) (i : Nat)
    (hi : top.length ≤ i) : (interleave top support)[top.length + i]? = support[i]? := by
  induction top, support using interleave.induct generalizing i with
  | case1 support =>
    rw [interleave, List.length_nil, Nat.zero_add]
  | case2 a top =>
    rw [interleave, List.getElem?_eq_none (by omega)]
    rfl
  | case3 a top s support ih =>
    cases i with
    | zero => exact absurd hi (Nat.not_succ_le_zero _)
    | succ i =>
      rw [List.length_cons] at hi ⊢
      have hshift : top.length + 1 + (i + 1) = top.length + i + 1 + 1 := by omega
      rw [hshift, interleave, List.getElem?_cons_succ, List.getElem?_cons_succ,
        List.getElem?_cons_succ]
      exact ih i (by omega)

/-! ## The steps of a round -/

/-- A witness without its penalty. -/
def withoutPenalty (w : WitnessObject) : WitnessObject :=
  { w with penaltyPercent := 0, countedVotes := 0 }

theorem modifyWitness_image {β : Type} (φ : WitnessObject → β) (db : Db) (name : AccountName)
    {f : WitnessObject → WitnessObject} (hf : ∀ w, φ (f w) = φ w) :
    (db.modifyWitness name f).witnesses.image φ = db.witnesses.image φ :=
  Table.image_update_of_same db.witnesses φ (·.owner) name f hf

theorem expirePenalty_witnesses {p : WitnessPenaltyExpireObject}
    (h : db.expirePenalty p = .ok db') :
    db'.witnesses.image withoutPenalty = db.witnesses.image withoutPenalty := by
  simp only [expirePenalty, bind_eq_ok, pure_eq_ok] at h
  obtain ⟨w, -, counted, -, rfl⟩ := h
  exact modifyWitness_image withoutPenalty db p.witness fun _ => rfl

theorem expirePenalties_witnesses (h : db.expirePenalties = .ok db') :
    db'.witnesses.image withoutPenalty = db.witnesses.image withoutPenalty :=
  foldlM_invariant
    (fun s : Db => s.witnesses.image withoutPenalty = db.witnesses.image withoutPenalty) _ _
    (fun _ _ _ _ hs hstep => (expirePenalty_witnesses hstep).trans hs) db db' rfl h

/-- What an image of the rows shows does not change when the image does not. -/
theorem rows_map_of_image {β γ : Type} {t t' : Table WitnessObject} {φ : WitnessObject → β}
    (h : t'.image φ = t.image φ) (ψ : β → γ) :
    t'.rows.map (fun w => ψ (φ w)) = t.rows.map fun w => ψ (φ w) := by
  have hrows : t'.rows.map φ = t.rows.map φ := congrArg Table.rows h
  have hmap := congrArg (List.map ψ) hrows
  rwa [List.map_map, List.map_map] at hmap

theorem get_map_of_image {β : Type} {t t' : Table WitnessObject} {φ : WitnessObject → β}
    (key : β → AccountName) (hkey : ∀ w, key (φ w) = w.owner) (h : t'.image φ = t.image φ)
    (name : AccountName) :
    (t'.get (·.owner) name).map φ = (t.get (·.owner) name).map φ := by
  have hget := Table.get_image t φ key name
  have hget' := Table.get_image t' φ key name
  simp only [hkey] at hget hget'
  rw [← hget, ← hget', h]

theorem expirePenalties_panel (hpanel : db.Panel) (h : db.expirePenalties = .ok db') :
    db'.Panel := by
  have himage := expirePenalties_witnesses h
  refine ⟨hpanel.ids.of_keys (rows_map_of_image himage (·.id)),
    hpanel.owners.of_keys (rows_map_of_image himage (·.owner)), fun w hw => ?_⟩
  have htimes := rows_map_of_image himage (·.virtualScheduledTime)
  have hmem : w.virtualScheduledTime ∈ db'.witnesses.rows.map fun w =>
      (withoutPenalty w).virtualScheduledTime := List.mem_map_of_mem hw
  rw [htimes] at hmem
  obtain ⟨v, hv, heq⟩ := List.mem_map.1 hmem
  rw [← heq]
  exact hpanel.times v hv

theorem expirePenalties_key (hkey : ∃ w ∈ db.witnesses.rows, w.signingKey ≠ 0)
    (h : db.expirePenalties = .ok db') : ∃ w ∈ db'.witnesses.rows, w.signingKey ≠ 0 := by
  obtain ⟨w, hw, hsign⟩ := hkey
  have hkeys := rows_map_of_image (expirePenalties_witnesses h) (·.signingKey)
  have hmem : w.signingKey ∈ db.witnesses.rows.map fun w => (withoutPenalty w).signingKey :=
    List.mem_map_of_mem hw
  rw [← hkeys] at hmem
  obtain ⟨v, hv, heq⟩ := List.mem_map.1 hmem
  refine ⟨v, hv, ?_⟩
  have heq' : v.signingKey = w.signingKey := heq
  rw [heq']
  exact hsign

/-- Marking the witnesses of a round does not change an image that leaves out the mark. -/
theorem setSchedule_image {β : Type} (φ : WitnessObject → β) (kind : WitnessScheduleType)
    (hφ : ∀ w, φ { w with schedule := kind } = φ w) (l : List WitnessObject) (db : Db) :
    (l.foldl (setSchedule kind) db).witnesses.image φ = db.witnesses.image φ := by
  induction l generalizing db with
  | nil => rfl
  | cons w l ih =>
    rw [List.foldl_cons, ih]
    exact modifyWitness_image φ db w.owner hφ

theorem nextVirtualTime_eq {now t : Nat} {w : WitnessObject}
    (h : nextVirtualTime now w = .ok t) : t = (now + w.lap) % 2 ^ 128 := by
  simp only [nextVirtualTime, divUint128, bind_eq_ok, pure_eq_ok] at h
  obtain ⟨_, ⟨_, -, rfl⟩, rfl⟩ := h
  rfl

/-- A witness that starts a lap at `now`. -/
def startLap (now : Nat) (w x : WitnessObject) : WitnessObject :=
  { x with
    virtualPosition := 0, virtualLastUpdate := now
    virtualScheduledTime := (now + w.lap) % 2 ^ 128 }

/-- A witness whose virtual time starts anew. -/
def restart (w : WitnessObject) : WitnessObject :=
  { w with virtualPosition := 0, virtualLastUpdate := 0, virtualScheduledTime := w.lap }

theorem resetVirtualScheduleTime_eq (h : db.resetVirtualScheduleTime = .ok db') :
    db'.witnesses = db.witnesses.map restart := by
  simp only [resetVirtualScheduleTime, bind_eq_ok, pure_eq_ok] at h
  obtain ⟨rows, hrows, rfl⟩ := h
  have hmap : rows = db.witnesses.rows.map restart := by
    refine mapM_eq_ok_map (fun w _ w' hw => ?_) hrows
    simp only [resetVirtualTime, divUint128, bind_eq_ok, pure_eq_ok] at hw
    obtain ⟨_, ⟨_, -, rfl⟩, rfl⟩ := hw
    rfl
  rw [hmap]
  rfl

/-- The virtual schedule starts anew when a lap overflows, and else those that were passed
start a lap. -/
theorem updateVirtualSchedule_cases {now now' : Nat} {passed : List WitnessObject}
    (h : db.updateVirtualSchedule now passed = .ok (now', db')) :
    ((∃ w ∈ passed, (now + w.lap) % 2 ^ 128 < now) ∧ now' = 0 ∧
      db'.witnesses = db.witnesses.map restart) ∨
    ((∀ w ∈ passed, now ≤ (now + w.lap) % 2 ^ 128) ∧ now' = now ∧
      db'.witnesses =
        passed.foldl (fun t w => t.update (·.owner) w.owner (startLap now w)) db.witnesses) := by
  simp only [updateVirtualSchedule, bind_eq_ok] at h
  obtain ⟨times, htimes, h⟩ := h
  have hmap := mapM_eq_ok_map (fun w _ t ht => nextVirtualTime_eq ht) htimes
  rw [hmap] at h
  split at h
  · rename_i hany
    simp only [bind_eq_ok, pure_eq_ok, Prod.mk.injEq] at h
    obtain ⟨db₁, hreset, rfl, rfl⟩ := h
    refine .inl ⟨?_, rfl, resetVirtualScheduleTime_eq hreset⟩
    simpa using hany
  · rename_i hany
    simp only [pure_eq_ok, Prod.mk.injEq] at h
    obtain ⟨rfl, rfl⟩ := h
    refine .inr ⟨?_, rfl, ?_⟩
    · simpa using hany
    · have hfold (l : List WitnessObject) (db : Db) :
          ((l.zip (l.map fun w => (now + w.lap) % 2 ^ 128)).foldl (setVirtualTime now)
            db).witnesses =
          l.foldl (fun t w => t.update (·.owner) w.owner (startLap now w)) db.witnesses := by
        induction l generalizing db with
        | nil => rfl
        | cons w l ih =>
          rw [List.map_cons, List.zip_cons_cons, List.foldl_cons, ih]
          rfl
      exact hfold passed db

theorem image_foldl_update {β : Type} (φ : WitnessObject → β)
    (f : WitnessObject → WitnessObject → WitnessObject) (hf : ∀ w x, φ (f w x) = φ x)
    (l : List WitnessObject) (t : Table WitnessObject) :
    (l.foldl (fun t w => t.update (·.owner) w.owner (f w)) t).image φ = t.image φ := by
  induction l generalizing t with
  | nil => rfl
  | cons w l ih =>
    rw [List.foldl_cons, ih]
    exact Table.image_update_of_same t φ (·.owner) w.owner (f w) (hf w)

/-- The virtual schedule changes nothing but virtual times. -/
theorem updateVirtualSchedule_image {β : Type} (φ : WitnessObject → β)
    (hφ : ∀ w position last scheduled, φ { w with
      virtualPosition := position, virtualLastUpdate := last
      virtualScheduledTime := scheduled } = φ w)
    {now now' : Nat} {passed : List WitnessObject}
    (h : db.updateVirtualSchedule now passed = .ok (now', db')) :
    db'.witnesses.image φ = db.witnesses.image φ := by
  rcases updateVirtualSchedule_cases h with ⟨-, -, hw⟩ | ⟨-, -, hw⟩
  · rw [hw]
    simp only [Table.image, Table.map, List.map_map]
    have hrows : db.witnesses.rows.map (φ ∘ restart) = db.witnesses.rows.map φ :=
      List.map_congr_left fun w _ => hφ w 0 0 w.lap
    rw [hrows]
  · rw [hw]
    exact image_foldl_update φ (startLap now) (fun _ _ => hφ _ _ _ _) _ _

theorem updateMedianWitnessProps_keeps (h : db.updateMedianWitnessProps = .ok db') :
    db'.witnesses = db.witnesses ∧
      db'.witnessSchedule.currentShuffledWitnesses = db.witnessSchedule.currentShuffledWitnesses ∧
      db'.witnessSchedule.numScheduledWitnesses = db.witnessSchedule.numScheduledWitnesses ∧
      db'.witnessSchedule.currentVirtualTime = db.witnessSchedule.currentVirtualTime := by
  simp only [updateMedianWitnessProps, bind_eq_ok, pure_eq_ok] at h
  obtain ⟨scheduled, -, rfl⟩ := h
  exact ⟨rfl, rfl, rfl, rfl⟩

theorem countHardforkVotes_witnesses (db : Db) (scheduled : List WitnessObject) :
    (db.countHardforkVotes scheduled).witnesses = db.witnesses := by
  simp only [countHardforkVotes]
  split
  · rfl
  · rfl

/-- The walk along the virtual schedule. -/
def passedOf (db : Db) : List WitnessObject :=
  passedWitnesses (db.topWitnesses.map (·.id)) (orderBy scheduledBefore db.witnesses.rows)
    db.topWitnesses.length

def supportOf (db : Db) : List WitnessObject :=
  db.passedOf.filter (supports (db.topWitnesses.map (·.id)))

/-- The time that the walk reaches. -/
def newVirtualTime (db : Db) : Nat :=
  (db.passedOf.getLast?.map (·.virtualScheduledTime)).getD db.witnessSchedule.currentVirtualTime

/-- The parts of `scheduleWitnesses` that matter for the seats. -/
theorem scheduleWitnesses_parts (h : db.scheduleWitnesses = .ok db') :
    ∃ db₁ db₂ db₃ now, db.expirePenalties = .ok db₁ ∧
      db₂ = db₁.supportOf.foldl (setSchedule .support)
        (db₁.topWitnesses.foldl (setSchedule .top) db₁) ∧
      db₂.updateVirtualSchedule db₁.newVirtualTime db₁.passedOf = .ok (now, db₃) ∧
      db'.witnesses = db₃.witnesses ∧
      db'.witnessSchedule.currentVirtualTime = now ∧
      db'.witnessSchedule.currentShuffledWitnesses =
        interleave (db₁.topWitnesses.map (·.owner)) (db₁.supportOf.map (·.owner)) ++
          List.replicate (maxWitnesses - (db₁.topWitnesses.length + db₁.supportOf.length)) "" ∧
      db'.witnessSchedule.numScheduledWitnesses =
        max (db₁.topWitnesses.length + db₁.supportOf.length) 1 := by
  simp only [scheduleWitnesses, bind_eq_ok] at h
  obtain ⟨db₁, hpenalties, ⟨now, db₃⟩, hvirtual, h⟩ := h
  simp only at h
  obtain ⟨_, -, scheduled, -, hmedian⟩ := h
  obtain ⟨hwitnesses, hnames, hnum, htime⟩ := updateMedianWitnessProps_keeps hmedian
  have hlen := interleave_length (db₁.topWitnesses.map (·.owner)) (db₁.supportOf.map (·.owner))
  rw [List.length_map, List.length_map] at hlen
  refine ⟨db₁, _, db₃, now, hpenalties, rfl, hvirtual, ?_, htime, ?_, ?_⟩
  · exact hwitnesses.trans (countHardforkVotes_witnesses db₃ scheduled)
  · rw [hnames, ← hlen]
    rfl
  · rw [hnum, ← hlen]
    rfl

/-! ## The selection of the code -/

theorem topWitnesses_mem {w : WitnessObject} (hw : w ∈ db.topWitnesses) :
    w ∈ db.witnesses.rows := by
  have hmem := List.mem_of_mem_filter (List.mem_of_mem_take hw)
  rwa [mem_orderBy] at hmem

theorem topWitnesses_length (db : Db) : db.topWitnesses.length ≤ maxTopWitnesses :=
  List.length_take_le _ _

theorem topWitnesses_lt (db : Db) : db.topWitnesses.length < maxWitnesses :=
  Nat.lt_of_le_of_lt db.topWitnesses_length (by decide)

theorem supportOf_eq (db : Db) : db.supportOf =
    ((orderBy scheduledBefore db.witnesses.rows).filter
      (supports (db.topWitnesses.map (·.id)))).take (maxWitnesses - db.topWitnesses.length) := by
  rw [supportOf, passedOf, passedWitnesses_eq_upTo, filter_upTo]

theorem supportOf_first (h : db.Panel) :
    FirstOf scheduledBefore (fun w => db.Eligible w ∧ w ∉ db.topWitnesses)
      (maxWitnesses - db.topWitnesses.length) db.supportOf := by
  rw [supportOf_eq]
  exact support_first h fun w => topWitnesses_mem

theorem mem_passedOf (h : db.Panel) (w : WitnessObject) :
    w ∈ db.passedOf ↔ db.Passed db.topWitnesses db.supportOf w :=
  mem_passedWitnesses h db.topWitnesses_lt db.supportOf_eq w

theorem topWitnesses_ne_nil (h : db.Panel) (hkey : ∃ w ∈ db.witnesses.rows, w.signingKey ≠ 0) :
    db.topWitnesses ≠ [] := by
  intro hnil
  obtain ⟨w, hw⟩ := hkey
  have hfirst := topWitnesses_first h
  rw [hnil] at hfirst
  exact absurd (hfirst.rest (by decide) w hw) List.not_mem_nil

/-- The witnesses of a round are different. -/
theorem selected_nodup (h : db.Panel) :
    (db.topWitnesses.map (·.owner) ++ db.supportOf.map (·.owner)).Nodup := by
  have htop := topWitnesses_first h
  have hsupport := supportOf_first h
  have hinj {v w : WitnessObject} (hv : db.Eligible v) (hw : db.Eligible w)
      (heq : v.owner = w.owner) : v = w := eq_of_keyed h.owners hv.1 hw.1 heq
  rw [List.nodup_append]
  refine ⟨?_, ?_, ?_⟩
  · exact (htop.nodup (orders_countedBefore h.owners).asymm).map_on fun v hv w hw heq =>
      hinj (htop.sound v hv) (htop.sound w hw) heq
  · exact (hsupport.nodup (orders_scheduledBefore h.ids).asymm).map_on fun v hv w hw heq =>
      hinj (hsupport.sound v hv).1 (hsupport.sound w hw).1 heq
  · intro a ha b hb heq
    obtain ⟨v, hv, rfl⟩ := List.mem_map.1 ha
    obtain ⟨w, hw, rfl⟩ := List.mem_map.1 hb
    have hvw := hinj (htop.sound v hv) (hsupport.sound w hw).1 heq
    exact (hsupport.sound w hw).2 (hvw ▸ hv)

/-! ## What the code does -/

theorem setSchedules_image {β : Type} (φ : WitnessObject → β)
    (hφ : ∀ w kind, φ { w with schedule := kind } = φ w) (db : Db)
    (top support : List WitnessObject) :
    (support.foldl (setSchedule .support) (top.foldl (setSchedule .top) db)).witnesses.image φ =
      db.witnesses.image φ := by
  rw [setSchedule_image φ .support fun w => hφ w _, setSchedule_image φ .top fun w => hφ w _]

/-- **Seats**: the code selects and seats the witnesses as a round should. -/
theorem scheduleWitnesses_round (hpanel : db.Panel)
    (hkey : ∃ w ∈ db.witnesses.rows, w.signingKey ≠ 0) (h : db.scheduleWitnesses = .ok db')
    {db₁ : Db} (hpenalties : db.expirePenalties = .ok db₁) :
    Round db₁ db' db₁.topWitnesses db₁.supportOf := by
  obtain ⟨_, db₂, db₃, now, hpen, hdb₂, hvirtual, hwitnesses, -, hseats, hnum⟩ :=
    scheduleWitnesses_parts h
  cases hpenalties.symm.trans hpen
  have hpanel₁ := expirePenalties_panel hpanel hpenalties
  have hne := topWitnesses_ne_nil hpanel₁ (expirePenalties_key hkey hpenalties)
  have hpos := List.length_pos_of_ne_nil hne
  have htop := topWitnesses_first hpanel₁
  have hsupport := supportOf_first hpanel₁
  have hroom := hsupport.atMost
  have hlt := db₁.topWitnesses_lt
  have hlen := interleave_length (db₁.topWitnesses.map (·.owner)) (db₁.supportOf.map (·.owner))
  rw [List.length_map, List.length_map] at hlen
  generalize hn : interleave (db₁.topWitnesses.map (·.owner)) (db₁.supportOf.map (·.owner)) = names
    at hseats hlen
  rw [Nat.max_eq_left (by omega)] at hnum
  have hnames : db'.scheduledNames = names := by
    rw [scheduledNames, hseats, hnum, ← hlen, List.take_left]
  have hbadges : db'.witnesses.image (·.badge) = db₁.witnesses.image (·.badge) := by
    rw [hwitnesses, updateVirtualSchedule_image WitnessObject.badge (fun _ _ _ _ => rfl) hvirtual,
      hdb₂]
    exact setSchedules_image _ (fun _ _ => rfl) _ _ _
  have hfront {i : Nat} (hi : i < names.length) :
      db'.witnessSchedule.currentShuffledWitnesses[i]? = names[i]? := by
    rw [hseats, List.getElem?_append_left hi]
  refine ⟨htop, hsupport, hnum, ?_, ?_, ?_, ?_, ?_, hbadges, ?_, ?_⟩
  · rw [hseats, List.length_append, List.length_replicate]
    omega
  · intro i hi hi'
    have hturns := interleave_turns (db₁.topWitnesses.map (·.owner)) (db₁.supportOf.map (·.owner))
      i (by rwa [List.length_map]) (by rwa [List.length_map])
    rw [hn, List.getElem?_map, List.getElem?_map] at hturns
    rw [hfront (by omega), hfront (by omega)]
    exact hturns
  · intro i hi hi'
    have hrest := interleave_topRest (db₁.topWitnesses.map (·.owner))
      (db₁.supportOf.map (·.owner)) i (by rwa [List.length_map])
    rw [hn, List.length_map, List.getElem?_map] at hrest
    rw [hfront (by omega)]
    exact hrest
  · intro i hi hi'
    have hrest := interleave_supportRest (db₁.topWitnesses.map (·.owner))
      (db₁.supportOf.map (·.owner)) i (by rwa [List.length_map])
    rw [hn, List.length_map, List.getElem?_map] at hrest
    rw [hfront (by omega)]
    exact hrest
  · intro i hi hi'
    rw [hnum] at hi
    rw [hseats, List.getElem?_append_right (by omega), List.getElem?_replicate, if_pos (by omega)]
  · rw [hnames, ← hn]
    exact (interleave_perm _ _).nodup_iff.2 (selected_nodup hpanel₁)
  · intro name hname
    rw [hnames, ← hn, (interleave_perm _ _).mem_iff, ← List.map_append] at hname
    obtain ⟨w, hw, rfl⟩ := List.mem_map.1 hname
    have heligible : db₁.Eligible w := by
      rcases List.mem_append.1 hw with hw | hw
      · exact htop.sound w hw
      · exact (hsupport.sound w hw).1
    have hfound : db₁.witnesses.get (·.owner) w.owner = some w := hpanel₁.owners.get heligible.1
    have heq := get_map_of_image (fun b => b.2.1) (fun _ => rfl) hbadges w.owner
    rw [hfound, Option.map_some] at heq
    obtain ⟨w', hw', hbadge⟩ := Option.map_eq_some_iff.1 heq
    refine ⟨w', hw', ?_⟩
    have hsign : w'.signingKey = w.signingKey := congrArg (fun b => b.2.2.1) hbadge
    rw [hsign]
    exact heligible.2

/-! ### Virtual time -/

theorem passedOf_ne_nil (h : db.Panel) (hrows : ∃ w, w ∈ db.witnesses.rows) :
    db.passedOf ≠ [] := by
  intro hnil
  have hmem (w : WitnessObject) : ¬ db.Passed db.topWitnesses db.supportOf w := by
    rw [← mem_passedOf h, hnil]
    exact List.not_mem_nil
  obtain ⟨w, hw⟩ := hrows
  by_cases hroom : db.topWitnesses.length + db.supportOf.length < maxWitnesses
  · exact hmem w ⟨hw, .inl hroom⟩
  · have hlt := db.topWitnesses_lt
    cases hsupport : db.supportOf with
    | nil =>
      rw [hsupport, List.length_nil] at hroom
      omega
    | cons s rest =>
      have hs : s ∈ db.supportOf := by
        rw [hsupport]
        exact List.mem_cons_self
      exact hmem s ⟨((supportOf_first h).sound s hs).1.1, .inr ⟨s, hs, .inl rfl⟩⟩

/-- The walk reaches the latest time among those that it passes. -/
theorem newVirtualTime_spec (h : db.Panel) (hne : db.passedOf ≠ []) :
    (∃ w ∈ db.passedOf, w.virtualScheduledTime = db.newVirtualTime) ∧
      ∀ w ∈ db.passedOf, w.virtualScheduledTime ≤ db.newVirtualTime := by
  obtain ⟨init, last, hlast⟩ : ∃ init last, db.passedOf = init ++ [last] :=
    ⟨_, _, (List.dropLast_append_getLast hne).symm⟩
  have htime : db.newVirtualTime = last.virtualScheduledTime := by
    rw [newVirtualTime, hlast, List.getLast?_concat]
    rfl
  have horder := orderBy_pairwise (orders_scheduledBefore h.ids) h.rows_nodup
  obtain ⟨rest, hrest⟩ := upTo_append (supports (db.topWitnesses.map (·.id)))
    (maxWitnesses - db.topWitnesses.length) (orderBy scheduledBefore db.witnesses.rows)
  rw [← passedWitnesses_eq_upTo] at hrest
  have hpassed : orderBy scheduledBefore db.witnesses.rows = db.passedOf ++ rest := hrest
  rw [hpassed, hlast] at horder
  have hpair := (List.pairwise_append.1 (List.pairwise_append.1 horder).1).2.2
  rw [htime, hlast]
  refine ⟨⟨last, by simp, rfl⟩, fun w hw => ?_⟩
  rcases List.mem_append.1 hw with hw | hw
  · have hbefore := hpair w hw last List.mem_cons_self
    rw [scheduledBefore_iff] at hbefore
    omega
  · rw [List.mem_singleton.1 hw]

theorem passedOf_owners (h : db.Panel) : (db.passedOf.map (·.owner)).Nodup := by
  obtain ⟨rest, hrest⟩ := upTo_append (supports (db.topWitnesses.map (·.id)))
    (maxWitnesses - db.topWitnesses.length) (orderBy scheduledBefore db.witnesses.rows)
  rw [← passedWitnesses_eq_upTo] at hrest
  have hperm := orderBy_perm scheduledBefore db.witnesses.rows
  rw [hrest] at hperm
  have hnodup := (hperm.map WitnessObject.owner).nodup_iff.2 h.owners
  rw [List.map_append, List.nodup_append] at hnodup
  exact hnodup.1

theorem lap_lt (w : WitnessObject) : w.lap < 2 ^ 128 := by
  have hle : w.lap ≤ virtualScheduleLapLength := Nat.div_le_self _ _
  have hlength : virtualScheduleLapLength < 2 ^ 128 := by decide
  omega

/-- A witness of the table is still found once the round is marked. -/
theorem setSchedules_found (h : db.Panel) (top support : List WitnessObject) {w : WitnessObject}
    (hw : w ∈ db.witnesses.rows) :
    ∃ x, (support.foldl (setSchedule .support) (top.foldl (setSchedule .top) db)).witnesses.get
      (·.owner) w.owner = some x ∧ x.clock = w.clock ∧ x.lap = w.lap := by
  have hclock := setSchedules_image (fun w => (w.owner, w.clock, w.lap)) (fun _ _ => rfl) db top
    support
  have hget : db.witnesses.get (·.owner) w.owner = some w := h.owners.get hw
  have heq := get_map_of_image (fun b => b.1) (fun _ => rfl) hclock w.owner
  rw [hget, Option.map_some] at heq
  obtain ⟨x, hx, hxw⟩ := Option.map_eq_some_iff.1 heq
  exact ⟨x, hx, congrArg (fun b => b.2.1) hxw, congrArg (fun b => b.2.2) hxw⟩

/-- Laps that start at `now`, read back. -/
theorem clock_foldl_startLap {now : Nat} {passed : List WitnessObject} {t : Table WitnessObject}
    (hnodup : (passed.map (·.owner)).Nodup) {w x : WitnessObject} (hw : w ∈ passed)
    (hx : t.get (·.owner) w.owner = some x) (hfits : now + w.lap < 2 ^ 128) :
    ((passed.foldl (fun t w => t.update (·.owner) w.owner (startLap now w)) t).get
      (·.owner) w.owner).map (·.clock) = some (now, 0, now + w.lap) := by
  have hget := Table.get_foldl_update (·.owner) (·.owner) (startLap now) (fun _ _ => rfl) hnodup t
    hw
  rw [hget, hx, Option.map_some, Option.map_some]
  simp only [startLap, WitnessObject.clock, Nat.mod_eq_of_lt hfits]

theorem clock_map_restart {t : Table WitnessObject} {name : AccountName} {x : WitnessObject}
    (hx : t.get (·.owner) name = some x) :
    ((t.map restart).get (·.owner) name).map (·.clock) = some (0, 0, x.lap) := by
  have hget : (t.map restart).get (·.owner) name = (t.get (·.owner) name).map restart :=
    Table.get_image t restart (·.owner) name
  rw [hget, hx]
  rfl

/-- **Virtual time**: everyone passed advances to the same time, or all times start anew. -/
theorem scheduleWitnesses_virtualTime (hpanel : db.Panel)
    (h : db.scheduleWitnesses = .ok db') {db₁ : Db} (hpenalties : db.expirePenalties = .ok db₁)
    (hrows : ∃ w, w ∈ db₁.witnesses.rows) :
    db₁.VirtualTime db' db₁.topWitnesses db₁.supportOf := by
  obtain ⟨_, db₂, db₃, now, hpen, hdb₂, hvirtual, hwitnesses, hcurrent, -, -⟩ :=
    scheduleWitnesses_parts h
  cases hpenalties.symm.trans hpen
  have hpanel₁ := expirePenalties_panel hpanel hpenalties
  have hne := passedOf_ne_nil hpanel₁ hrows
  obtain ⟨⟨last, hlast, htime⟩, hlatest⟩ := newVirtualTime_spec hpanel₁ hne
  have hpassed := mem_passedOf hpanel₁
  have hbound : db₁.newVirtualTime < 2 ^ 128 := by
    rw [← htime]
    exact hpanel₁.times last ((hpassed last).1 hlast).1
  have hfound {w : WitnessObject} (hw : w ∈ db₁.witnesses.rows) :
      ∃ x, db₂.witnesses.get (·.owner) w.owner = some x ∧ x.clock = w.clock ∧ x.lap = w.lap := by
    rw [hdb₂]
    exact setSchedules_found hpanel₁ _ _ hw
  refine ⟨db₁.newVirtualTime, ⟨last, (hpassed last).1 hlast, htime⟩,
    fun w hw => hlatest w ((hpassed w).2 hw), fun hfits => ?_, fun hover => ?_⟩
  · rcases updateVirtualSchedule_cases hvirtual with ⟨⟨w, hw, hlt⟩, -, -⟩ | ⟨-, hnow, hw₃⟩
    · exfalso
      rw [Nat.mod_eq_of_lt (hfits w ((hpassed w).1 hw))] at hlt
      omega
    · refine ⟨hcurrent.trans hnow, fun w hw => ?_, fun w hw hnot => ?_⟩
      · obtain ⟨x, hx, -, -⟩ := hfound hw.1
        rw [findWitness, hwitnesses, hw₃]
        exact clock_foldl_startLap (passedOf_owners hpanel₁) ((hpassed w).2 hw) hx (hfits w hw)
      · obtain ⟨x, hx, hxw, -⟩ := hfound hw
        have hother : ∀ v ∈ db₁.passedOf, w.owner ≠ v.owner := by
          intro v hv heq
          have hvw := eq_of_keyed hpanel₁.owners hw ((hpassed v).1 hv).1 heq
          exact hnot ((hpassed w).1 (hvw ▸ hv))
        rw [findWitness, hwitnesses, hw₃, Table.get_foldl_update_ne (·.owner) (·.owner)
          (startLap db₁.newVirtualTime) (fun _ _ => rfl) hother, hx, Option.map_some, hxw]
  · obtain ⟨w, hw, hle⟩ := hover
    have hlap := lap_lt w
    rcases updateVirtualSchedule_cases hvirtual with ⟨-, hnow, hw₃⟩ | ⟨hall, -, -⟩
    · refine ⟨hcurrent.trans hnow, fun v hv => ?_⟩
      obtain ⟨x, hx, -, hxv⟩ := hfound hv
      rw [findWitness, hwitnesses, hw₃, ← hxv]
      exact clock_map_restart hx
    · exfalso
      have hge := hall w ((hpassed w).2 hw)
      rw [Nat.mod_eq_sub_mod hle, Nat.mod_eq_of_lt (by omega)] at hge
      omega

/-! ### The step returns -/

/-- Votes and counted votes are counts of shares. -/
def Counted (db : Db) : Prop :=
  ∀ w ∈ db.witnesses.rows,
    (0 ≤ w.votes ∧ w.votes < 2 ^ 63) ∧ 0 ≤ w.countedVotes ∧ w.countedVotes < 2 ^ 63

/-- The names that the step looks up are names of witnesses. -/
structure Schedulable (db : Db) : Prop where
  counted : db.Counted
  penalties : ∀ p ∈ db.witnessPenaltyExpires.rows, ∃ w, db.findWitness p.witness = some w
  names : ∀ name ∈ db.scheduledNames, ∃ w, db.findWitness name = some w

/-- Both tables know the same names. -/
theorem found_of_image {β : Type} {t t' : Table WitnessObject} {φ : WitnessObject → β}
    (key : β → AccountName) (hkey : ∀ w, key (φ w) = w.owner) (h : t'.image φ = t.image φ)
    {name : AccountName} (hfound : ∃ w, t.get (·.owner) name = some w) :
    ∃ w, t'.get (·.owner) name = some w := by
  obtain ⟨w, hw⟩ := hfound
  have heq := get_map_of_image key hkey h name
  rw [hw, Option.map_some] at heq
  obtain ⟨x, hx, -⟩ := Option.map_eq_some_iff.1 heq
  exact ⟨x, hx⟩

theorem expirePenalties_returns (h : db.Schedulable) : ∃ db', db.expirePenalties = .ok db' ∧
    db'.Counted ∧ db'.witnessSchedule = db.witnessSchedule := by
  have hrun := exists_foldlM_eq_ok
    (fun s : Db => (s.Counted ∧ s.witnessSchedule = db.witnessSchedule) ∧
      s.witnesses.image withoutPenalty = db.witnesses.image withoutPenalty)
    expirePenalty
    ((orderBy (fun p q : WitnessPenaltyExpireObject => p.expires < q.expires)
      db.witnessPenaltyExpires.rows).filter fun p => p.expires ≤ db.headBlockTime)
    (fun p hp s hs => ?_) db ⟨⟨h.counted, rfl⟩, rfl⟩
  · obtain ⟨db', hrun, hkept, -⟩ := hrun
    exact ⟨db', hrun, hkept⟩
  · have hp' : p ∈ db.witnessPenaltyExpires.rows := by
      simpa using (List.mem_filter.1 hp).1
    obtain ⟨w, hw⟩ := found_of_image (·.owner) (fun _ => rfl) hs.2 (h.penalties p hp')
    have hw' := hs.1.1 w (Table.get_mem hw)
    obtain ⟨counted, hcounted, hrange⟩ := countedVotesOf_returns hw'.1.1 hw'.1.2
      ((w.penaltyPercent - p.penaltyPercent : Int) % 2 ^ 32).toNat
    obtain ⟨s', hs'⟩ : ∃ s', s.expirePenalty p = .ok s' := by
      simp only [expirePenalty, getWitness, findWitness, bind_eq_ok, getOrThrow_eq_ok, pure_eq_ok]
      exact ⟨_, w, hw, counted, hcounted, rfl⟩
    have himage := (expirePenalty_witnesses hs').trans hs.2
    refine ⟨s', hs', ?_⟩
    simp only [expirePenalty, getWitness, findWitness, bind_eq_ok, getOrThrow_eq_ok,
      pure_eq_ok] at hs'
    obtain ⟨v, hv, c, hc, rfl⟩ := hs'
    cases hw.symm.trans hv
    cases hcounted.symm.trans hc
    refine ⟨⟨fun x hx => ?_, hs.1.2⟩, himage⟩
    rcases Table.mem_update hx with hx | ⟨y, hy, rfl⟩
    · exact hs.1.1 x hx
    · exact ⟨(hs.1.1 y (Table.get_mem hy)).1, hrange⟩

/-- A lap has a length when the votes are a count of shares. -/
theorem lap_returns {w : WitnessObject} (h : 0 ≤ w.countedVotes) (h' : w.countedVotes < 2 ^ 63) :
    divUint128 virtualScheduleLapLength (toUint128 (wrapInt64 (w.countedVotes + 1))) =
      .ok w.lap := by
  have hne : toUint128 (wrapInt64 (w.countedVotes + 1)) ≠ 0 := by
    simp only [toUint128, wrapInt64, Int.bmod]
    omega
  rw [divUint128, bind_eq_ok]
  exact ⟨(), (require_eq_ok _ _ _).2 hne, rfl⟩

theorem updateVirtualSchedule_returns (now : Nat) {passed : List WitnessObject}
    (hpassed : ∀ w ∈ passed, 0 ≤ w.countedVotes ∧ w.countedVotes < 2 ^ 63)
    (hall : ∀ w ∈ db.witnesses.rows, 0 ≤ w.countedVotes ∧ w.countedVotes < 2 ^ 63) :
    ∃ now' db', db.updateVirtualSchedule now passed = .ok (now', db') ∧
      db'.scheduledNames = db.scheduledNames := by
  obtain ⟨times, htimes⟩ : ∃ times, passed.mapM (nextVirtualTime now) = .ok times := by
    refine exists_mapM_eq_ok fun w hw => ⟨(now + w.lap) % 2 ^ 128, ?_⟩
    rw [nextVirtualTime, bind_eq_ok]
    exact ⟨w.lap, lap_returns (hpassed w hw).1 (hpassed w hw).2, rfl⟩
  obtain ⟨rows, hrows⟩ : ∃ rows, db.witnesses.rows.mapM resetVirtualTime = .ok rows := by
    refine exists_mapM_eq_ok fun w hw => ⟨restart w, ?_⟩
    rw [resetVirtualTime, bind_eq_ok]
    exact ⟨w.lap, lap_returns (hall w hw).1 (hall w hw).2, rfl⟩
  by_cases hover : times.any (· < now) = true
  · refine ⟨0, { db with
      witnessSchedule := { db.witnessSchedule with currentVirtualTime := 0 }
      witnesses := { db.witnesses with rows := rows } }, ?_, rfl⟩
    simp only [updateVirtualSchedule, bind_eq_ok]
    refine ⟨times, htimes, ?_⟩
    rw [if_pos hover]
    simp only [resetVirtualScheduleTime, bind_eq_ok, pure_eq_ok]
    exact ⟨_, ⟨rows, hrows, rfl⟩, rfl⟩
  · refine ⟨now, (passed.zip times).foldl (setVirtualTime now) db, ?_, ?_⟩
    · simp only [updateVirtualSchedule, bind_eq_ok]
      refine ⟨times, htimes, ?_⟩
      rw [if_neg hover]
      rfl
    · have hfold (l : List (WitnessObject × Nat)) (db : Db) :
          (l.foldl (setVirtualTime now) db).witnessSchedule = db.witnessSchedule := by
        induction l generalizing db with
        | nil => rfl
        | cons w l ih =>
          rw [List.foldl_cons, ih]
          rfl
      rw [scheduledNames, hfold]
      rfl

theorem setSchedule_foldl_schedule (kind : WitnessScheduleType) (l : List WitnessObject) (db : Db) :
    (l.foldl (setSchedule kind) db).witnessSchedule = db.witnessSchedule := by
  induction l generalizing db with
  | nil => rfl
  | cons w l ih =>
    rw [List.foldl_cons, ih]
    rfl

theorem mapM_getWitness_returns {names : List AccountName}
    (h : ∀ name ∈ names, ∃ w, db.findWitness name = some w) :
    ∃ l, names.mapM db.getWitness = .ok l := by
  refine exists_mapM_eq_ok fun name hname => ?_
  obtain ⟨w, hw⟩ := h name hname
  exact ⟨w, (getOrThrow_eq_ok _ _ _).2 hw⟩

/-- The names of a new schedule are names of witnesses. -/
theorem setScheduledWitnesses_known (h : db.Panel)
    (hkey : ∃ w ∈ db.witnesses.rows, w.signingKey ≠ 0) (db₁ : Db) (now : Nat)
    (majority : Version) :
    ∀ name ∈ (db₁.setScheduledWitnesses (interleave (db.topWitnesses.map (·.owner))
        (db.supportOf.map (·.owner))) now majority).scheduledNames,
      ∃ w ∈ db.witnesses.rows, w.owner = name := by
  have hlen := interleave_length (db.topWitnesses.map (·.owner)) (db.supportOf.map (·.owner))
  have hpos := List.length_pos_of_ne_nil (topWitnesses_ne_nil h hkey)
  rw [List.length_map, List.length_map] at hlen
  intro name hname
  rw [scheduledNames, setScheduledWitnesses] at hname
  simp only at hname
  rw [Nat.max_eq_left (by omega), List.take_left, (interleave_perm _ _).mem_iff,
    ← List.map_append] at hname
  obtain ⟨w, hw, rfl⟩ := List.mem_map.1 hname
  refine ⟨w, ?_, rfl⟩
  rcases List.mem_append.1 hw with hw | hw
  · exact topWitnesses_mem hw
  · exact ((supportOf_first h).sound w hw).1.1

/-- **The step returns**: with its names resolved and its votes counts of shares. -/
theorem scheduleWitnesses_returns (hpanel : db.Panel)
    (hkey : ∃ w ∈ db.witnesses.rows, w.signingKey ≠ 0) (h : db.Schedulable) :
    ∃ db', db.scheduleWitnesses = .ok db' := by
  obtain ⟨db₁, hpenalties, hcounted, hschedule⟩ := expirePenalties_returns h
  have hpanel₁ := expirePenalties_panel hpanel hpenalties
  generalize hdb₂ : db₁.supportOf.foldl (setSchedule .support)
    (db₁.topWitnesses.foldl (setSchedule .top) db₁) = db₂
  have hbadges : db₂.witnesses.image (·.badge) = db₁.witnesses.image (·.badge) := by
    rw [← hdb₂]
    exact setSchedules_image _ (fun _ _ => rfl) _ _ _
  have hschedule₂ : db₂.witnessSchedule = db.witnessSchedule := by
    rw [← hdb₂, setSchedule_foldl_schedule, setSchedule_foldl_schedule, hschedule]
  have hall : ∀ w ∈ db₂.witnesses.rows, 0 ≤ w.countedVotes ∧ w.countedVotes < 2 ^ 63 := by
    intro w hw
    have hvotes := rows_map_of_image hbadges (fun b => b.2.2.2)
    have hmem : w.countedVotes ∈ db₂.witnesses.rows.map fun w => w.badge.2.2.2 :=
      List.mem_map_of_mem hw
    rw [hvotes] at hmem
    obtain ⟨v, hv, heq⟩ := List.mem_map.1 hmem
    rw [← heq]
    exact (hcounted v hv).2
  obtain ⟨now, db₃, hvirtual, hnames₃⟩ := updateVirtualSchedule_returns db₁.newVirtualTime
    (fun w hw => (hcounted w ((mem_passedOf hpanel₁ w).1 hw).1).2) hall
  have hbadges₃ : db₃.witnesses.image (·.badge) = db₁.witnesses.image (·.badge) :=
    (updateVirtualSchedule_image WitnessObject.badge (fun _ _ _ _ => rfl) hvirtual).trans hbadges
  obtain ⟨scheduled, hscheduled⟩ : ∃ l, db₃.scheduledNames.mapM db₃.getWitness = .ok l := by
    refine mapM_getWitness_returns fun name hname => ?_
    rw [hnames₃, scheduledNames, hschedule₂] at hname
    refine found_of_image (fun b => b.2.1) (fun _ => rfl) hbadges₃ ?_
    exact found_of_image (·.owner) (fun _ => rfl) (expirePenalties_witnesses hpenalties)
      (h.names name hname)
  generalize hdb₅ : (db₃.countHardforkVotes scheduled).setScheduledWitnesses
    (interleave (db₁.topWitnesses.map (·.owner)) (db₁.supportOf.map (·.owner))) now
    (db₃.majorityVersion scheduled) = db₅
  have hwitnesses : db₅.witnesses = db₃.witnesses := by
    rw [← hdb₅]
    exact countHardforkVotes_witnesses db₃ scheduled
  have hnames : ∀ name ∈ db₅.scheduledNames, ∃ w ∈ db₁.witnesses.rows, w.owner = name := by
    rw [← hdb₅]
    exact setScheduledWitnesses_known hpanel₁ (expirePenalties_key hkey hpenalties) _ _ _
  obtain ⟨members, hmembers⟩ : ∃ l, db₅.scheduledNames.mapM db₅.getWitness = .ok l := by
    refine mapM_getWitness_returns fun name hname => ?_
    obtain ⟨w, hw, rfl⟩ := hnames name hname
    rw [findWitness, hwitnesses]
    exact found_of_image (fun b => b.2.1) (fun _ => rfl) hbadges₃ ⟨w, hpanel₁.owners.get hw⟩
  have hsize : db₁.topWitnesses.length + db₁.supportOf.length ≤ maxWitnesses := by
    have hlt := db₁.topWitnesses_lt
    have hroom := (supportOf_first hpanel₁).atMost
    omega
  refine ⟨{ db₅ with witnessSchedule := { db₅.witnessSchedule with
      medianProps := medianPropsOf members } }.modifyDgp fun p =>
        { p with maximumBlockSize := (medianPropsOf members).maximumBlockSize }, ?_⟩
  simp only [scheduleWitnesses, bind_eq_ok]
  refine ⟨db₁, hpenalties, (now, db₃), ?_, (), ?_, scheduled, hscheduled, ?_⟩
  · rw [← hdb₂] at hvirtual
    exact hvirtual
  · exact (fcAssert_eq_ok _ _ _).2 hsize
  · subst hdb₅
    simp only [updateMedianWitnessProps, bind_eq_ok, pure_eq_ok]
    exact ⟨members, hmembers, rfl⟩

/-- **Rounds**: at a block whose number is divisible by 21 the step returns when its names
are resolved; whenever it returns, the witnesses of the round are selected, seated and moved
in virtual time as they stand once the expired penalties are lifted. -/
theorem updateWitnessSchedule_round (hpanel : db.Panel)
    (hkey : ∃ w ∈ db.witnesses.rows, w.signingKey ≠ 0)
    (hround : db.headBlockNum % maxWitnesses = 0) :
    (db.Schedulable → ∃ db', db.updateWitnessSchedule = .ok db') ∧
    ∀ db', db.updateWitnessSchedule = .ok db' →
      ∃ db₁, db.expirePenalties = .ok db₁ ∧
        db₁.witnesses.image withoutPenalty = db.witnesses.image withoutPenalty ∧
        ∃ top support, Round db₁ db' top support ∧ db₁.VirtualTime db' top support := by
  rw [updateWitnessSchedule, if_pos hround]
  refine ⟨scheduleWitnesses_returns hpanel hkey, fun db' h => ?_⟩
  obtain ⟨db₁, _, _, _, hpenalties, -⟩ := scheduleWitnesses_parts h
  have hrows : ∃ w, w ∈ db₁.witnesses.rows := by
    obtain ⟨w, hw, -⟩ := expirePenalties_key hkey hpenalties
    exact ⟨w, hw⟩
  exact ⟨db₁, hpenalties, expirePenalties_witnesses hpenalties, db₁.topWitnesses, db₁.supportOf,
    scheduleWitnesses_round hpanel hkey h hpenalties,
    scheduleWitnesses_virtualTime hpanel h hpenalties hrows⟩

def witnessNames : List AccountName :=
  ["alice", "bob", "carol", "dave", "erin", "frank", "grace", "heidi", "ivan", "judy", "kim", "leo",
    "mike", "nina", "olaf"]

/-- Witnesses with fewer and fewer votes at block 21; bob does not sign and alice has an expired
penalty. -/
def manyWitnesses : Db where
  dgp := { headBlockNumber := 21, time := 100 }
  witnesses :=
    { rows := witnessNames.zipIdx.map fun (name, k) =>
        { id := k, owner := name, votes := 50 - k
          signingKey := if name = "bob" then 0 else k + 1
          penaltyPercent := if name = "alice" then 5000 else 0
          countedVotes := if name = "alice" then 25 else 50 - k }
      nextId := 15 }
  witnessSchedule := { currentShuffledWitnesses := ["alice"] }
  witnessPenaltyExpires := { rows := [⟨0, "alice", 5000, 90⟩], nextId := 1 }

/-- Three support witnesses sit between the first of the eleven top witnesses. -/
theorem updateWitnessSchedule_round_many :
    ∃ db', manyWitnesses.updateWitnessSchedule = .ok db' ∧
      db'.scheduledNames.take 7 = ["alice", "mike", "carol", "nina", "dave", "olaf", "erin"] ∧
      ∃ db₁ top support, Round db₁ db' top support ∧ db₁.VirtualTime db' top support := by
  have hpanel : manyWitnesses.Panel := by
    refine ⟨?_, ?_, ?_⟩
    · show (manyWitnesses.witnesses.rows.map (·.id)).Nodup
      decide +kernel
    · show (manyWitnesses.witnesses.rows.map (·.owner)).Nodup
      decide +kernel
    · decide +kernel
  have hcounted : manyWitnesses.Counted := by
    unfold Counted
    decide +kernel
  have hready : manyWitnesses.Schedulable := by
    refine ⟨hcounted, fun p hp => ?_, fun name hname => ?_⟩
    · cases List.mem_singleton.1 hp
      exact ⟨_, rfl⟩
    · cases List.mem_singleton.1 hname
      exact ⟨_, rfl⟩
  have h := updateWitnessSchedule_round hpanel ⟨_, List.mem_cons_self, by decide⟩ (by decide)
  obtain ⟨db', hrun⟩ := h.1 hready
  have hseats : returns manyWitnesses.updateWitnessSchedule (fun db => decide
      (db.scheduledNames.take 7 = ["alice", "mike", "carol", "nina", "dave", "olaf", "erin"])) =
        true := by
    decide +kernel
  rw [hrun] at hseats
  obtain ⟨db₁, -, -, hspec⟩ := h.2 db' hrun
  exact ⟨db', hrun, of_decide_eq_true hseats, db₁, hspec⟩

end Db

end VizCore.Chain
