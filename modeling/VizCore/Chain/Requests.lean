import VizCore.Chain.Conservation
import VizCore.Chain.Invariant

/-!
# Requests to the committee

A request is voted on until its term ends; then it lapses, is denied or is approved.  An
approved request is paid in parts, as far as the fund reaches.

* `RequestChange`: everything that can happen to a request;
* `committeeProcessing_filings`: a round of the committee is a sequence of such changes, since
  each request that the loops visit is still as they found it;
* `tallyRequest_le`: the weighted votes never exceed the shares of the voters, so that no
  division by zero happens and no negative number is converted;
* `committee_payouts`: the amounts of a request add up along every run.
-/

namespace VizCore.Chain

open VizCore.Lib VizCore.Protocol

/-! ## What can happen to a request -/

/-- The way of a request: 1 is cancelled, 2 lapsed, 3 denied, 4 approved and 5 paid. -/
inductive StatusStep : Nat → Nat → Prop
  | cancel : StatusStep 0 1
  | lapse : StatusStep 0 2
  | deny : StatusStep 0 3
  | approve : StatusStep 0 4
  | paid : StatusStep 4 5

/-- Everything that can happen to a request; where `g` holds, no more than it asks for is
approved. -/
inductive RequestChange (g : Prop) (r : CommitteeRequestObject) : CommitteeRequestObject → Prop
  | vote (n : Nat) : RequestChange g r { r with votesCount := n }
  | cancel (now : TimePointSec) (h : r.status = 0) :
      RequestChange g r { r with status := 1, conclusionTime := now }
  | lapse (now : TimePointSec) (h : r.status = 0) :
      RequestChange g r { r with conclusionTime := now, status := 2 }
  | deny (payment : Int) (now : TimePointSec) (h : r.status = 0) :
      RequestChange g r
        { r with conclusionPayoutAmount := payment, conclusionTime := now, status := 3 }
  | approve (payment : Int) (now : TimePointSec) (h : r.status = 0)
      (hmin : r.requiredAmountMin ≤ payment)
      (hmax : g → 0 ≤ r.requiredAmountMax → payment ≤ r.requiredAmountMax) :
      RequestChange g r
        { r with
          conclusionPayoutAmount := payment, conclusionTime := now
          remainPayoutAmount := payment, status := 4 }
  | pay (x : Int) (now : TimePointSec) (h : r.status = 4) (hle : x ≤ r.remainPayoutAmount)
      (hpos : 0 ≤ r.remainPayoutAmount → 0 ≤ x) :
      RequestChange g r
        { r with
          payoutAmount := r.payoutAmount + x
          remainPayoutAmount := r.remainPayoutAmount - x
          lastPayoutTime := now
          status := if r.remainPayoutAmount - x ≤ 0 then 5 else r.status
          payoutTime := if r.remainPayoutAmount - x ≤ 0 then now else r.payoutTime }

/-- The amounts of a request agree with its status.  An approved request may have nothing left
to pay only when it was approved for nothing. -/
structure CommitteeRequestObject.Accounted (r : CommitteeRequestObject) : Prop where
  asked : 0 ≤ r.requiredAmountMin ∧ 0 ≤ r.requiredAmountMax
  fresh : r.status = 0 → r.payoutAmount = 0
  granted : r.status = 4 ∨ r.status = 5 → 0 ≤ r.payoutAmount ∧
    r.payoutAmount + r.remainPayoutAmount = r.conclusionPayoutAmount ∧
      r.conclusionPayoutAmount ≤ r.requiredAmountMax
  running : r.status = 4 → 0 < r.remainPayoutAmount ∨
    r.remainPayoutAmount = 0 ∧ r.conclusionPayoutAmount = 0
  paid : r.status = 5 → r.remainPayoutAmount = 0

namespace RequestChange

variable {g : Prop} {r r' : CommitteeRequestObject}

theorem id_eq (h : RequestChange g r r') : r'.id = r.id := by
  cases h <;> rfl

theorem status (h : RequestChange g r r') : Relation.ReflTransGen StatusStep r.status r'.status := by
  cases h with
  | vote n => exact .refl
  | cancel now h =>
    rw [h]
    exact .single .cancel
  | lapse now h =>
    rw [h]
    exact .single .lapse
  | deny payment now h =>
    rw [h]
    exact .single .deny
  | approve payment now h hmin hmax =>
    rw [h]
    exact .single .approve
  | pay x now h hle hpos =>
    rw [h]
    show Relation.ReflTransGen StatusStep 4 (if r.remainPayoutAmount - x ≤ 0 then 5 else 4)
    split
    · exact .single .paid
    · exact .refl

theorem accounted (h : RequestChange g r r') (hg : g) (hr : r.Accounted) : r'.Accounted := by
  obtain ⟨hasked, hfresh, hgranted, hrunning, hpaid⟩ := hr
  cases h with
  | vote n => exact ⟨hasked, hfresh, hgranted, hrunning, hpaid⟩
  | cancel now h => constructor <;> simp_all
  | lapse now h => constructor <;> simp_all
  | deny payment now h => constructor <;> simp_all
  | approve payment now h hmin hmax =>
    have hle := hmax hg hasked.2
    have hnonneg : 0 ≤ payment := hasked.1.trans hmin
    refine ⟨hasked, fun h0 => ?_, fun _ => ?_, fun _ => ?_, fun h5 => ?_⟩
    · cases h0
    · simp only [hfresh h, zero_add, le_refl, true_and]
      exact hle
    · simp only
      omega
    · cases h5
  | pay x now h hle hpos =>
    obtain ⟨hpayout, hsum, hmax⟩ := hgranted (.inl h)
    have hremain : 0 ≤ r.remainPayoutAmount := by
      have := hrunning h
      omega
    have hx := hpos hremain
    refine ⟨hasked, fun h0 => ?_, fun _ => ⟨add_nonneg hpayout hx, ?_, hmax⟩, fun h4 => ?_,
      fun h5 => ?_⟩
    · simp only [h] at h0
      split at h0 <;> cases h0
    · simp only
      omega
    · simp only at h4 ⊢
      split at h4
      · cases h4
      · omega
    · simp only [h] at h5 ⊢
      split at h5
      · omega
      · cases h5

end RequestChange

/-! ## The docket -/

/-- A change of the table of requests: one of them changes, a new one is opened, or some that
were not granted are dropped. -/
inductive Filing (g : Prop) (t : Table CommitteeRequestObject) :
    Table CommitteeRequestObject → Prop
  | change (key : CommitteeRequestObject → Nat) (k : Nat)
      (f : CommitteeRequestObject → CommitteeRequestObject) (r : CommitteeRequestObject)
      (hr : t.get key k = some r) (h : RequestChange g r (f r)) : Filing g t (t.update key k f)
  | file (mk : Nat → CommitteeRequestObject) (hid : ∀ n, (mk n).id = n)
      (hstatus : ∀ n, (mk n).status = 0) (hmk : g → ∀ n, (mk n).Accounted) :
      Filing g t (t.create mk)
  | drop (p : CommitteeRequestObject → Bool) : Filing g t (t.filter p)

def Filings (g : Prop) : Table CommitteeRequestObject → Table CommitteeRequestObject → Prop :=
  Relation.ReflTransGen (Filing g)

/-- How the requests of `t` came out of those of `t₀`. -/
structure Progress (t₀ t : Table CommitteeRequestObject) : Prop where
  ids : t₀.nextId ≤ t.nextId
  moved : ∀ r ∈ t.rows, r.id < t₀.nextId →
    ∃ r₀ ∈ t₀.rows, r₀.id = r.id ∧ Relation.ReflTransGen StatusStep r₀.status r.status
  opened : ∀ r ∈ t.rows, t₀.nextId ≤ r.id → Relation.ReflTransGen StatusStep 0 r.status

/-- Distinct requests whose amounts add up. -/
structure Docket (t : Table CommitteeRequestObject) : Prop where
  ids : t.Numbered (·.id)
  accounted : t.All CommitteeRequestObject.Accounted

theorem Docket.progress {t : Table CommitteeRequestObject} (h : Docket t) : Progress t t where
  ids := le_rfl
  moved r hr _ := ⟨r, hr, rfl, .refl⟩
  opened r hr hid := absurd (h.ids.below r hr) (not_lt.2 hid)

namespace Filing

variable {g : Prop} {t₀ t t' : Table CommitteeRequestObject}

theorem numbered (h : Filing g t t') (ht : t.Numbered (·.id)) : t'.Numbered (·.id) := by
  cases h with
  | change key k f r hr h =>
    refine ht.of_ids (Table.map_update t key k f _ fun x hx => ?_) rfl
    rw [hr] at hx
    cases hx
    exact h.id_eq
  | file mk hid hstatus hmk => exact ht.create hid
  | drop p => exact ht.filter p

theorem accounted (h : Filing g t t') (hg : g) (ht : t.All CommitteeRequestObject.Accounted) :
    t'.All CommitteeRequestObject.Accounted := by
  cases h with
  | change key k f r hr h =>
    refine Table.all_update ht fun x hx hacc => ?_
    rw [hr] at hx
    cases hx
    exact h.accounted hg hacc
  | file mk hid hstatus hmk => exact Table.all_create ht (hmk hg _)
  | drop p => exact Table.all_filter ht

theorem progress (h : Filing g t t') (ht : Progress t₀ t) : Progress t₀ t' := by
  cases h with
  | change key k f r hr h =>
    have hmem := Table.get_mem hr
    refine ⟨ht.ids, fun y hy hlt => ?_, fun y hy hge => ?_⟩
    · rcases Table.mem_update hy with hy | ⟨x, hx, rfl⟩
      · exact ht.moved y hy hlt
      · rw [hr] at hx
        cases hx
        rw [h.id_eq] at hlt ⊢
        obtain ⟨r₀, hr₀, hid, hstatus⟩ := ht.moved r hmem hlt
        exact ⟨r₀, hr₀, hid, hstatus.trans h.status⟩
    · rcases Table.mem_update hy with hy | ⟨x, hx, rfl⟩
      · exact ht.opened y hy hge
      · rw [hr] at hx
        cases hx
        rw [h.id_eq] at hge
        exact (ht.opened r hmem hge).trans h.status
  | file mk hid hstatus hmk =>
    refine ⟨ht.ids.trans (Nat.le_succ _), fun y hy hlt => ?_, fun y hy hge => ?_⟩
    · rcases List.mem_append.1 hy with hy | hy
      · exact ht.moved y hy hlt
      · rw [List.mem_singleton.1 hy, hid] at hlt
        exact absurd ht.ids (not_le.2 hlt)
    · rcases List.mem_append.1 hy with hy | hy
      · exact ht.opened y hy hge
      · rw [List.mem_singleton.1 hy, hstatus]
  | drop p =>
    refine ⟨ht.ids, fun y hy => ?_, fun y hy => ?_⟩
    · exact ht.moved y (List.mem_of_mem_filter hy)
    · exact ht.opened y (List.mem_of_mem_filter hy)

end Filing

theorem Filings.numbered {g : Prop} {t t' : Table CommitteeRequestObject} (h : Filings g t t')
    (ht : t.Numbered (·.id)) : t'.Numbered (·.id) := by
  induction h with
  | refl => exact ht
  | tail _ hfile ih => exact hfile.numbered ih

theorem Filings.docket {g : Prop} {t t' : Table CommitteeRequestObject} (h : Filings g t t')
    (hg : g) (ht : Docket t) : Docket t' := by
  induction h with
  | refl => exact ht
  | tail _ hfile ih => exact ⟨hfile.numbered ih.ids, hfile.accounted hg ih.accounted⟩

theorem Filings.progress {g : Prop} {t₀ t t' : Table CommitteeRequestObject}
    (h : Filings g t t') (ht : Progress t₀ t) : Progress t₀ t' := by
  induction h with
  | refl => exact ht
  | tail _ hfile ih => exact hfile.progress ih

/-! ## The votes -/

/-- Every voter has a nonnegative amount of effective shares. -/
def Db.VotersBacked (db : Db) : Prop :=
  ∀ v ∈ db.committeeVotes.rows, ∀ a ∈ db.findAccount v.voter,
    0 ≤ a.vestingShares - a.delegatedVestingShares + a.receivedVestingShares

instance (db : Db) : Decidable db.VotersBacked :=
  inferInstanceAs (Decidable (∀ v ∈ _, ∀ a ∈ _, _))

/-- Votes are percentages between `-100%` and `100%`. -/
def VotesInRange (t : Table CommitteeVoteObject) : Prop :=
  t.All fun v => -10000 ≤ v.votePercent ∧ v.votePercent ≤ 10000

/-- A weighted vote is no more than the shares behind it, even where the product wraps: then the
shares alone exceed whatever the quotient can be. -/
theorem weightedVote_le {effective percent : Int} (heff : 0 ≤ effective)
    (hp : -10000 ≤ percent ∧ percent ≤ 10000) :
    (wrapInt64 (effective * percent)).tdiv percent100 ≤ effective := by
  have hle : effective * percent ≤ effective * 10000 := mul_le_mul_of_nonneg_left hp.2 heff
  have hge : effective * -10000 ≤ effective * percent := mul_le_mul_of_nonneg_left hp.1 heff
  have hwrap : wrapInt64 (effective * percent) ≤ effective * 10000 := by
    generalize effective * percent = product at hle hge ⊢
    unfold wrapInt64
    rw [Int.bmod_def]
    split <;> omega
  rcases le_or_gt 0 (wrapInt64 (effective * percent)) with hpos | hneg
  · rw [Int.tdiv_eq_ediv_of_nonneg hpos]
    unfold percent100
    omega
  · have hquot := Int.tdiv_nonneg (a := -wrapInt64 (effective * percent)) (b := percent100)
      (by omega) (by decide)
    rw [Int.neg_tdiv] at hquot
    omega

namespace Db

variable {db db' : Db}

/-- The weighted votes do not exceed the shares of the voters. -/
theorem tallyRequest_le (hvoters : db.VotersBacked) (hvotes : VotesInRange db.committeeVotes)
    {requestId : Nat} {maxRshares actualRshares : Int}
    (h : db.tallyRequest requestId = .ok (maxRshares, actualRshares)) :
    actualRshares ≤ maxRshares ∧ maxRshares < 2 ^ 63 := by
  refine foldlM_invariant (fun sums : Int × Int => sums.2 ≤ sums.1 ∧ sums.1 < 2 ^ 63) _ _ ?_
    (0, 0) (maxRshares, actualRshares) ⟨le_rfl, by norm_num⟩ h
  intro vote hvote sums sums' hsums hstep
  have hmem := List.mem_of_mem_filter hvote
  simp only [getAccount, bind_eq_ok, getOrThrow_eq_ok, safeAdd_eq_ok, pure_eq_ok] at hstep
  obtain ⟨voter, hvoter, effective, heff, _, ⟨hfits, rfl⟩, _, ⟨-, rfl⟩, rfl⟩ := hstep
  have hpos : 0 ≤ effective := by
    rw [(effectiveVestingShares_eq heff).2]
    exact hvoters vote hmem voter hvoter
  have hterm := weightedVote_le hpos (hvotes vote hmem)
  exact ⟨add_le_add hsums.1 hterm, hfits.2⟩

/-- What the votes grant is no more than what is asked for. -/
theorem calculatedPayment_le {r : CommitteeRequestObject} {maxRshares actualRshares payment : Int}
    (hpos : 0 < actualRshares) (hle : actualRshares ≤ maxRshares) (hfits : maxRshares < 2 ^ 63)
    (hasked : 0 ≤ r.requiredAmountMax)
    (h : calculatedPayment r maxRshares actualRshares = .ok payment) :
    payment ≤ r.requiredAmountMax := by
  simp only [calculatedPayment, divUint128, toSigned64, bind_eq_ok, require_eq_ok, fcAssert_eq_ok,
    pure_eq_ok] at h
  obtain ⟨_, ⟨_, hdiv, rfl⟩, _, -, rfl⟩ := h
  have hmax : (toUint128 maxRshares : Int) = maxRshares :=
    toUint128_of_nonneg (by omega) (by omega)
  have hactual : (toUint128 actualRshares : Int) = actualRshares :=
    toUint128_of_nonneg hpos.le (by omega)
  have hasked' : (toUint128 r.requiredAmountMax : Int) ≤ r.requiredAmountMax := by
    rw [toUint128_cast]
    omega
  have hshare : percent100 * toUint128 actualRshares % 2 ^ 128 / toUint128 maxRshares ≤ 10000 := by
    refine Nat.div_le_of_le_mul ?_
    unfold percent100
    omega
  generalize percent100 * toUint128 actualRshares % 2 ^ 128 / toUint128 maxRshares = share at hshare
  have hprod : toUint128 r.requiredAmountMax * share ≤ toUint128 r.requiredAmountMax * 10000 :=
    Nat.mul_le_mul_left _ hshare
  have hround := toInt64_le (toUint128 r.requiredAmountMax * share % 2 ^ 128 / percent100)
  refine hround.trans (le_trans ?_ hasked')
  generalize toUint128 r.requiredAmountMax * share = product at hprod
  unfold percent100
  omega

end Db

/-! ## A round of the committee -/

namespace Db

variable {db db' : Db} {g : Prop}

/-- The request is still at the status `n`. -/
def AtStatus (n : Nat) (id : Nat) (db : Db) : Prop :=
  ∀ r, db.committeeRequests.get (·.id) id = some r → r.status = n

theorem requestsWithStatus_atStatus (hids : db.committeeRequests.Numbered (·.id)) {n id : Nat}
    (h : id ∈ db.requestsWithStatus n) : AtStatus n id db := by
  intro r hr
  obtain ⟨r', hr', rfl⟩ := List.mem_map.1 h
  obtain ⟨hmem, hstatus⟩ := List.mem_filter.1 hr'
  rw [hids.get hmem] at hr
  cases hr
  exact of_decide_eq_true hstatus

theorem requestsWithStatus_nodup (hids : db.committeeRequests.Numbered (·.id)) (n : Nat) :
    (db.requestsWithStatus n).Nodup :=
  hids.nodup.sublist ((List.filter_sublist).map _)

/-- Changing one request leaves the others where they are. -/
theorem AtStatus.update {n id id' : Nat} {f : CommitteeRequestObject → CommitteeRequestObject}
    (hf : ∀ r, (f r).id = r.id)
    (hdb : db'.committeeRequests = db.committeeRequests.update (·.id) id f) (hne : id' ≠ id)
    (h : AtStatus n id' db) : AtStatus n id' db' := by
  intro r hr
  rw [hdb, Table.get_update_ne _ _ f hne hf] at hr
  exact h r hr

/-- The end of the vote on a request changes nothing else. -/
theorem concludeRequest_change {id : Nat}
    (hg : g → db.VotersBacked ∧ VotesInRange db.committeeVotes)
    (h : db.concludeRequest id = .ok db') :
    db' = db ∨ ∃ f r, db' = db.modifyRequestAt id f ∧
      db.committeeRequests.get (·.id) id = some r ∧ (r.status = 0 → RequestChange g r (f r)) ∧
      ∀ r, (f r).id = r.id := by
  simp only [concludeRequest, requestAt, bind_eq_ok, getOrThrow_eq_ok] at h
  obtain ⟨r, hr, h⟩ := h
  split at h
  · simp only [bind_eq_ok] at h
    obtain ⟨⟨maxRshares, actualRshares⟩, htally, approve, -, h⟩ := h
    right
    split at h
    · rw [pure_eq_ok] at h
      exact ⟨_, r, h.symm, hr, .lapse _, fun _ => rfl⟩
    · split at h
      · rw [pure_eq_ok] at h
        exact ⟨_, r, h.symm, hr, .deny 0 _, fun _ => rfl⟩
      · rename_i hpos
        rw [bind_eq_ok] at h
        obtain ⟨payment, hpayment, h⟩ := h
        split at h
        · rw [pure_eq_ok] at h
          exact ⟨_, r, h.symm, hr, .deny payment _, fun _ => rfl⟩
        · rename_i hmin
          rw [pure_eq_ok] at h
          refine ⟨_, r, h.symm, hr, fun hstatus => ?_, fun _ => rfl⟩
          refine .approve payment _ hstatus (not_lt.1 hmin) fun hg' hasked => ?_
          obtain ⟨hvoters, hvotes⟩ := hg hg'
          obtain ⟨hle, hfits⟩ := tallyRequest_le hvoters hvotes htally
          exact calculatedPayment_le (not_le.1 hpos) hle hfits hasked hpayment
  · rw [pure_eq_ok] at h
    exact .inl h.symm

/-- The first loop. -/
theorem concludeRequests_filings (hids : db.committeeRequests.Numbered (·.id))
    (hg : g → db.VotersBacked ∧ VotesInRange db.committeeVotes)
    (h : (db.requestsWithStatus 0).foldlM concludeRequest db = .ok db') :
    Filings g db.committeeRequests db'.committeeRequests ∧ db'.accounts = db.accounts ∧
      db'.committeeVotes = db.committeeVotes ∧ db'.dgp = db.dgp := by
  refine foldlM_pending (fun d : Db => Filings g db.committeeRequests d.committeeRequests ∧
    d.accounts = db.accounts ∧ d.committeeVotes = db.committeeVotes ∧ d.dgp = db.dgp)
    (AtStatus 0) concludeRequest _ (requestsWithStatus_nodup hids 0) ?_ db db'
    ⟨.refl, rfl, rfl, rfl⟩ (fun id hid => requestsWithStatus_atStatus hids hid) h
  rintro id d d' ⟨hfilings, haccounts, hvotes, hdgp⟩ hopen hstep
  have hg' : g → d.VotersBacked ∧ VotesInRange d.committeeVotes := by
    unfold VotersBacked findAccount
    rw [haccounts, hvotes]
    exact hg
  obtain rfl | ⟨f, r, rfl, hr, hchange, hf⟩ := concludeRequest_change hg' hstep
  · exact ⟨⟨hfilings, haccounts, hvotes, hdgp⟩, fun _ _ hb => hb⟩
  · have hfiling := Filing.change _ _ f r hr (hchange (hopen r hr))
    refine ⟨⟨hfilings.tail hfiling, haccounts, hvotes, hdgp⟩, ?_⟩
    exact fun id' hne hb => hb.update hf rfl hne

theorem payRequest_change {maxPayment : Int} {id : Nat} (hmax : 0 ≤ maxPayment)
    (hopen : AtStatus 4 id db) (h : payRequest maxPayment db id = .ok db') :
    db'.committeeVotes = db.committeeVotes ∧
      ∃ f r, db'.committeeRequests = db.committeeRequests.update (·.id) id f ∧
        db.committeeRequests.get (·.id) id = some r ∧ RequestChange g r (f r) ∧
        ∀ r, (f r).id = r.id := by
  simp only [payRequest, requestAt, bind_eq_ok, getOrThrow_eq_ok, safeSub_eq_ok, safeAdd_eq_ok,
    pure_eq_ok] at h
  obtain ⟨r, hr, db₁, hpay, _, -, _, ⟨-, rfl⟩, _, ⟨-, rfl⟩, rfl⟩ := h
  have hsame : db₁.committeeRequests = db.committeeRequests :=
    congrArg Core.requests (adjustBalance_core hpay)
  refine ⟨congrArg Core.requestVotes (adjustBalance_core hpay), _, r,
    congrArg (fun t => Table.update t _ _ _) hsame, hr, ?_, ?_⟩
  · refine .pay (min maxPayment r.remainPayoutAmount) _ (hopen r hr) (min_le_right _ _) ?_
    exact fun hremain => le_min hmax hremain
  · exact fun _ => rfl

/-- The second loop. -/
theorem payRequests_filings (hids : db.committeeRequests.Numbered (·.id))
    (hfund : 0 ≤ db.dgp.committeeFund) (h : db.payRequests = .ok db') :
    Filings g db.committeeRequests db'.committeeRequests ∧
      db'.committeeVotes = db.committeeVotes := by
  simp only [payRequests, bind_eq_ok, safeDiv_eq_ok] at h
  obtain ⟨maxPayment, ⟨-, -, rfl⟩, hrun⟩ := h
  have hmax := Int.tdiv_nonneg hfund (Int.natCast_nonneg (1 + (db.requestsWithStatus 4).length))
  refine foldlM_pending (fun d : Db => Filings g db.committeeRequests d.committeeRequests ∧
    d.committeeVotes = db.committeeVotes)
    (AtStatus 4) _ _ (requestsWithStatus_nodup hids 4) ?_ db db'
    ⟨.refl, rfl⟩ (fun id hid => requestsWithStatus_atStatus hids hid) hrun
  rintro id d d' ⟨hfilings, hvotes⟩ hopen hstep
  obtain ⟨hsame, f, r, hdb, hr, hchange, hf⟩ := payRequest_change (g := g) hmax hopen hstep
  constructor
  · rw [hdb, hsame]
    exact ⟨hfilings.tail (.change _ _ f r hr hchange), hvotes⟩
  · exact fun id' hne hb => hb.update hf hdb hne

theorem committeeProcessing_filings (hids : db.committeeRequests.Numbered (·.id))
    (hg : g → db.VotersBacked ∧ VotesInRange db.committeeVotes)
    (hfund : 0 ≤ db.dgp.committeeFund) (h : db.committeeProcessing = .ok db') :
    Filings g db.committeeRequests db'.committeeRequests ∧
      db'.committeeVotes = db.committeeVotes := by
  simp only [committeeProcessing, bind_eq_ok] at h
  obtain ⟨db₁, hconclude, h⟩ := h
  obtain ⟨hfilings, -, hvotes, hdgp⟩ := concludeRequests_filings hids hg hconclude
  split at h
  · have hids₁ : db₁.committeeRequests.Numbered (·.id) := hfilings.numbered hids
    rw [← hdgp] at hfund
    obtain ⟨hpaid, hsame⟩ := payRequests_filings (g := g) hids₁ hfund h
    exact ⟨hfilings.trans hpaid, hsame.trans hvotes⟩
  · rw [pure_eq_ok] at h
    rw [← h]
    exact ⟨hfilings, hvotes⟩

end Db

/-! ## No division by zero -/

theorem checked_ne_divideByZero (x : Int) : checked x ≠ .error .divideByZero := by
  unfold checked
  split <;> exact fun h => by cases h

theorem fcAssert_ne_divideByZero (c : Prop) [Decidable c] (msg : String) :
    fcAssert c msg ≠ .error .divideByZero := by
  unfold fcAssert require
  split <;> exact fun h => by cases h

namespace Db

variable {db db' : Db}

theorem percentOf_ne_divideByZero (x percent : Int) :
    percentOf x percent ≠ .error .divideByZero := by
  unfold percentOf
  refine bind_ne_error (checked_ne_divideByZero _) fun product _ => ?_
  exact checked_ne_divideByZero _

theorem getAccount_ne_divideByZero (db : Db) (name : AccountName) :
    db.getAccount name ≠ .error .divideByZero := by
  unfold getAccount getOrThrow
  split <;> exact fun h => by cases h

theorem requestAt_ne_divideByZero (db : Db) (id : Nat) :
    db.requestAt id ≠ .error .divideByZero := by
  unfold requestAt getOrThrow
  split <;> exact fun h => by cases h

theorem tallyRequest_ne_divideByZero (db : Db) (requestId : Nat) :
    db.tallyRequest requestId ≠ .error .divideByZero := by
  refine foldlM_ne_error (fun _ => True) _ _ (fun vote _ sums _ => ⟨?_, fun _ _ => trivial⟩) _
    trivial
  refine bind_ne_error (getAccount_ne_divideByZero db _) fun voter _ => ?_
  refine bind_ne_error ?_ fun effective _ => ?_
  · exact bind_ne_error (checked_ne_divideByZero _) fun own _ => checked_ne_divideByZero _
  · refine bind_ne_error (checked_ne_divideByZero _) fun maxRshares _ => ?_
    refine bind_ne_error (checked_ne_divideByZero _) fun actual _ => ?_
    exact fun h => by cases h

/-- The shares of the voters are divided by only where they are positive. -/
theorem concludeRequest_ne_divideByZero (hvoters : db.VotersBacked)
    (hvotes : VotesInRange db.committeeVotes) (id : Nat) :
    db.concludeRequest id ≠ .error .divideByZero := by
  unfold concludeRequest
  refine bind_ne_error (requestAt_ne_divideByZero db id) fun r _ => ?_
  dsimp only
  split
  · refine bind_ne_error (tallyRequest_ne_divideByZero db _) fun sums htally => ?_
    refine bind_ne_error (percentOf_ne_divideByZero _ _) fun approve _ => ?_
    obtain ⟨maxRshares, actualRshares⟩ := sums
    dsimp only
    split
    · exact fun h => by cases h
    · split
      · exact fun h => by cases h
      · rename_i hpos
        have hle := tallyRequest_le hvoters hvotes htally
        refine bind_ne_error ?_ fun payment _ => ?_
        · refine bind_ne_error ?_ fun share _ => ?_
          · have hmax : toUint128 maxRshares ≠ 0 := by
              have hcast : (toUint128 maxRshares : Int) = maxRshares :=
                toUint128_of_nonneg (by omega) (by omega)
              omega
            unfold divUint128 require
            rw [if_pos hmax]
            exact fun h => by cases h
          · exact bind_ne_error (fcAssert_ne_divideByZero _ _) fun _ _ h => by cases h
        · split <;> exact fun h => by cases h
  · exact fun h => by cases h

theorem adjustBalance_ne_divideByZero (db : Db) (name : AccountName) (x : Int) :
    db.adjustBalance name x ≠ .error .divideByZero := by
  unfold adjustBalance
  refine bind_ne_error (getAccount_ne_divideByZero db name) fun a _ => ?_
  refine bind_ne_error (checked_ne_divideByZero _) fun balance _ => ?_
  exact fun h => by cases h

theorem payRequest_ne_divideByZero (maxPayment : Int) (db : Db) (id : Nat) :
    payRequest maxPayment db id ≠ .error .divideByZero := by
  unfold payRequest
  refine bind_ne_error (requestAt_ne_divideByZero db id) fun r _ => ?_
  refine bind_ne_error (adjustBalance_ne_divideByZero db _ _) fun db₁ _ => ?_
  refine bind_ne_error (checked_ne_divideByZero _) fun fund _ => ?_
  refine bind_ne_error (checked_ne_divideByZero _) fun payout _ => ?_
  refine bind_ne_error (checked_ne_divideByZero _) fun remain _ => ?_
  exact fun h => by cases h

theorem committeeProcessing_ne_divideByZero (hvoters : db.VotersBacked)
    (hvotes : VotesInRange db.committeeVotes) :
    db.committeeProcessing ≠ .error .divideByZero := by
  unfold committeeProcessing
  refine bind_ne_error ?_ fun db₁ _ => ?_
  · refine foldlM_ne_error (fun d : Db => d.VotersBacked ∧ VotesInRange d.committeeVotes) _ _ ?_ db
      ⟨hvoters, hvotes⟩
    rintro id - d ⟨hd, hd'⟩
    refine ⟨concludeRequest_ne_divideByZero hd hd' id, fun d' hstep => ?_⟩
    obtain rfl | ⟨f, r, rfl, -⟩ := concludeRequest_change (g := False) False.elim hstep
    · exact ⟨hd, hd'⟩
    · exact ⟨hd, hd'⟩
  · split
    · refine bind_ne_error ?_ fun maxPayment _ => ?_
      · unfold safeDiv
        rw [if_neg (by omega)]
        exact checked_ne_divideByZero _
      · refine foldlM_ne_error (fun _ => True) _ _ (fun id _ d _ => ⟨?_, fun _ _ => trivial⟩) _
          trivial
        exact payRequest_ne_divideByZero maxPayment d id
    · exact fun h => by cases h

end Db

/-! ## Operations -/

/-- The requests and the votes after some filings. -/
structure FiledRequest (g : Prop) (db db' : Db) : Prop where
  requests : Filings g db.committeeRequests db'.committeeRequests
  votes : VotesInRange db.committeeVotes → VotesInRange db'.committeeVotes

namespace Db

variable {db db' : Db}

theorem committeeWorkerCreateRequest_filed {o : CommitteeWorkerCreateRequestOperation}
    (hv : o.validate = .ok ()) (h : db.committeeWorkerCreateRequest o = .ok db') :
    FiledRequest True db db' := by
  have hasked : 0 ≤ o.requiredAmountMin.amount ∧ 0 ≤ o.requiredAmountMax.amount := by
    simp only [CommitteeWorkerCreateRequestOperation.validate, bind_eq_ok, fcAssert_eq_ok] at hv
    obtain ⟨_, -, _, -, _, hmin, _, -, _, hmax, -⟩ := hv
    omega
  simp only [committeeWorkerCreateRequest, bind_eq_ok] at h
  obtain ⟨_, -, _, -, _, -, _, -, _, -, db₁, hpay, hfund⟩ := h
  have hcore := (addCommitteeFund_core hfund).trans (adjustBalance_core hpay)
  have hrequests : db'.committeeRequests = db.committeeRequests.create
      (openedRequest o db.headBlockTime ((db.dgp.committeeRequests + 1) % 2 ^ 32)) :=
    congrArg Core.requests hcore
  have hvotes := congrArg Core.requestVotes hcore
  constructor
  · rw [hrequests]
    refine .single (.file _ (fun _ => rfl) (fun _ => rfl) fun _ n => ?_)
    refine ⟨hasked, fun _ => rfl, fun h45 => ?_, fun h4 => ?_, fun h5 => ?_⟩
    · rcases h45 with h | h <;> cases h
    · cases h4
    · cases h5
  · rw [show db'.committeeVotes = db.committeeVotes from hvotes]
    exact id

theorem committeeWorkerCancelRequest_filed {o : CommitteeWorkerCancelRequestOperation}
    (h : db.committeeWorkerCancelRequest o = .ok db') : FiledRequest True db db' := by
  simp only [committeeWorkerCancelRequest, getRequest, bind_eq_ok, getOrThrow_eq_ok,
    fcAssert_eq_ok, pure_eq_ok] at h
  obtain ⟨_, -, r, hr, _, -, _, hopen, rfl⟩ := h
  exact ⟨.single (.change _ _ _ r hr (.cancel _ hopen)), id⟩

theorem committeeVoteRequest_filed {o : CommitteeVoteRequestOperation}
    (hv : -10000 ≤ o.votePercent ∧ o.votePercent ≤ 10000)
    (h : db.committeeVoteRequest o = .ok db') : FiledRequest True db db' := by
  simp only [committeeVoteRequest, getRequest, bind_eq_ok, getOrThrow_eq_ok] at h
  obtain ⟨_, -, r, hr, _, -, h⟩ := h
  split at h
  · simp only [bind_eq_ok, pure_eq_ok] at h
    obtain ⟨_, -, rfl⟩ := h
    refine ⟨.refl, fun hvotes v hmem => ?_⟩
    obtain ⟨v₀, hv₀, rfl⟩ := List.mem_map.1 hmem
    split
    · exact hv
    · exact hvotes v₀ hv₀
  · rw [pure_eq_ok] at h
    subst h
    exact ⟨.single (.change _ _ _ r hr (.vote _)), fun hvotes => Table.all_create hvotes hv⟩

theorem clearClosedCommitteeRequests_filed (db : Db) :
    FiledRequest True db db.clearClosedCommitteeRequests :=
  ⟨.single (.drop _), fun hvotes => Table.all_filter hvotes⟩

end Db

/-! ## Runs -/

/-- What is kept of the requests that came out of `t₀`. -/
structure RequestBook (t₀ : Table CommitteeRequestObject) (r : RequestRest) : Prop where
  docket : Docket r.requests
  progress : Progress t₀ r.requests
  votes : VotesInRange r.votes

theorem RequestBook.filed {t₀ : Table CommitteeRequestObject} {g : Prop} {db db' : Db}
    (hdb : RequestBook t₀ (db.view .requests).rest) (h : FiledRequest g db db') (hg : g) :
    RequestBook t₀ (db'.view .requests).rest :=
  ⟨h.requests.docket hg hdb.docket, h.requests.progress hdb.progress, h.votes hdb.votes⟩

theorem requestBook_steady (t₀ : Table CommitteeRequestObject) :
    Steady .requests fun v : Aspect.View .requests => RequestBook t₀ v.rest := by
  intro g db db' hglide hdb
  cases hglide with
  | same h =>
    rw [h]
    exact hdb
  | register name recovery memo auth hauth hnew h =>
    rw [h]
    exact hdb
  | declare owner hnew h =>
    rw [h]
    exact hdb
  | vest name tokens ok h =>
    rw [Db.createVesting_view (x := .requests) rfl h]
    exact hdb

/-- The voters have nonnegative effective shares when the committee counts. -/
def Event.VotersBacked : Event → Prop
  | .step db _ .committeeProcessing _ => db.VotersBacked
  | _ => True

theorem requestBook_keepsBlock (env : Env) (t₀ : Table CommitteeRequestObject) :
    KeepsBlock env Event.VotersBacked fun db =>
      db.Endowed env.fc ∧ RequestBook t₀ (db.view .requests).rest := by
  refine (endowed_keepsBlock env _).aspect (x := .requests)
    (P := fun v : Aspect.View .requests => RequestBook t₀ v.rest) (by decide) (by decide) (by decide)
    (requestBook_steady t₀) ?_ ?_
  · intro clock db op db' htouch hR hv hC h hdb
    cases op with
    | committeeWorkerCreateRequest o =>
      exact hdb.filed (Db.committeeWorkerCreateRequest_filed hv h) trivial
    | committeeWorkerCancelRequest o =>
      exact hdb.filed (Db.committeeWorkerCancelRequest_filed h) trivial
    | committeeVoteRequest o =>
      simp only [Operation.validate, bind_eq_ok, fcAssert_eq_ok] at hv
      obtain ⟨_, hlow, hhigh⟩ := hv
      exact hdb.filed (Db.committeeVoteRequest_filed ⟨hlow, hhigh⟩ h) trivial
    | _ => cases htouch
  · intro skip b db st db' htouch hR hC h hdb
    cases st with
    | clearClosedCommitteeRequests =>
      cases h
      exact hdb.filed db.clearClosedCommitteeRequests_filed trivial
    | committeeProcessing =>
      obtain ⟨hfilings, hvotes⟩ := Db.committeeProcessing_filings
        (g := db.VotersBacked ∧ VotesInRange db.committeeVotes) hdb.docket.ids id
        hR.fair.committeeFund h
      have hfiled : FiledRequest (db.VotersBacked ∧ VotesInRange db.committeeVotes) db db' :=
        ⟨hfilings, fun h => hvotes ▸ h⟩
      exact hdb.filed hfiled ⟨hC, hdb.votes⟩
    | _ => cases htouch

/-- What the committee promises in a state. -/
structure Db.CommitteeInOrder (db : Db) : Prop where
  fund : 0 ≤ db.dgp.committeeFund
  granted : ∀ r ∈ db.committeeRequests.rows, r.status = 4 ∨ r.status = 5 →
    r.payoutAmount + r.remainPayoutAmount = r.conclusionPayoutAmount ∧
      r.conclusionPayoutAmount ≤ r.requiredAmountMax ∧
      (r.remainPayoutAmount = 0 ↔ r.status = 5 ∨ r.conclusionPayoutAmount = 0)
  /-- with votes that are backed by nonnegative shares, what is converted to unsigned is
  nonnegative and what is divided by is positive -/
  converted : db.VotersBacked → ∀ r ∈ db.committeeRequests.rows, ∀ maxRshares actualRshares,
    db.tallyRequest r.requestId = .ok (maxRshares, actualRshares) → 0 < actualRshares →
    0 < maxRshares ∧ 0 ≤ r.requiredAmountMax
  divided : db.VotersBacked → db.committeeProcessing ≠ .error .divideByZero

theorem RequestBook.inOrder {t₀ : Table CommitteeRequestObject} {fc : Fc} {db : Db}
    (hfunds : db.Endowed fc) (h : RequestBook t₀ (db.view .requests).rest) :
    db.CommitteeInOrder := by
  refine ⟨hfunds.fair.committeeFund, fun r hr h45 => ?_, fun hvoters r hr => ?_, fun hvoters => ?_⟩
  · have hacc := h.docket.accounted r hr
    obtain ⟨hpayout, hsum, hmax⟩ := hacc.granted h45
    refine ⟨hsum, hmax, ?_⟩
    rcases h45 with h4 | h5
    · have hrunning := hacc.running h4
      omega
    · have hpaid := hacc.paid h5
      omega
  · intro maxRshares actualRshares htally hpos
    have hle := (Db.tallyRequest_le hvoters h.votes htally).1
    exact ⟨by omega, (h.docket.accounted r hr).asked.2⟩
  · exact Db.committeeProcessing_ne_divideByZero hvoters h.votes

/-- **The committee.**  Along every run in which the voters have nonnegative shares whenever the
committee counts, a request follows its way, its amounts add up to what was granted, which is no
more than what was asked for, and the fund is not overdrawn.  Nothing remains to be paid when the
request is paid, or when it was granted nothing. -/
theorem committee_payouts (env : Env) :
    (∀ t₀, Preserved env Event.VotersBacked fun db =>
      db.Endowed env.fc ∧ RequestBook t₀ (db.view .requests).rest) ∧
    ∀ t₀ (db : Db), db.Endowed env.fc ∧ RequestBook t₀ (db.view .requests).rest → db.CommitteeInOrder :=
  ⟨fun t₀ => (requestBook_keepsBlock env t₀).preserved, fun _ _ h => h.2.inOrder h.1⟩

/-- bob asks for at most `amount`, alice grants a half of it, and the term of the vote is over. -/
def votedStore (amount : Int) : Store :=
  let s := smallStore [{ id := 4, name := "bob" }]
  let request : CommitteeRequestObject :=
    { id := 0, requestId := 1, url := "a", creator := "bob", worker := "bob"
      requiredAmountMin := 0, requiredAmountMax := amount, startTime := 30, duration := 432000
      endTime := 432030, status := 0, votesCount := 1, conclusionTime := 0, lastPayoutTime := 0
      payoutTime := 0 }
  { s with
    db := { s.db with
      dgp := { s.db.dgp with time := 432030, committeeRequests := 1 }
      committeeRequests := ⟨[request], 1⟩
      committeeVotes := ⟨[⟨0, 1, "alice", 5000, 60⟩], 1⟩ } }

def countingBlock : SignedBlock := { smallBlock [] with timestamp := 432033, transactions := [] }

theorem votedStore_endowed (fc : Fc) (amount : Int) : (votedStore amount).db.Endowed fc := by
  have hterms : (votedStore amount).db.ledger.terms.Fair := by
    have hsmall := (smallStore_terms [{ id := 4, name := "bob" }]).fair
    exact { hsmall with }
  have hsettled : (votedStore amount).db.ledger.Settled fc :=
    ⟨fun _ h => (nomatch h), fun _ h => (nomatch h), fun _ h => (nomatch h)⟩
  refine ⟨hsettled, ⟨?_, ?_, hterms⟩, ?_⟩
  · show (0 : Int) ≤ 0
    decide
  · show (0 : Int) ≤ 0
    decide
  · show (0 : Int) < 2 ^ 63
    decide

theorem votedStore_book {amount : Int} (hamount : 0 ≤ amount) :
    RequestBook (votedStore amount).db.committeeRequests
      ((votedStore amount).db.view .requests).rest := by
  have hdocket : Docket (votedStore amount).db.committeeRequests := by
    refine ⟨⟨?_, ?_⟩, ?_⟩
    · show [0].Nodup
      decide
    · intro r hr
      rw [List.mem_singleton.1 hr]
      show 0 < 1
      decide
    · intro r hr
      rw [List.mem_singleton.1 hr]
      refine ⟨⟨le_rfl, hamount⟩, fun _ => rfl, fun h45 => ?_, fun h4 => ?_, fun h5 => ?_⟩
      · rcases h45 with h | h <;> cases h
      · cases h4
      · cases h5
  refine ⟨hdocket, hdocket.progress, fun v hv => ?_⟩
  rw [List.mem_singleton.1 hv]
  show (-10000 : Int) ≤ 5000 ∧ (5000 : Int) ≤ 10000
  decide

/-- Whether the voters are backed when the committee counts. -/
def Event.votersBacked : Event → Bool
  | .step db _ .committeeProcessing _ => decide db.VotersBacked
  | _ => true

theorem Event.votersBacked_eq_true {e : Event} (h : e.votersBacked = true) : e.VotersBacked := by
  cases e with
  | operation db op kept => trivial
  | step db b st kept =>
    cases st with
    | committeeProcessing =>
      have hbacked : db.VotersBacked := of_decide_eq_true h
      exact hbacked
    | _ => trivial

theorem committee_payouts_half :
    ∃ s', ((votedStore 1000).applyBlocks smallEnv 2 { merkleCheck := true } [countingBlock] 0).2 =
      .ok s' ∧ (∃ r ∈ s'.db.committeeRequests.rows, r.status = 4 ∧ r.remainPayoutAmount = 500) ∧
      Progress (votedStore 1000).db.committeeRequests s'.db.committeeRequests ∧
      s'.db.CommitteeInOrder := by
  have hrun : returns ((votedStore 1000).applyBlocks smallEnv 2 { merkleCheck := true }
      [countingBlock] 0).2 (fun s' => s'.db.committeeRequests.rows.any fun r =>
        r.status == 4 && r.remainPayoutAmount == 500) = true := by
    decide +kernel
  have hvoters : ∀ e ∈ ((votedStore 1000).applyBlocks smallEnv 2 { merkleCheck := true }
      [countingBlock] 0).1, e.votersBacked = true := by
    decide +kernel
  obtain ⟨s', hs', hany⟩ := returns_eq_true hrun
  have hkept := ((committee_payouts smallEnv).1 _).blocks 2 _ _ [countingBlock] 0 s' rfl
    ⟨votedStore_endowed _ 1000, votedStore_book (by decide)⟩
    (fun e he => Event.votersBacked_eq_true (hvoters e he)) hs'
  refine ⟨s', hs', ?_, hkept.2.progress, (committee_payouts smallEnv).2 _ s'.db hkept⟩
  obtain ⟨r, hr, htest⟩ := List.any_eq_true.1 hany
  rw [Bool.and_eq_true] at htest
  exact ⟨r, hr, eq_of_beq htest.1, eq_of_beq htest.2⟩

/-- A half of the smallest amount is nothing: the request is approved, and not yet closed, with
nothing left to pay. -/
theorem approved_for_nothing :
    (votedStore 1).db.Endowed smallEnv.fc ∧ (votedStore 1).db.VotersBacked ∧
      (votedStore 1).db.dgp.totalVestingShares < 2 ^ 63 / 10000 ∧
      (∀ r ∈ (votedStore 1).db.committeeRequests.rows, r.status = 0) ∧
      ∃ s', ((votedStore 1).applyBlocks smallEnv 2 { merkleCheck := true } [countingBlock] 0).2 =
        .ok s' ∧
        ∃ r ∈ s'.db.committeeRequests.rows, r.status = 4 ∧ r.remainPayoutAmount = 0 := by
  refine ⟨votedStore_endowed _ 1, by decide +kernel, by decide, by decide, ?_⟩
  have hrun : returns ((votedStore 1).applyBlocks smallEnv 2 { merkleCheck := true }
      [countingBlock] 0).2 (fun s' => s'.db.committeeRequests.rows.any fun r =>
        r.status == 4 && r.remainPayoutAmount == 0) = true := by
    decide +kernel
  obtain ⟨s', hs', hany⟩ := returns_eq_true hrun
  obtain ⟨r, hr, htest⟩ := List.any_eq_true.1 hany
  rw [Bool.and_eq_true] at htest
  exact ⟨s', hs', r, hr, eq_of_beq htest.1, eq_of_beq htest.2⟩

end VizCore.Chain
