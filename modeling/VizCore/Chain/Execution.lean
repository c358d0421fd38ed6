import VizCore.Chain.Invariant

/-!
# Executing proposals

A proposal carries operations, and these may approve, execute, create and delete proposals in
turn.  `push_proposal` removes the proposal through a reference that it took before the
operations ran.

* `Files`: what a property of the stored proposals has to satisfy to be kept by everything
  that is applied;
* `Tidy`: ids and keys are unique, and every required approval belongs to a proposal;
* `Untangled`: following what stored proposals update and delete never leads back;
* `pushProposal_executed`: a proposal that is not entangled is still there when it is removed,
  and goes with all its required approvals.
-/

namespace VizCore.Chain

open VizCore.Lib VizCore.Protocol

/-- The author and the title of a proposal. -/
abbrev ProposalKey := AccountName × String

/-- The operation, or one that it proposes, updates or deletes the proposal `k`. -/
inductive Operation.Names (k : ProposalKey) : Operation → Prop
  | update {o : ProposalUpdateOperation} (h : (o.author, o.title) = k) :
    Names k (.proposalUpdate o)
  | delete {o : ProposalDeleteOperation} (h : (o.author, o.title) = k) :
    Names k (.proposalDelete o)
  | create {author : AccountName} {title memo : String} {expirationTime : TimePointSec}
      {ops : List Operation} {review : Option TimePointSec} {op : Operation} (hop : op ∈ ops)
      (h : Names k op) : Names k (.proposalCreate author title memo expirationTime ops review)

/-- The operation names permitted proposals only. -/
def Permits (permit : ProposalKey → Prop) (op : Operation) : Prop :=
  ∀ k, Operation.Names k op → permit k

namespace Db

/-- The stored proposals and the approvals that they require. -/
def docket (db : Db) : ProposalRest := ⟨db.proposals, db.requiredApprovals⟩

variable {env : Env} {skip : Skip} {db db' : Db}

/-! ## What leaves the proposals alone -/

theorem docket_of_view (h : db'.view .proposals = db.view .proposals) :
    db'.docket = db.docket :=
  congrArg (fun v : Aspect.View .proposals => v.rest) h

theorem docket_of_drift {g : Prop} (h : Drift .proposals g db db') : db'.docket = db.docket :=
  h.rest rfl (fun _ _ _ _ _ => rfl) fun _ _ => rfl

theorem openTransaction_docket {trx : SignedTransaction}
    (h : db.openTransaction env skip trx = .ok db') : db'.docket = db.docket :=
  docket_of_view (openTransaction_view (by decide) h)

theorem run_docket {b : SignedBlock} {st : BlockStep} (h : st.run env skip b db = .ok db') :
    db'.docket = db.docket := by
  refine docket_of_drift (BlockStep.run_drift ?_ h)
  cases st <;> rfl

/-! ## Properties of the docket -/

/-- A property of the stored proposals that creating, approving and removing keep.  `T p` is
what is known of a proposal `p` that has been found, as long as it may be removed. -/
structure Files (P : Event → Prop) (permit : ProposalKey → Prop)
    (T : ProposalObject → Db → Prop) (I : Db → Prop) : Prop where
  visit : ∀ db op kept, I db → P (.operation db op kept)
  same : ∀ db db', db'.docket = db.docket → I db → I db'
  store : ∀ db author title memo expirationTime ops review required, I db →
    db.proposalApprovals author title expirationTime ops review = .ok required →
    (∀ op ∈ ops, Permits permit op) →
    I (db.storeProposal author title memo expirationTime ops review required)
  approve : ∀ db o p db', I db → permit (o.author, o.title) →
    db.approveProposal o = .ok (p, db') →
    I db' ∧ T p db' ∧ ∀ op ∈ p.proposedOperations, Permits permit op
  found : ∀ db author title p, I db → permit (author, title) →
    db.findProposal author title = some p → T p db
  remove : ∀ db p, I db → T p db → I (db.removeProposal p)

/-- Applying permitted operations keeps the property, whatever proposals they execute. -/
def Filed (P : Event → Prop) (permit : ProposalKey → Prop) (I : Db → Prop)
    (apply : Db → Operation → Run Db) : Prop :=
  ∀ db op, I db → Permits permit op → Traced.Safe P (apply db op) I

section Files

variable {P : Event → Prop} {permit : ProposalKey → Prop} {T : ProposalObject → Db → Prop}
  {I : Db → Prop}

theorem Filed.foldlM {apply : Db → Operation → Run Db} (happly : Filed P permit I apply)
    {ops : List Operation} (hops : ∀ op ∈ ops, Permits permit op) (hdb : I db) :
    Traced.Safe P (ops.foldlM apply db) I :=
  Traced.Safe.foldlM I apply ops (fun op hop _ hs => happly _ op hs (hops op hop)) db hdb

theorem Files.pushed (hI : Files P permit T I) {apply : Db → Operation → Run Db}
    (happly : Filed P permit I apply) (hT : ∀ p, Filed (fun _ => True) permit (T p) apply)
    {p : ProposalObject} (hops : ∀ op ∈ p.proposedOperations, Permits permit op) (hdb : I db)
    (hp : T p db) : Traced.Safe P (pushProposalWith apply db p) I := by
  unfold pushProposalWith
  refine ((happly.foldlM hops hdb).and ((hT p).foldlM hops hp)).bind fun db' hdb' => ?_
  exact .pure (hI.remove db' p hdb'.1 hdb'.2)

theorem afterAttempt_safe {r : Result Db} (hdb : I db) (hr : ∀ d, r = .ok d → I d) :
    Traced.Safe P (Traced.lift (afterAttempt db r)) I :=
  .lift fun _ h => afterAttempt_keeps hdb hr h

theorem Files.transaction (hI : Files P permit T I) {apply : Db → Operation → Run Db}
    (happly : Filed P permit I apply) {trx : SignedTransaction}
    (hops : ∀ op ∈ trx.operations, Permits permit op) (hdb : I db) :
    Traced.Safe P (applyTransactionWith apply env skip db trx) I := by
  unfold applyTransactionWith
  refine Traced.Safe.bind (Q := I) (.lift fun d h => ?_) fun d hd => happly.foldlM hops hd
  exact hI.same db d (openTransaction_docket h) hdb

theorem Files.updated (hI : Files P permit T I) (hP : ∀ e, P e → P e.undone)
    {apply : Depth → Db → Operation → Run Db} (happly : ∀ d, Filed P permit I (apply d))
    (hT : ∀ d p, Filed (fun _ => True) permit (T p) (apply d)) {depth : Depth}
    {o : ProposalUpdateOperation} (ho : permit (o.author, o.title)) (hdb : I db) :
    Traced.Safe P (proposalUpdateWith apply env depth db o) I := by
  unfold proposalUpdateWith
  refine (Traced.Safe.lift fun _ _ => trivial).bind fun _ (_ : True) => ?_
  refine Traced.Safe.bind (Q := fun r => I r.2 ∧ T r.1 r.2 ∧
    ∀ op ∈ r.1.proposedOperations, Permits permit op) (.lift fun r h => ?_) fun r hr => ?_
  · exact hI.approve db o r.1 r.2 hdb ho h
  · obtain ⟨p, db₁⟩ := r
    obtain ⟨hdb₁, hp, hops⟩ := hr
    cases hreview : p.reviewPeriodTime with
    | some review =>
      simp only [hreview]
      refine .pure ?_
      unfold reviewProposal
      split
      · exact hI.remove db₁ p hdb₁ hp
      · exact hdb₁
    | none =>
      simp only [hreview]
      refine (Traced.Safe.lift fun _ _ => trivial).bind fun _ (_ : True) => ?_
      split
      · have hpush (d : Depth) := hI.pushed (happly d) (hT d) hops hdb₁ hp
        exact ((hpush _).attempt hP).bind fun r hr => afterAttempt_safe hdb₁ hr
      · exact .pure hdb₁

theorem Files.evaluated (hI : Files P permit T I) {clock : TimePointSec} {op : Operation}
    (hop : Permits permit op) (hdb : I db)
    (h : evaluate env.fc env.producing clock db op = .ok db') : I db' := by
  cases htouch : Operation.touches .proposals op with
  | false => exact hI.same db db' (docket_of_drift (evaluate_drift htouch h)) hdb
  | true =>
    cases op with
    | proposalDelete o =>
      simp only [evaluate, proposalDelete, getProposal, bind_eq_ok, getOrThrow_eq_ok,
        pure_eq_ok] at h
      obtain ⟨p, hp, _, -, rfl⟩ := h
      exact hI.remove db p hdb (hI.found db o.author o.title p hdb (hop _ (.delete rfl)) hp)
    | _ => cases htouch

/-- **Operations** keep what filing keeps. -/
theorem Files.applied (hI : Files P permit T I) (hP : ∀ e, P e → P e.undone)
    (hT : ∀ p fuel depth, Filed (fun _ => True) permit (T p) (applyOperation env fuel depth)) (fuel : Nat)
    (depth : Depth) : Filed P permit I (applyOperation env fuel depth) := by
  induction fuel generalizing depth with
  | zero => exact fun _ _ _ _ => .lift fun _ h => nomatch h
  | succ fuel ih =>
    intro db op hdb hop
    unfold applyOperation
    refine (Traced.Safe.report (hI.visit db op true hdb)).bind fun _ _ => ?_
    unfold evaluateWith
    split
    · rename_i author title memo expirationTime ops review
      have hops : ∀ op ∈ ops, Permits permit op := fun op' hop' k hk => hop k (.create hop' hk)
      unfold proposalCreateWith
      refine (Traced.Safe.lift fun _ _ => trivial).bind fun _ (_ : True) => ?_
      refine (Traced.Safe.lift fun _ h => h).bind fun required hrequired => ?_
      refine (Traced.Safe.lift fun _ _ => trivial).bind fun _ (_ : True) => ?_
      refine ((hI.transaction (ih _) hops hdb).dry hP).bind fun _ _ => .pure ?_
      exact hI.store db author title memo expirationTime ops review required hdb hrequired hops
    · rename_i o
      exact hI.updated hP (fun d => ih d) (fun d p => hT p fuel d) (hop _ (.update rfl)) hdb
    · refine Traced.Safe.tick.bind fun n _ => ?_
      exact .lift fun db' h => hI.evaluated hop hdb h

end Files

/-! ## Ids -/

/-- Whoever carries the id of `q` requires the same approvals; the id is never handed out
again. -/
def Kin (q : ProposalObject) (db : Db) : Prop :=
  q.id < db.proposals.nextId ∧
    ∀ p ∈ db.proposals.rows, p.id = q.id → p.requiredTotal = q.requiredTotal

/-- The id has been handed out and its proposal is no more. -/
def Gone (id : Nat) (db : Db) : Prop :=
  id < db.proposals.nextId ∧ ∀ p ∈ db.proposals.rows, p.id ≠ id

theorem proposals_of_docket (h : db'.docket = db.docket) : db'.proposals = db.proposals :=
  congrArg ProposalRest.proposals h

theorem approvals_of_docket (h : db'.docket = db.docket) :
    db'.requiredApprovals = db.requiredApprovals :=
  congrArg ProposalRest.approvals h

/-- What `proposal_update` stores. -/
theorem approveProposal_eq {o : ProposalUpdateOperation} {p : ProposalObject}
    (h : db.approveProposal o = .ok (p, db')) :
    ∃ q, db.findProposal o.author o.title = some q ∧ p = updateApprovals o q ∧
      db' = { db with proposals := db.proposals.update (·.key) q.key (updateApprovals o) } := by
  simp only [approveProposal, getProposal, bind_eq_ok, getOrThrow_eq_ok, pure_eq_ok,
    Prod.mk.injEq] at h
  obtain ⟨q, hq, _, -, _, -, _, -, _, -, _, -, _, -, _, -, _, -, _, -, rfl, rfl⟩ := h
  exact ⟨q, hq, rfl, rfl⟩

theorem findProposal_mem {author : AccountName} {title : String} {p : ProposalObject}
    (h : db.findProposal author title = some p) : p ∈ db.proposals.rows ∧ p.key = (author, title) :=
  ⟨Table.get_mem h, Table.get_key h⟩

/-- A property of all rows that approving does not change. -/
theorem all_approved {Q : ProposalObject → Prop} (hQ : ∀ o p, Q p → Q (updateApprovals o p))
    {o : ProposalUpdateOperation} {p : ProposalObject} (hall : ∀ p ∈ db.proposals.rows, Q p)
    (h : db.approveProposal o = .ok (p, db')) : ∀ p ∈ db'.proposals.rows, Q p := by
  obtain ⟨q, -, -, rfl⟩ := approveProposal_eq h
  exact Table.all_update hall fun x _ hx => hQ o x hx

theorem kin_files (q : ProposalObject) :
    Files (fun _ => True) (fun _ => True) (fun _ _ => True) (Kin q) where
  visit _ _ _ _ := trivial
  same db db' h hdb := by
    unfold Kin
    rw [proposals_of_docket h]
    exact hdb
  store db author title memo expirationTime ops review required hdb _ _ := by
    refine ⟨Nat.lt_succ_of_lt hdb.1, fun p hp hid => ?_⟩
    rcases List.mem_append.1 hp with hp | hp
    · exact hdb.2 p hp hid
    · cases List.mem_singleton.1 hp
      exact absurd hid (Nat.ne_of_gt hdb.1)
  approve db o p db' hdb _ h := by
    refine ⟨⟨?_, ?_⟩, trivial, fun _ _ _ _ => trivial⟩
    · obtain ⟨_, -, -, rfl⟩ := approveProposal_eq h
      exact hdb.1
    · exact all_approved (Q := fun p => p.id = q.id → p.requiredTotal = q.requiredTotal)
        (fun _ _ hp => hp) hdb.2 h
  found _ _ _ _ _ _ _ := trivial
  remove db p hdb _ := ⟨hdb.1, fun x hx => hdb.2 x (List.mem_of_mem_eraseP hx)⟩

theorem gone_files (id : Nat) :
    Files (fun _ => True) (fun _ => True) (fun _ _ => True) (Gone id) where
  visit _ _ _ _ := trivial
  same db db' h hdb := by
    unfold Gone
    rw [proposals_of_docket h]
    exact hdb
  store db author title memo expirationTime ops review required hdb _ _ := by
    refine ⟨Nat.lt_succ_of_lt hdb.1, fun p hp => ?_⟩
    rcases List.mem_append.1 hp with hp | hp
    · exact hdb.2 p hp
    · cases List.mem_singleton.1 hp
      exact Nat.ne_of_gt hdb.1
  approve db o p db' hdb _ h := by
    refine ⟨⟨?_, ?_⟩, trivial, fun _ _ _ _ => trivial⟩
    · obtain ⟨_, -, -, rfl⟩ := approveProposal_eq h
      exact hdb.1
    · exact all_approved (Q := fun p => p.id ≠ id) (fun _ _ hp => hp) hdb.2 h
  found _ _ _ _ _ _ _ := trivial
  remove db p hdb _ := ⟨hdb.1, fun x hx => hdb.2 x (List.mem_of_mem_eraseP hx)⟩

theorem trivial_filed (permit : ProposalKey → Prop) (apply : Db → Operation → Run Db) :
    Filed (fun _ => True) permit (fun _ => True) apply :=
  fun _ _ _ _ _ => ⟨fun _ _ => trivial, fun _ _ => trivial⟩

theorem Filed.of_free {permit : ProposalKey → Prop} {I : Db → Prop}
    {apply : Db → Operation → Run Db} (h : Filed (fun _ => True) (fun _ => True) I apply) :
    Filed (fun _ => True) permit I apply :=
  fun db op hdb _ => h db op hdb fun _ _ => trivial

theorem kin_filed (q : ProposalObject) (permit : ProposalKey → Prop) (fuel : Nat)
    (depth : Depth) : Filed (fun _ => True) permit (Kin q) (applyOperation env fuel depth) :=
  ((kin_files q).applied (fun _ _ => trivial) (fun _ _ _ => trivial_filed _ _) fuel depth).of_free

theorem gone_filed (id : Nat) (fuel : Nat) (depth : Depth) :
    Filed (fun _ => True) (fun _ => True) (Gone id) (applyOperation env fuel depth) :=
  (gone_files id).applied (fun _ _ => trivial) (fun _ _ _ => trivial_filed _ _) fuel depth

/-! ## A tidy docket -/

/-- Ids and keys are unique, and every required approval belongs to a stored proposal. -/
structure Tidy (db : Db) : Prop where
  ids : db.proposals.Numbered (·.id)
  keys : db.proposals.Keyed (·.key)
  approvals : ∀ r ∈ db.requiredApprovals.rows, ∃ p ∈ db.proposals.rows,
    p.id = r.proposal ∧ r.account ∈ p.requiredTotal

theorem Tidy.same (hdb : db.Tidy) (h : db'.docket = db.docket) : db'.Tidy := by
  have hproposals := proposals_of_docket h
  have happrovals := approvals_of_docket h
  constructor
  · rw [hproposals]
    exact hdb.ids
  · rw [hproposals]
    exact hdb.keys
  · rw [hproposals, happrovals]
    exact hdb.approvals

/-- Rows for the accounts that have to approve. -/
theorem mem_foldl_approvals {names : List AccountName} {id : Nat}
    {t : Table RequiredApprovalObject} {r : RequiredApprovalObject}
    (h : r ∈ (names.foldl (fun t name => t.create fun row => ⟨row, name, id⟩) t).rows) :
    r ∈ t.rows ∨ (r.account ∈ names ∧ r.proposal = id) := by
  induction names generalizing t with
  | nil => exact .inl h
  | cons name names ih =>
    rcases ih h with h | h
    · rcases List.mem_append.1 h with h | h
      · exact .inl h
      · cases List.mem_singleton.1 h
        exact .inr ⟨List.mem_cons_self, rfl⟩
    · exact .inr ⟨List.mem_cons_of_mem name h.1, h.2⟩

/-- What `proposal_create` stores. -/
theorem storeProposal_eq (db : Db) (author : AccountName) (title memo : String)
    (expirationTime : TimePointSec) (ops : List Operation) (review : Option TimePointSec)
    (required : RequiredAuthorities) :
    ∃ p : ProposalObject, p.id = db.proposals.nextId ∧ p.key = (author, title) ∧
      (db.storeProposal author title memo expirationTime ops review required).proposals =
        db.proposals.create (fun _ => p) ∧
      (db.storeProposal author title memo expirationTime ops review required).requiredApprovals =
        p.requiredTotal.foldl (fun t name => t.create fun row => ⟨row, name, p.id⟩)
          db.requiredApprovals :=
  ⟨_, rfl, rfl, rfl, rfl⟩

/-- `proposal_create` asks for a new key. -/
theorem proposalApprovals_new {author : AccountName} {title : String}
    {expirationTime : TimePointSec} {ops : List Operation} {review : Option TimePointSec}
    {required : RequiredAuthorities}
    (h : db.proposalApprovals author title expirationTime ops review = .ok required) :
    db.findProposal author title = none := by
  simp only [proposalApprovals, bind_eq_ok, fcAssert_eq_ok] at h
  obtain ⟨_, -, _, hnone, -⟩ := h
  exact Option.isNone_iff_eq_none.1 hnone

theorem Tidy.store (hdb : db.Tidy) {author : AccountName} {title memo : String}
    {expirationTime : TimePointSec} {ops : List Operation} {review : Option TimePointSec}
    {required : RequiredAuthorities} (hnone : db.findProposal author title = none) :
    (db.storeProposal author title memo expirationTime ops review required).Tidy := by
  obtain ⟨p, hid, hkey, hproposals, happrovals⟩ :=
    storeProposal_eq db author title memo expirationTime ops review required
  constructor
  · rw [hproposals]
    exact hdb.ids.create_next hid
  · rw [hproposals]
    exact hdb.keys.create hnone hkey
  · rw [hproposals, happrovals]
    intro r hr
    rcases mem_foldl_approvals hr with hr | ⟨haccount, hproposal⟩
    · obtain ⟨q, hq, hqr⟩ := hdb.approvals r hr
      exact ⟨q, List.mem_append_left _ hq, hqr⟩
    · exact ⟨p, List.mem_append_right _ List.mem_cons_self, hproposal.symm, haccount⟩

theorem Tidy.approve (hdb : db.Tidy) {o : ProposalUpdateOperation} {p : ProposalObject}
    (h : db.approveProposal o = .ok (p, db')) : db'.Tidy := by
  obtain ⟨q, -, -, rfl⟩ := approveProposal_eq h
  have hmap {β : Type} (g : ProposalObject → β) (hg : ∀ x, g (updateApprovals o x) = g x) :
      (db.proposals.update (·.key) q.key (updateApprovals o)).rows.map g =
        db.proposals.rows.map g :=
    Table.updateRows_map _ _ _ g hg _
  constructor
  · exact hdb.ids.update _ _ _ fun _ => rfl
  · exact hdb.keys.of_keys (hmap _ fun _ => rfl)
  · intro r hr
    obtain ⟨p, hp, hid, haccount⟩ := hdb.approvals r hr
    have hmem : (p.id, p.requiredTotal) ∈ db.proposals.rows.map fun x => (x.id, x.requiredTotal) :=
      List.mem_map_of_mem hp
    rw [← hmap (fun x => (x.id, x.requiredTotal)) fun _ => rfl] at hmem
    obtain ⟨x, hx, heq⟩ := List.mem_map.1 hmem
    obtain ⟨hxid, hxtotal⟩ := Prod.mk.inj heq
    exact ⟨x, hx, hxid.trans hid, hxtotal ▸ haccount⟩

/-- Found proposals are what their ids stand for. -/
theorem Tidy.kin (hdb : db.Tidy) {p : ProposalObject} (hp : p ∈ db.proposals.rows) : Kin p db := by
  refine ⟨hdb.ids.below p hp, fun q hq hid => ?_⟩
  have hget := hdb.ids.get hq
  rw [hid, hdb.ids.get hp] at hget
  rw [Option.some.inj hget]

theorem Tidy.remove (hdb : db.Tidy) {q : ProposalObject} (hq : Kin q db) :
    (db.removeProposal q).Tidy := by
  constructor
  · exact hdb.ids.erase _ _
  · exact List.Nodup.sublist ((List.eraseP_sublist).map _) hdb.keys
  · intro r hr
    obtain ⟨hr, hkept⟩ := List.mem_filter.1 hr
    obtain ⟨p, hp, hid, haccount⟩ := hdb.approvals r hr
    refine ⟨p, Table.mem_erase_of_ne hp fun hpq => ?_, hid, haccount⟩
    rw [hq.2 p hp hpq] at haccount
    simp [← hid, hpq, haccount] at hkept

/-- **A removed proposal** is gone with all its required approvals. -/
theorem Tidy.removed (hdb : db.Tidy) {q : ProposalObject} (hq : Kin q db) :
    Gone q.id (db.removeProposal q) ∧
      ∀ r ∈ (db.removeProposal q).requiredApprovals.rows, r.proposal ≠ q.id := by
  refine ⟨⟨hq.1, fun p hp => hdb.ids.ne_of_mem_erase hp⟩, fun r hr hid => ?_⟩
  obtain ⟨p, hp, hpr, -⟩ := (hdb.remove hq).approvals r hr
  exact hdb.ids.ne_of_mem_erase hp (hpr.trans hid)

theorem tidy_files (P : Event → Prop) (hP : ∀ db op kept, db.Tidy → P (.operation db op kept)) :
    Files P (fun _ => True) Kin Tidy where
  visit := hP
  same _ _ h hdb := hdb.same h
  store _ _ _ _ _ _ _ _ hdb hrequired _ := hdb.store (proposalApprovals_new hrequired)
  approve db o p db' hdb _ h := by
    refine ⟨hdb.approve h, ?_, fun _ _ _ _ => trivial⟩
    obtain ⟨q, hq, rfl, -⟩ := approveProposal_eq h
    obtain ⟨hmem, -⟩ := findProposal_mem hq
    exact ((kin_files _).approve db o _ db' (hdb.kin hmem) trivial h).1
  found db author title p hdb _ h := hdb.kin (findProposal_mem h).1
  remove _ _ hdb hp := hdb.remove hp

/-! ## Entanglement -/

/-- A stored proposal `k` carries an operation that updates or deletes the proposal `k'`. -/
def Leads (db : Db) (k k' : ProposalKey) : Prop :=
  ∃ p ∈ db.proposals.rows, p.key = k ∧ ∃ op ∈ p.proposedOperations, Operation.Names k' op

/-- Following what stored proposals update and delete never leads from one back to itself. -/
def Untangled (db : Db) : Prop := ∀ k, ¬ Relation.TransGen db.Leads k k

/-- The proposal `p` is stored, and nothing that the permitted proposals carry names it. -/
structure Shielded (permit : ProposalKey → Prop) (p : ProposalObject) (db : Db) : Prop where
  tidy : db.Tidy
  stored : p ∈ db.proposals.rows
  closed : ∀ q ∈ db.proposals.rows, permit q.key → ∀ op ∈ q.proposedOperations, Permits permit op

theorem Tidy.id_ne (hdb : db.Tidy) {p q : ProposalObject} (hp : p ∈ db.proposals.rows)
    (hq : q ∈ db.proposals.rows) (hne : q.key ≠ p.key) : q.id ≠ p.id := by
  intro hid
  have hget := hdb.ids.get hq
  rw [hid, hdb.ids.get hp] at hget
  exact hne (congrArg ProposalObject.key (Option.some.inj hget).symm)

theorem shielded_files {permit : ProposalKey → Prop} {p : ProposalObject}
    (hp : ¬ permit p.key) :
    Files (fun _ => True) permit (fun q db => Kin q db ∧ q.id ≠ p.id) (Shielded permit p) where
  visit _ _ _ _ := trivial
  same db db' h hdb := by
    refine ⟨hdb.tidy.same h, ?_, ?_⟩
    · rw [proposals_of_docket h]
      exact hdb.stored
    · rw [proposals_of_docket h]
      exact hdb.closed
  store db author title memo expirationTime ops review required hdb hrequired hops := by
    refine ⟨hdb.tidy.store (proposalApprovals_new hrequired),
      List.mem_append_left _ hdb.stored, fun q hq hk => ?_⟩
    rcases List.mem_append.1 hq with hq | hq
    · exact hdb.closed q hq hk
    · cases List.mem_singleton.1 hq
      exact hops
  approve db o q db' hdb ho h := by
    have htidy := hdb.tidy.approve h
    have hkin := ((tidy_files (fun _ => True) fun _ _ _ _ => trivial).approve db o q db' hdb.tidy
      trivial h).2.1
    have hclosed := all_approved (Q := fun q => permit q.key → ∀ op ∈ q.proposedOperations,
      Permits permit op) (fun _ _ hq => hq) hdb.closed h
    obtain ⟨r, hr, rfl, rfl⟩ := approveProposal_eq h
    obtain ⟨hmem, hkey⟩ := findProposal_mem hr
    have hpermit : permit r.key := hkey ▸ ho
    have hne : r.key ≠ p.key := fun heq => hp (heq ▸ hpermit)
    have hid : r.id ≠ p.id := hdb.tidy.id_ne hdb.stored hmem hne
    exact ⟨⟨htidy, Table.mem_update_of_ne hdb.stored hne.symm, hclosed⟩, ⟨hkin, hid⟩,
      hdb.closed r hmem hpermit⟩
  found db author title q hdb ho h := by
    obtain ⟨hmem, hkey⟩ := findProposal_mem h
    have hne : q.key ≠ p.key := fun heq => hp (heq ▸ hkey ▸ ho)
    exact ⟨hdb.tidy.kin hmem, hdb.tidy.id_ne hdb.stored hmem hne⟩
  remove db q hdb hq :=
    ⟨hdb.tidy.remove hq.1, Table.mem_erase_of_ne hdb.stored (Ne.symm hq.2), fun r hr =>
      hdb.closed r (List.mem_of_mem_eraseP hr)⟩

/-- **A shielded proposal** stays, whatever permitted operations do. -/
theorem shielded_filed {permit : ProposalKey → Prop} {p : ProposalObject}
    (hp : ¬ permit p.key) (fuel : Nat) (depth : Depth) :
    Filed (fun _ => True) permit (Shielded permit p) (applyOperation env fuel depth) := by
  refine (shielded_files hp).applied (fun _ _ => trivial) (fun q fuel depth => ?_) fuel depth
  intro db op hdb hop
  refine (kin_filed q permit fuel depth db op hdb.1 hop).mono fun db' hdb' => ⟨hdb', hdb.2⟩

/-- The proposals that `p` leads to are closed under what they carry. -/
theorem Tidy.shielded (htidy : db.Tidy) {p : ProposalObject}
    (hp : p ∈ db.proposals.rows) :
    Shielded (fun k => Relation.TransGen db.Leads p.key k) p db ∧
      ∀ op ∈ p.proposedOperations, Permits (fun k => Relation.TransGen db.Leads p.key k) op := by
  refine ⟨⟨htidy, hp, fun q hq hreach op hop k hk => ?_⟩, fun op hop k hk => ?_⟩
  · exact hreach.tail ⟨q, hq, rfl, op, hop, hk⟩
  · exact .single ⟨p, hp, rfl, op, hop, hk⟩

/-! ## Executions -/

/-- All operations of `p` were applied in their order, `p` was still stored when it was
removed, and it is gone with all its required approvals. -/
structure Executed (apply : Db → Operation → Run Db) (db : Db) (p : ProposalObject) (db' : Db) :
    Prop where
  applied : ∃ n db₁, (p.proposedOperations.foldlM apply db n).2 = .ok db₁ ∧
    p ∈ db₁.proposals.rows ∧ db' = db₁.removeProposal p
  gone : Gone p.id db'
  approvals : ∀ r ∈ db'.requiredApprovals.rows, r.proposal ≠ p.id

/-- The first operation is applied to the state that the execution starts from. -/
theorem foldlM_event {fuel : Nat} {depth : Depth} {op : Operation} {ops : List Operation}
    {n : Nat} (h : ((op :: ops).foldlM (applyOperation env fuel depth) db n).2 = .ok db') :
    .operation db op true ∈ ((op :: ops).foldlM (applyOperation env fuel depth) db n).1 := by
  rw [List.foldlM_cons] at h ⊢
  obtain ⟨db₁, hfirst, -, htrace⟩ := Traced.bind_eq_ok h
  rw [htrace]
  refine List.mem_append_left _ ?_
  cases fuel with
  | zero => cases hfirst
  | succ fuel =>
    unfold applyOperation at hfirst ⊢
    obtain ⟨_, -, -, htrace'⟩ := Traced.bind_eq_ok hfirst
    rw [htrace']
    exact List.mem_cons_self

/-- **Executing** a proposal where nothing is entangled. -/
theorem pushProposal_executed {fuel : Nat} {depth : Depth} {p : ProposalObject} {n : Nat}
    (htidy : db.Tidy) (huntangled : p.proposedOperations ≠ [] → db.Untangled)
    (hp : p ∈ db.proposals.rows)
    (h : (pushProposalWith (applyOperation env fuel depth) db p n).2 = .ok db') :
    Executed (applyOperation env fuel depth) db p db' := by
  unfold pushProposalWith at h
  obtain ⟨db₁, hfold, hremove, -⟩ := Traced.bind_eq_ok h
  have heq : db' = db₁.removeProposal p := (Except.ok.inj hremove).symm
  have hdb₁ : db₁.Tidy ∧ p ∈ db₁.proposals.rows := by
    by_cases hnil : p.proposedOperations = []
    · rw [hnil] at hfold
      cases hfold
      exact ⟨htidy, hp⟩
    · obtain ⟨hshield, hops⟩ := htidy.shielded hp
      have hrun := (@shielded_filed env _ _ (huntangled hnil p.key) fuel depth).foldlM hops
        hshield n
      exact ⟨(hrun.2 db₁ hfold).tidy, (hrun.2 db₁ hfold).stored⟩
  obtain ⟨hgone, happrovals⟩ := hdb₁.1.removed (hdb₁.1.kin hdb₁.2)
  rw [heq]
  exact ⟨⟨n, db₁, hfold, hdb₁.2, rfl⟩, hgone, happrovals⟩

/-- What becomes of a proposal that is approved: it is executed, or no effect of its operations
remains. -/
def Updated (env : Env) (fuel : Nat) (db : Db) (o : ProposalUpdateOperation) (db' : Db) : Prop :=
  ∃ p db₁, db.approveProposal o = .ok (p, db₁) ∧
    ((∃ depth, Executed (applyOperation env fuel depth) db₁ p db') ∨ db' = db₁ ∨
      db' = db₁.removeProposal p)

/-- What becomes of a proposal that expires. -/
def Expired (env : Env) (fuel : Nat) (db : Db) (p : ProposalObject) (db' : Db) : Prop :=
  db.dueProposal = some p ∧
    (Executed (applyOperation env fuel {}) db p db' ∨ db' = db.removeProposal p)

/-- Approving changes neither keys nor operations. -/
theorem Untangled.approve (hdb : db.Untangled) {o : ProposalUpdateOperation} {p : ProposalObject}
    (h : db.approveProposal o = .ok (p, db')) : db'.Untangled := by
  have hleads : ∀ k k', db'.Leads k k' → db.Leads k k' := by
    rintro k k' ⟨q, hq, hkey, op, hop, hnames⟩
    have hall := @all_approved db _ (fun q => ∃ r ∈ db.proposals.rows, r.key = q.key ∧
      r.proposedOperations = q.proposedOperations) (fun _ _ hq => hq) _ _
      (fun q hq => ⟨q, hq, rfl, rfl⟩) h
    obtain ⟨r, hr, hrkey, hrops⟩ := hall q hq
    exact ⟨r, hr, hrkey.trans hkey, op, hrops ▸ hop, hnames⟩
  exact fun k hk => hdb k (Relation.TransGen.mono hleads k k hk)

theorem approveProposal_stored {o : ProposalUpdateOperation} {p : ProposalObject}
    (h : db.approveProposal o = .ok (p, db')) : p ∈ db'.proposals.rows := by
  obtain ⟨q, hq, rfl, rfl⟩ := approveProposal_eq h
  have hget := Table.get_update_same db.proposals (·.key) q.key (updateApprovals o) fun _ => rfl
  obtain ⟨-, hkey⟩ := findProposal_mem hq
  have hfound : db.proposals.get (·.key) q.key = some q := hkey ▸ hq
  rw [hfound, Option.map_some] at hget
  exact Table.get_mem hget

/-- How an attempt to execute ends. -/
theorem attempted_executed {fuel : Nat} {depth : Depth} {p : ProposalObject} {n : Nat}
    {db₁ : Db} (htidy : db.Tidy) (huntangled : ∀ d,
      (pushProposalWith (applyOperation env fuel depth) db p n).2 = .ok d →
      p.proposedOperations ≠ [] → db.Untangled)
    (hp : p ∈ db.proposals.rows) {r : Result Db}
    (hr : r = (pushProposalWith (applyOperation env fuel depth) db p n).2)
    (h : afterAttempt db₁ r = .ok db') :
    Executed (applyOperation env fuel depth) db p db' ∨ db' = db₁ := by
  cases r with
  | ok d =>
    cases h
    exact .inl (pushProposal_executed htidy (huntangled db' hr.symm) hp hr.symm)
  | error e =>
    cases e with
    | outOfFuel => cases h
    | _ =>
      cases h
      exact .inr rfl

/-- **Approvals** execute a proposal wholly or not at all. -/
theorem proposalUpdate_updated {fuel : Nat} {depth : Depth} {o : ProposalUpdateOperation}
    {n : Nat} (htidy : db.Tidy) (huntangled : db.Untangled)
    (h : (applyOperation env (fuel + 1) depth db (.proposalUpdate o) n).2 = .ok db') :
    Updated env fuel db o db' := by
  unfold applyOperation at h
  obtain ⟨_, -, h, -⟩ := Traced.bind_eq_ok h
  simp only [evaluateWith, proposalUpdateWith] at h
  obtain ⟨_, -, h, -⟩ := Traced.bind_eq_ok h
  obtain ⟨⟨p, db₁⟩, happrove, h, -⟩ := Traced.bind_eq_ok h
  refine ⟨p, db₁, happrove, ?_⟩
  have hstored := approveProposal_stored happrove
  cases hreview : p.reviewPeriodTime with
  | some review =>
    simp only [hreview] at h
    cases h
    unfold reviewProposal
    split
    · exact .inr (.inr rfl)
    · exact .inr (.inl rfl)
  | none =>
    simp only [hreview] at h
    obtain ⟨_, -, h, -⟩ := Traced.bind_eq_ok h
    split at h
    · obtain ⟨r, hattempt, h, -⟩ := Traced.bind_eq_ok h
      obtain ⟨hr, -⟩ := Traced.attempt_eq_ok hattempt
      rcases attempted_executed (htidy.approve happrove)
        (fun _ _ _ => huntangled.approve happrove) hstored hr h with hdone | hsame
      · exact .inl ⟨_, hdone⟩
      · exact .inr (.inl hsame)
    · cases h
      exact .inr (.inl rfl)

end Db

/-- Nothing is entangled when the operation is applied. -/
def Event.Untangled : Event → Prop
  | .operation db _ _ => db.Untangled
  | .step _ _ _ _ => True

theorem Event.Untangled.undone {e : Event} (h : e.Untangled) : e.undone.Untangled := by
  cases e <;> exact h

/-- The state of an event is tidy. -/
def Event.Tidy : Event → Prop
  | .operation db _ _ => db.Tidy
  | .step db _ _ _ => db.Tidy

theorem Event.Tidy.undone {e : Event} (h : e.Tidy) : e.undone.Tidy := by
  cases e <;> exact h

namespace Db

variable {env : Env} {skip : Skip} {db db' : Db}

/-- **One pass** of `clear_expired_proposals`. -/
theorem clearProposal_expired {fuel : Nat} {p : ProposalObject} {n : Nat} (htidy : db.Tidy)
    (hevents : ∀ e ∈ (clearProposalWith (applyOperation env fuel {}) db p n).1, e.Untangled)
    (hdue : db.dueProposal = some p)
    (h : (clearProposalWith (applyOperation env fuel {}) db p n).2 = .ok db') :
    Expired env fuel db p db' := by
  refine ⟨hdue, ?_⟩
  unfold clearProposalWith at h hevents
  split at h
  · rename_i hauthorized
    rw [if_pos hauthorized] at hevents
    obtain ⟨r, hattempt, h, htrace⟩ := Traced.bind_eq_ok h
    obtain ⟨hr, hkept⟩ := Traced.attempt_eq_ok hattempt
    refine attempted_executed htidy (fun d hd hne => ?_) (dueProposal_mem hdue) hr h
    -- the first operation was applied in this very state
    obtain ⟨op, ops, hops⟩ := List.exists_cons_of_ne_nil hne
    have hpush := hd
    unfold pushProposalWith at hpush
    obtain ⟨db₁, hfold, -, hfirst⟩ := Traced.bind_eq_ok hpush
    rw [hops] at hfold hfirst
    have hmem : .operation db op true ∈
        (pushProposalWith (applyOperation env fuel {}) db p n).1 := by
      unfold pushProposalWith
      rw [hops, hfirst]
      exact List.mem_append_left _ (foldlM_event hfold)
    refine hevents (.operation db op true) ?_
    rw [htrace, hkept d (hr.trans hd)]
    exact List.mem_append_left _ hmem
  · cases h
    exact .inr rfl

/-- Every pass keeps the property. -/
theorem Files.cleared {P : Event → Prop} {T : ProposalObject → Db → Prop} {I : Db → Prop}
    (hI : Files P (fun _ => True) T I) (hP : ∀ e, P e → P e.undone)
    (hT : ∀ p fuel depth, Filed (fun _ => True) (fun _ => True) (T p)
      (applyOperation env fuel depth))
    (hfound : ∀ db p, I db → p ∈ db.proposals.rows → T p db) {fuel : Nat} {p : ProposalObject}
    (hp : p ∈ db.proposals.rows) (hdb : I db) :
    Traced.Safe P (clearProposalWith (applyOperation env fuel {}) db p) I := by
  have hremoved := hI.remove db p hdb (hfound db p hdb hp)
  unfold clearProposalWith
  split
  · have hpush := hI.pushed (hI.applied hP hT fuel {}) (fun q => hT q fuel {})
      (fun _ _ _ _ => trivial) hdb (hfound db p hdb hp)
    exact (hpush.attempt hP).bind fun r hr => afterAttempt_safe hremoved hr
  · exact .pure hremoved

theorem Files.clearedAll {P : Event → Prop} {T : ProposalObject → Db → Prop} {I : Db → Prop}
    (hI : Files P (fun _ => True) T I) (hP : ∀ e, P e → P e.undone)
    (hT : ∀ p fuel depth, Filed (fun _ => True) (fun _ => True) (T p)
      (applyOperation env fuel depth))
    (hfound : ∀ db p, I db → p ∈ db.proposals.rows → T p db) (fuel : Nat) (hdb : I db) :
    Traced.Safe P (clearExpiredProposals env fuel db) I := by
  unfold clearExpiredProposals
  generalize db.proposals.rows.length + 1 = m
  induction m generalizing db with
  | zero => exact .lift fun _ h => nomatch h
  | succ m ih =>
    unfold clearExpiredProposalsWith
    split
    · exact .pure hdb
    · rename_i p hdue
      exact (hI.cleared hP hT hfound (dueProposal_mem hdue) hdb).bind fun _ h => ih h

/-- **Expiry** is a sequence of passes, each of which executes a proposal or drops it. -/
theorem clearExpiredProposals_expired {fuel n : Nat} (htidy : db.Tidy)
    (hevents : ∀ e ∈ (clearExpiredProposals env fuel db n).1, e.Untangled)
    (h : (clearExpiredProposals env fuel db n).2 = .ok db') :
    Relation.ReflTransGen (fun a b => ∃ p, Expired env fuel a p b) db db' := by
  unfold clearExpiredProposals at h hevents
  generalize db.proposals.rows.length + 1 = m at h hevents
  induction m generalizing db n with
  | zero => cases h
  | succ m ih =>
    unfold clearExpiredProposalsWith at h hevents
    cases hdue : db.dueProposal with
    | none =>
      rw [hdue] at h
      cases h
      exact .refl
    | some p =>
      rw [hdue] at h hevents
      obtain ⟨db₁, hpass, hrest, htrace⟩ := Traced.bind_eq_ok h
      rw [htrace] at hevents
      have hexpired := clearProposal_expired htidy
        (fun e he => hevents e (List.mem_append_left _ he)) hdue hpass
      have htidy₁ : db₁.Tidy :=
        ((tidy_files Event.Tidy fun _ _ _ h => h).cleared (fun _ h => h.undone)
          (fun p fuel depth => kin_filed p _ fuel depth) (fun _ _ h hp => h.kin hp)
          (dueProposal_mem hdue) htidy n).2 db₁ hpass
      exact .head ⟨p, hexpired⟩
        (ih htidy₁ hrest fun e he => hevents e (List.mem_append_right _ he))

end Db

/-! ## Blocks -/

namespace Store

variable {env : Env} {s : Store} {P : Event → Prop} {T : ProposalObject → Db → Prop}
  {I : Db → Prop}

/-- What transactions, expired proposals and steps keep, a block keeps. -/
theorem applyBlock_rule {fuel : Nat} {skip : Skip} {b : SignedBlock} (hfinal : KeepsFinality I)
    (hvisit : ∀ db st, I db → P (.step db b st true))
    (hstep : ∀ db st db', I db → BlockStep.run env skip b db st = .ok db' → I db')
    (htransaction : ∀ trx db, I db → Traced.Safe P (Db.applyTransaction env fuel skip db trx) I)
    (hexpired : ∀ db, I db → Traced.Safe P (Db.clearExpiredProposals env fuel db) I)
    (hdb : I s.db) : Traced.Safe P (s.applyBlock env fuel skip b) fun t => I t.db := by
  have hrun (t : Store) (st : BlockStep) (ht : I t.db) :
      Traced.Safe P (t.step env skip b st) fun u => I u.db := by
    refine Traced.Safe.mapBoth (Q := I) ?_ fun _ ha => ha
    refine (Traced.Safe.report (hvisit t.db st ht)).bind fun _ _ => ?_
    exact .lift fun d h => hstep t.db st d ht h
  unfold applyBlock
  refine (hrun s .openBlock hdb).bind fun s₁ h₁ => ?_
  refine Traced.Safe.bind (Q := fun t : Store => I t.db) (Traced.Safe.mapBoth (Q := I)
    (Traced.Safe.foldlM I _ b.transactions (fun trx _ d hd => htransaction trx d hd) s₁.db h₁)
    fun _ ha => ha) fun s₂ h₂ => ?_
  refine (hrun s₂ .updateGlobalDynamicData h₂).bind fun s₃ h₃ => ?_
  refine (hrun s₃ .updateSigningWitness h₃).bind fun s₄ h₄ => ?_
  refine Traced.Safe.bind (Q := fun t : Store => I t.db)
    (.lift fun s₅ h => updateLastIrreversibleBlock_keeps hfinal h₄ h) fun s₅ h₅ => ?_
  refine (hrun s₅ .createBlockSummary h₅).bind fun s₆ h₆ => ?_
  refine Traced.Safe.bind (Q := fun t : Store => I t.db) (Traced.Safe.mapBoth (Q := I)
    (hexpired s₆.db h₆) fun _ ha => ha) fun s₇ h₇ => ?_
  refine (Traced.Safe.foldlM (fun t : Store => I t.db) _ closingSteps
    (fun st _ t ht => hrun t st ht) s₇ h₇).bind fun s₈ h₈ => ?_
  refine Traced.Safe.bind (Q := fun t : Store => I t.db)
    (.lift fun s₉ h => checkBlockPostValidationChain_keeps hfinal h₈ h) fun s₉ h₉ => ?_
  exact .pure (hfinal.postValidations s₉.db _ h₉)

/-- **Blocks** keep what filing keeps. -/
theorem applyBlock_safe (hI : Db.Files P (fun _ => True) T I) (hP : ∀ e, P e → P e.undone)
    (hT : ∀ p fuel depth, Db.Filed (fun _ => True) (fun _ => True) (T p)
      (Db.applyOperation env fuel depth))
    (hfound : ∀ db p, I db → p ∈ db.proposals.rows → T p db)
    (hvisit : ∀ db b st kept, I db → P (.step db b st kept)) (fuel : Nat) (skip : Skip)
    (b : SignedBlock) (hdb : I s.db) :
    Traced.Safe P (s.applyBlock env fuel skip b) fun t => I t.db := by
  have hfinal : KeepsFinality I :=
    ⟨fun db _ _ h => hI.same db _ rfl h, fun db _ h => hI.same db _ rfl h⟩
  refine applyBlock_rule hfinal (fun db st h => hvisit db b st true h) ?_ ?_ ?_ hdb
  · exact fun db st db' h hrun => hI.same db db' (Db.run_docket hrun) h
  · intro trx db h
    exact hI.transaction (hI.applied hP hT fuel {}) (fun _ _ _ _ => trivial) h
  · exact fun db h => hI.clearedAll hP hT hfound fuel h

theorem applyBlocks_safe (hI : Db.Files P (fun _ => True) T I) (hP : ∀ e, P e → P e.undone)
    (hT : ∀ p fuel depth, Db.Filed (fun _ => True) (fun _ => True) (T p)
      (Db.applyOperation env fuel depth))
    (hfound : ∀ db p, I db → p ∈ db.proposals.rows → T p db)
    (hvisit : ∀ db b st kept, I db → P (.step db b st kept)) (fuel : Nat) (skip : Skip)
    (bs : List SignedBlock) (hdb : I s.db) :
    Traced.Safe P (s.applyBlocks env fuel skip bs) fun t => I t.db :=
  Traced.Safe.foldlM (fun t : Store => I t.db) _ bs
    (fun b _ _ ht => applyBlock_safe hI hP hT hfound hvisit fuel skip b ht) s hdb

end Store

/-! ## Proposals execute at most once -/

/-- What holds of the execution of proposals, in every run whose operations are applied where
nothing is entangled. -/
structure ExecutesOnce (env : Env) : Prop where
  /-- every state that a run of blocks meets is tidy -/
  visits : ∀ fuel skip (s : Store) bs n, s.db.Tidy →
    ∀ e ∈ (s.applyBlocks env fuel skip bs n).1, e.Tidy
  reaches : ∀ fuel skip (s : Store) bs n s', s.db.Tidy →
    (s.applyBlocks env fuel skip bs n).2 = .ok s' → s'.db.Tidy
  /-- an approval executes the proposal wholly, or no effect of its operations remains -/
  update : ∀ fuel depth db o n db', db.Tidy → db.Untangled →
    (Db.applyOperation env (fuel + 1) depth db (.proposalUpdate o) n).2 = .ok db' →
    db.Updated env fuel o db'
  /-- and so does every pass over the proposals that expire -/
  expiry : ∀ fuel db n db', db.Tidy →
    (∀ e ∈ (Db.clearExpiredProposals env fuel db n).1, e.Untangled) →
    (Db.clearExpiredProposals env fuel db n).2 = .ok db' →
    Relation.ReflTransGen (fun a b => ∃ p, Db.Expired env fuel a p b) db db'
  /-- what has been executed is never executed again -/
  once : ∀ id, (∀ fuel depth db op n db', Db.Gone id db →
      (Db.applyOperation env fuel depth db op n).2 = .ok db' → Db.Gone id db') ∧
    ∀ fuel skip (s : Store) bs n s', Db.Gone id s.db →
      (s.applyBlocks env fuel skip bs n).2 = .ok s' → Db.Gone id s'.db

/-- **Proposals** that are not entangled execute at most once and wholly or not at all, and are
still stored when `push_proposal` removes them. -/
theorem proposals_execute_once (env : Env) : ExecutesOnce env := by
  have htidy (fuel : Nat) (skip : Skip) (s : Store) (bs : List SignedBlock) (hdb : s.db.Tidy) :=
    @Store.applyBlocks_safe env _ _ _ _ (Db.tidy_files Event.Tidy fun _ _ _ h => h)
      (fun _ h => h.undone) (fun p fuel depth => Db.kin_filed p _ fuel depth)
      (fun _ _ h hp => h.kin hp) (fun _ _ _ _ h => h) fuel skip bs hdb
  have hgone (id fuel : Nat) (skip : Skip) (s : Store) (bs : List SignedBlock)
      (hdb : Db.Gone id s.db) :=
    @Store.applyBlocks_safe env _ _ _ _ (Db.gone_files id) (fun _ _ => trivial)
      (fun _ _ _ => Db.trivial_filed _ _) (fun _ _ _ _ => trivial) (fun _ _ _ _ _ => trivial) fuel
      skip bs hdb
  constructor
  · exact fun fuel skip s bs n hdb => (htidy fuel skip s bs hdb n).1
  · exact fun fuel skip s bs n s' hdb h => (htidy fuel skip s bs hdb n).2 s' h
  · exact fun fuel depth db o n db' hdb hun h => Db.proposalUpdate_updated hdb hun h
  · exact fun fuel db n db' hdb hevents h => Db.clearExpiredProposals_expired hdb hevents h
  · refine fun id => ⟨fun fuel depth db op n db' hdb h => ?_, fun fuel skip s bs n s' hdb h => ?_⟩
    · exact (Db.gone_filed id fuel depth db op hdb (fun _ _ => trivial) n).2 db' h
    · exact (hgone id fuel skip s bs hdb n).2 s' h

/-- alice approves the proposal with her active authority. -/
def aliceApproves (title : String) : ProposalUpdateOperation :=
  ⟨"alice", title, ["alice"], [], [], [], [], [], [], []⟩

/-- Nothing is stored but proposals of transfers. -/
def transfersOnly (db : Db) : Bool :=
  db.proposals.rows.all fun p => p.proposedOperations.all fun op =>
    match op with
    | .transfer _ => true
    | _ => false

theorem untangled_of_transfersOnly {db : Db} (h : transfersOnly db = true) : db.Untangled := by
  have hnone (k k' : ProposalKey) : ¬ db.Leads k k' := by
    rintro ⟨p, hp, -, op, hop, hnames⟩
    have hop' := List.all_eq_true.1 (List.all_eq_true.1 h p hp) op hop
    cases hnames <;> cases hop'
  intro k hk
  cases hk with
  | single hstep => exact hnone _ _ hstep
  | tail _ hstep => exact hnone _ _ hstep

/-- alice proposes a transfer to bob, and then approves it. -/
def payOps : List Operation :=
  [.proposalCreate "alice" "pay" "" 100 [.transfer ⟨"alice", "bob", ⟨1, tokenSymbol⟩, ""⟩] none,
    .proposalUpdate (aliceApproves "pay")]

def paysApproved (e : Event) : Bool :=
  match e with
  | .operation db (.proposalUpdate o) true =>
    transfersOnly db && returns (Db.applyOperation smallEnv 4 {} db (.proposalUpdate o) 0).2
      fun _ => true
  | _ => false

/-- The transfer is executed when it is approved, and never again, whatever blocks follow. -/
theorem proposals_execute_once_pay :
    ∃ db o db' s, .operation db (.proposalUpdate o) true ∈
        ((smallStore [{ id := 4, name := "bob" }]).applyBlocks smallEnv 6 { merkleCheck := true }
          [smallBlock payOps] 0).1 ∧
      (Db.applyOperation smallEnv 4 {} db (.proposalUpdate o) 0).2 = .ok db' ∧
      db.Updated smallEnv 3 o db' ∧
      ((smallStore [{ id := 4, name := "bob" }]).applyBlocks smallEnv 6 { merkleCheck := true }
        [smallBlock payOps] 0).2 = .ok s ∧
      s.db.accounts.field (·.name) (·.balance) "bob" = 1 ∧
      ∀ fuel skip bs n s', (s.applyBlocks smallEnv fuel skip bs n).2 = .ok s' →
        Db.Gone 0 s'.db := by
  have hany : ((smallStore [{ id := 4, name := "bob" }]).applyBlocks smallEnv 6
      { merkleCheck := true } [smallBlock payOps] 0).1.any paysApproved = true := by
    decide +kernel
  have hrun : returns ((smallStore [{ id := 4, name := "bob" }]).applyBlocks smallEnv 6
      { merkleCheck := true } [smallBlock payOps] 0).2 (fun s =>
        decide (0 < s.db.proposals.nextId ∧ s.db.accounts.field (·.name) (·.balance) "bob" = 1) &&
          s.db.proposals.rows.isEmpty) = true := by
    decide +kernel
  have hstart : (smallStore [{ id := 4, name := "bob" }]).db.Tidy :=
    ⟨⟨List.nodup_nil, fun _ hp => nomatch hp⟩, List.nodup_nil, fun _ hr => nomatch hr⟩
  obtain ⟨e, he, hpays⟩ := List.any_eq_true.1 hany
  have htidy := (proposals_execute_once smallEnv).visits _ _ _ _ _ hstart e he
  obtain ⟨s, hs, hfacts⟩ := returns_eq_true hrun
  rw [Bool.and_eq_true, decide_eq_true_eq, List.isEmpty_iff] at hfacts
  have hgone : Db.Gone 0 s.db := by
    refine ⟨hfacts.1.1, fun p hp => ?_⟩
    rw [hfacts.2] at hp
    cases hp
  unfold paysApproved at hpays
  split at hpays
  · rename_i db o
    rw [Bool.and_eq_true] at hpays
    obtain ⟨db', hdb', -⟩ := returns_eq_true hpays.2
    refine ⟨db, o, db', s, he, hdb', ?_, hs, hfacts.1.2, ?_⟩
    · exact (proposals_execute_once smallEnv).update 3 {} db o 0 db' htidy
        (untangled_of_transfersOnly hpays.1) hdb'
    · exact fun fuel skip bs n s' h =>
        ((proposals_execute_once smallEnv).once 0).2 fuel skip s bs n s' hgone h
  · cases hpays

/-- While a first proposal `pay` exists, `drop` is proposed, which deletes `pay`.  Then `pay` is
proposed anew: it approves `drop`. -/
def entangledOps : List Operation :=
  [.proposalCreate "alice" "pay" "" 100
      [.transfer ⟨"alice", "bob", ⟨1, tokenSymbol⟩, ""⟩] none,
    .proposalCreate "alice" "drop" "" 100 [.proposalDelete ⟨"alice", "pay", "alice"⟩] none,
    .proposalDelete ⟨"alice", "pay", "alice"⟩,
    .proposalCreate "alice" "pay" "" 100 [.proposalUpdate (aliceApproves "drop")] none,
    .proposalUpdate (aliceApproves "pay")]

/-- The operations of a proposal that is approved all return, and the proposal is gone. -/
def losesProposal (e : Event) : Bool :=
  match e with
  | .operation db (.proposalUpdate o) true =>
    returns (db.approveProposal o) fun r => r.1.isAuthorizedToExecute r.2 &&
      returns (r.1.proposedOperations.foldlM (Db.applyOperation smallEnv 4 {}) r.2 0).2 fun d =>
        d.proposals.rows.all fun q => q.id ≠ r.1.id
  | _ => false

/-- **A dangling reference**: in one block, `pay` is executed, its operation executes `drop`, and
`drop` deletes `pay` before `push_proposal` removes it. -/
theorem executed_proposal_deleted :
    ∃ db o p db₁ db₂, .operation db (.proposalUpdate o) true ∈
      ((smallStore [{ id := 4, name := "bob" }]).applyBlocks smallEnv 6 { merkleCheck := true }
        [smallBlock entangledOps] 0).1 ∧
      db.approveProposal o = .ok (p, db₁) ∧ p.isAuthorizedToExecute db₁ = true ∧
      (p.proposedOperations.foldlM (Db.applyOperation smallEnv 4 {}) db₁ 0).2 = .ok db₂ ∧
      ∀ q ∈ db₂.proposals.rows, q.id ≠ p.id := by
  have hany : ((smallStore [{ id := 4, name := "bob" }]).applyBlocks smallEnv 6
      { merkleCheck := true } [smallBlock entangledOps] 0).1.any losesProposal = true := by
    decide +kernel
  obtain ⟨e, he, hloses⟩ := List.any_eq_true.1 hany
  unfold losesProposal at hloses
  split at hloses
  · rename_i db o
    obtain ⟨⟨p, db₁⟩, happrove, hrest⟩ := returns_eq_true hloses
    rw [Bool.and_eq_true] at hrest
    obtain ⟨db₂, hfold, hgone⟩ := returns_eq_true hrest.2
    refine ⟨db, o, p, db₁, db₂, he, happrove, hrest.1, hfold, fun q hq => ?_⟩
    simpa using List.all_eq_true.1 hgone q hq
  · cases hloses

end VizCore.Chain
