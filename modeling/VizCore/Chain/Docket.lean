import VizCore.Lib.Select
import VizCore.Chain.Execution
import VizCore.Chain.Halting
import VizCore.Chain.Replay

/-!
# The books about proposals

Every account whose approval a stored proposal requires has one `required_approval` object for
it, and there are no others.  Proposals that expire are executed or dropped until none is due;
the operations of one that is executed may execute, create and delete others meanwhile.

* `Booked`: the required approvals are exactly those of the stored proposals;
* `Grounded`: following what proposals and the proposals that they create update and delete
  never leads back;
* `applyOperation_settles`: an operation that names proposals of a bounded rank only needs
  bounded fuel;
* `clearExpiredProposals_clears`: where the docket is grounded, expiry ends and leaves nothing
  due.
-/

namespace VizCore.Chain

open VizCore.Lib VizCore.Protocol

/-! ## Sets of names -/

theorem mem_insertNames (a : AccountName) (names l : List AccountName) :
    a ∈ insertNames names l ↔ a ∈ names ∨ a ∈ l :=
  mem_foldl_insertName a names l

theorem insertName_sorted {l : List AccountName} (hl : l.Pairwise (· < ·)) (name : AccountName) :
    (insertName name l).Pairwise (· < ·) := by
  induction l with
  | nil => simp [insertName]
  | cons n rest ih =>
    obtain ⟨hn, hrest⟩ := List.pairwise_cons.1 hl
    unfold insertName
    split
    · exact hl
    · split
      · rename_i hlt
        refine List.pairwise_cons.2 ⟨fun m hm => ?_, hl⟩
        rcases List.mem_cons.1 hm with rfl | hm
        · exact hlt
        · exact String.lt_trans hlt (hn m hm)
      · rename_i hne hnlt
        refine List.pairwise_cons.2 ⟨fun m hm => ?_, ih hrest⟩
        rcases (mem_insertName m name rest).1 hm with rfl | hm
        · by_contra hle
          exact hne (String.le_antisymm hle (String.not_lt.1 hnlt))
        · exact hn m hm

theorem insertNames_sorted {l : List AccountName} (hl : l.Pairwise (· < ·))
    (names : List AccountName) : (insertNames names l).Pairwise (· < ·) := by
  unfold insertNames
  induction names generalizing l with
  | nil => exact hl
  | cons n names ih => exact ih (insertName_sorted hl n)

namespace ProposalObject

variable (p : ProposalObject)

theorem requiredTotal_nodup : p.requiredTotal.Nodup := by
  have hsorted : p.requiredTotal.Pairwise (· < ·) :=
    insertNames_sorted (insertNames_sorted (insertNames_sorted .nil _) _) _
  have hne (a b : AccountName) (hlt : a < b) : a ≠ b := by
    rintro rfl
    exact String.lt_irrefl a hlt
  exact hsorted.imp (hne _ _)

theorem mem_requiredTotal (a : AccountName) : a ∈ p.requiredTotal ↔
    a ∈ p.requiredRegularApprovals ∨ a ∈ p.requiredMasterApprovals ∨
      a ∈ p.requiredActiveApprovals := by
  simp [requiredTotal, mem_insertNames]

end ProposalObject

namespace RequiredApprovalObject

/-- The index `by_account`. -/
def key (r : RequiredApprovalObject) : AccountName × Nat := (r.account, r.proposal)

end RequiredApprovalObject

namespace Db

variable {env : Env} {skip : Skip} {db db' : Db}

/-! ## Exact books -/

/-- The required approvals are exactly the pairs of a stored proposal and an account that has
to approve it, each of them once, and every stored proposal requires one. -/
structure Booked (db : Db) : Prop extends Tidy db where
  every : ∀ p ∈ db.proposals.rows, ∀ a ∈ p.requiredTotal,
    (a, p.id) ∈ db.requiredApprovals.rows.map (·.key)
  once : (db.requiredApprovals.rows.map (·.key)).Nodup
  needed : ∀ p ∈ db.proposals.rows, p.requiredTotal ≠ []

theorem Booked.same (hdb : db.Booked) (h : db'.docket = db.docket) : db'.Booked := by
  have hproposals := proposals_of_docket h
  have happrovals := approvals_of_docket h
  refine ⟨hdb.toTidy.same h, ?_, ?_, ?_⟩
  · rw [hproposals, happrovals]
    exact hdb.every
  · rw [happrovals]
    exact hdb.once
  · rw [hproposals]
    exact hdb.needed

/-- The keys of the rows that `proposal_create` adds. -/
theorem keys_foldl_approvals (names : List AccountName) (id : Nat)
    (t : Table RequiredApprovalObject) :
    (names.foldl (fun t name => t.create fun row => ⟨row, name, id⟩) t).rows.map (·.key) =
      t.rows.map (·.key) ++ names.map fun name => (name, id) := by
  induction names generalizing t with
  | nil => simp
  | cons name names ih =>
    rw [List.foldl_cons, ih]
    simp [Table.create, RequiredApprovalObject.key]

/-- `proposal_create` asks for an account that has to approve. -/
theorem proposalApprovals_needed {author : AccountName} {title : String}
    {expirationTime : TimePointSec} {ops : List Operation} {review : Option TimePointSec}
    {required : RequiredAuthorities}
    (h : db.proposalApprovals author title expirationTime ops review = .ok required) :
    db.headBlockTime < expirationTime ∧
      ∃ a, a ∈ required.regular ∨ a ∈ required.master ∨ a ∈ required.active := by
  simp only [proposalApprovals, bind_eq_ok, fcAssert_eq_ok, pure_eq_ok] at h
  obtain ⟨_, -, _, -, _, htime, _, -, _, -, _, -, _, -, _, -, _, -, _, htotal, rfl⟩ := h
  refine ⟨htime, ?_⟩
  obtain ⟨a, ha⟩ := List.exists_mem_of_ne_nil _ htotal
  simp only [mem_insertNames] at ha
  exact ⟨a, by tauto⟩

theorem Booked.store (hdb : db.Booked) {author : AccountName} {title memo : String}
    {expirationTime : TimePointSec} {ops : List Operation} {review : Option TimePointSec}
    {required : RequiredAuthorities}
    (h : db.proposalApprovals author title expirationTime ops review = .ok required) :
    (db.storeProposal author title memo expirationTime ops review required).Booked := by
  obtain ⟨p, hp⟩ : ∃ p : ProposalObject, p =
    { id := db.proposals.nextId, author := author, title := title, memo := memo
      expirationTime := expirationTime, reviewPeriodTime := review, proposedOperations := ops
      requiredActiveApprovals := required.active, requiredMasterApprovals := required.master
      requiredRegularApprovals := required.regular } := ⟨_, rfl⟩
  have hid : p.id = db.proposals.nextId := by rw [hp]
  have hrows : (db.storeProposal author title memo expirationTime ops review required).proposals.rows =
      db.proposals.rows ++ [p] := by rw [hp]; rfl
  have hkeys : (db.storeProposal author title memo expirationTime ops review
      required).requiredApprovals.rows.map (·.key) =
        db.requiredApprovals.rows.map (·.key) ++ p.requiredTotal.map fun a => (a, p.id) := by
    rw [hp]
    exact keys_foldl_approvals _ _ _
  have hneeded : p.requiredTotal ≠ [] := by
    obtain ⟨-, a, ha⟩ := proposalApprovals_needed h
    refine List.ne_nil_of_mem (a := a) ?_
    rw [p.mem_requiredTotal, hp]
    exact ha
  refine ⟨hdb.toTidy.store (proposalApprovals_new h), ?_, ?_, ?_⟩
  · rw [hrows, hkeys]
    intro q hq a ha
    rcases List.mem_append.1 hq with hq | hq
    · exact List.mem_append_left _ (hdb.every q hq a ha)
    · cases List.mem_singleton.1 hq
      exact List.mem_append_right _ (List.mem_map_of_mem ha)
  · rw [hkeys]
    refine List.Nodup.append hdb.once ?_ ?_
    · exact (p.requiredTotal_nodup).map fun _ _ heq => (Prod.mk.inj heq).1
    · -- ids of stored proposals are below the next one
      intro key hold hnew
      obtain ⟨r, hr, rfl⟩ := List.mem_map.1 hold
      obtain ⟨a, -, heq⟩ := List.mem_map.1 hnew
      obtain ⟨q, hq, hqr, -⟩ := hdb.approvals r hr
      have hbelow : q.id < db.proposals.nextId := hdb.ids.below q hq
      have hsame : p.id = r.proposal := (Prod.mk.inj heq).2
      omega
  · rw [hrows]
    intro q hq
    rcases List.mem_append.1 hq with hq | hq
    · exact hdb.needed q hq
    · cases List.mem_singleton.1 hq
      exact hneeded

theorem Booked.approve (hdb : db.Booked) {o : ProposalUpdateOperation} {p : ProposalObject}
    (h : db.approveProposal o = .ok (p, db')) : db'.Booked := by
  have happrovals : db'.requiredApprovals = db.requiredApprovals := by
    obtain ⟨q, -, -, rfl⟩ := approveProposal_eq h
    rfl
  refine ⟨hdb.toTidy.approve h, ?_, ?_, ?_⟩
  · rw [happrovals]
    exact all_approved (Q := fun q => ∀ a ∈ q.requiredTotal,
      (a, q.id) ∈ db.requiredApprovals.rows.map RequiredApprovalObject.key)
      (fun _ _ hq => hq) hdb.every h
  · rw [happrovals]
    exact hdb.once
  · exact all_approved (Q := fun q => q.requiredTotal ≠ []) (fun _ _ hq => hq) hdb.needed h

/-- Removing a proposal drops its own approvals and no other. -/
theorem Booked.remove (hdb : db.Booked) {q : ProposalObject} (hq : Kin q db) :
    (db.removeProposal q).Booked := by
  refine ⟨hdb.toTidy.remove hq, ?_, ?_, ?_⟩
  · intro p hp a ha
    have hne : p.id ≠ q.id := hdb.ids.ne_of_mem_erase hp
    obtain ⟨r, hr, hkey⟩ := List.mem_map.1 (hdb.every p (List.mem_of_mem_eraseP hp) a ha)
    have hproposal : r.proposal = p.id := (Prod.mk.inj hkey).2
    refine List.mem_map.2 ⟨r, List.mem_filter.2 ⟨hr, ?_⟩, hkey⟩
    simp [hproposal, hne]
  · exact hdb.once.sublist ((List.filter_sublist).map _)
  · exact fun p hp => hdb.needed p (List.mem_of_mem_eraseP hp)

theorem booked_files (P : Event → Prop) (hP : ∀ db op kept, db.Booked → P (.operation db op kept)) :
    Files P (fun _ => True) Kin Booked where
  visit := hP
  same _ _ h hdb := hdb.same h
  store _ _ _ _ _ _ _ _ hdb hrequired _ := hdb.store hrequired
  approve db o p db' hdb _ h := by
    have hkin := (tidy_files (fun _ => True) fun _ _ _ _ => trivial).approve db o p db' hdb.toTidy
      trivial h
    exact ⟨hdb.approve h, hkin.2⟩
  found db author title p hdb _ h := hdb.toTidy.kin (findProposal_mem h).1
  remove _ _ hdb hp := hdb.remove hp

end Db

/-! ## Proposals that lead back to themselves -/

/-- The operation creates, or contains one that creates, the proposal `k` of the operations
`ops`. -/
inductive Operation.Creates (k : ProposalKey) (ops : List Operation) : Operation → Prop
  | here {author : AccountName} {title memo : String} {expirationTime : TimePointSec}
      {review : Option TimePointSec} (h : (author, title) = k) :
    Creates k ops (.proposalCreate author title memo expirationTime ops review)
  | nested {author : AccountName} {title memo : String} {expirationTime : TimePointSec}
      {l : List Operation} {review : Option TimePointSec} {op : Operation} (hop : op ∈ l)
      (h : Creates k ops op) : Creates k ops (.proposalCreate author title memo expirationTime l review)

/-- What a created proposal names, the operation that creates it names. -/
theorem Operation.Creates.names {k k' : ProposalKey} {ops : List Operation} {op op' : Operation}
    (h : Operation.Creates k ops op) (hop' : op' ∈ ops) (hnames : Operation.Names k' op') :
    Operation.Names k' op := by
  induction h with
  | here => exact .create hop' hnames
  | nested hop _ ih => exact .create hop ih

/-- An operation names finitely many proposals. -/
theorem Operation.names_finite (op : Operation) : {k | Operation.Names k op}.Finite := by
  cases op with
  | proposalUpdate o =>
    refine (Set.finite_singleton (o.author, o.title)).subset fun k hk => ?_
    cases hk with
    | update h => exact h.symm
  | proposalDelete o =>
    refine (Set.finite_singleton (o.author, o.title)).subset fun k hk => ?_
    cases hk with
    | delete h => exact h.symm
  | proposalCreate author title memo expirationTime ops review =>
    have hall : (⋃ op ∈ {op | op ∈ ops}, {k | Operation.Names k op}).Finite :=
      Set.Finite.biUnion ops.finite_toSet fun op hop =>
        have := List.sizeOf_lt_of_mem hop
        Operation.names_finite op
    refine hall.subset fun k hk => ?_
    cases hk with
    | create hop h => exact Set.mem_biUnion hop h
  | _ =>
    refine Set.finite_empty.subset fun k hk => ?_
    cases hk
termination_by sizeOf op
decreasing_by
  simp only [Operation.proposalCreate.sizeOf_spec]
  omega

namespace Db

variable {env : Env} {skip : Skip} {db db' : Db}

/-- The proposal `k` of the operations `ops` is stored, or a stored one may create it. -/
def Carries (db : Db) (k : ProposalKey) (ops : List Operation) : Prop :=
  ∃ p ∈ db.proposals.rows, (p.key = k ∧ p.proposedOperations = ops) ∨
    ∃ op ∈ p.proposedOperations, Operation.Creates k ops op

/-- The proposal `k` updates or deletes the proposal `k'`. -/
def Draws (db : Db) (k k' : ProposalKey) : Prop :=
  ∃ ops, db.Carries k ops ∧ ∃ op ∈ ops, Operation.Names k' op

/-- Following what the stored proposals, and those that they may create, update and delete
never leads from one back to itself. -/
def Grounded (db : Db) : Prop := ∀ k, ¬ Relation.TransGen db.Draws k k

/-- A stored proposal names all that it draws in. -/
theorem draws_finite (db : Db) : {k' | ∃ k, db.Draws k k'}.Finite := by
  have hall : (⋃ p ∈ {p | p ∈ db.proposals.rows}, ⋃ op ∈ {op | op ∈ p.proposedOperations},
      {k | Operation.Names k op}).Finite :=
    Set.Finite.biUnion db.proposals.rows.finite_toSet fun p _ =>
      Set.Finite.biUnion p.proposedOperations.finite_toSet fun op _ => Operation.names_finite op
  refine hall.subset ?_
  rintro k' ⟨k, ops, ⟨p, hp, hcarries⟩, op, hop, hnames⟩
  refine Set.mem_biUnion hp ?_
  rcases hcarries with ⟨-, rfl⟩ | ⟨op', hop', hcreates⟩
  · exact Set.mem_biUnion hop hnames
  · exact Set.mem_biUnion hop' (hcreates.names hop hnames)

end Db

/-- The operation names proposals below the rank `r` only, and every proposal that it may create
names proposals below its own rank only; the size of the operation is at most `size`. -/
structure Operation.Fits (rank : ProposalKey → Nat) (size r : Nat) (op : Operation) : Prop where
  small : sizeOf op ≤ size
  names : ∀ k, Operation.Names k op → rank k < r
  creates : ∀ k ops, Operation.Creates k ops op → ∀ op' ∈ ops, ∀ k', Operation.Names k' op' →
    rank k' < rank k

namespace Operation.Fits

variable {rank : ProposalKey → Nat} {size r : Nat} {author : AccountName} {title memo : String}
  {expirationTime : TimePointSec} {ops : List Operation} {review : Option TimePointSec}

theorem sizeOf_lt {op : Operation} (hop : op ∈ ops) :
    sizeOf op < sizeOf (Operation.proposalCreate author title memo expirationTime ops review) := by
  have hlt := List.sizeOf_lt_of_mem hop
  simp only [Operation.proposalCreate.sizeOf_spec]
  omega

theorem proposed
    (h : Operation.Fits rank size r (.proposalCreate author title memo expirationTime ops review))
    {op : Operation} (hop : op ∈ ops) : Operation.Fits rank size r op where
  small := (sizeOf_lt hop).le.trans h.small
  names k hk := h.names k (.create hop hk)
  creates k l hl := h.creates k l (.nested hop hl)

/-- The operations of a created proposal, seen from that proposal. -/
theorem created
    (h : Operation.Fits rank size r (.proposalCreate author title memo expirationTime ops review))
    {op : Operation} (hop : op ∈ ops) : Operation.Fits rank size (rank (author, title)) op where
  small := (sizeOf_lt hop).le.trans h.small
  names k hk := h.creates _ ops (.here rfl) op hop k hk
  creates k l hl := h.creates k l (.nested hop hl)

end Operation.Fits

namespace Db

variable {env : Env} {skip : Skip} {db db' : Db}

/-- Every stored proposal names proposals of lower rank only. -/
def Ranked (rank : ProposalKey → Nat) (size : Nat) (db : Db) : Prop :=
  ∀ p ∈ db.proposals.rows, ∀ op ∈ p.proposedOperations,
    Operation.Fits rank size (rank p.key) op

theorem Ranked.untangled {rank : ProposalKey → Nat} {size : Nat} (h : db.Ranked rank size) :
    db.Untangled := by
  have hlower (k k' : ProposalKey) (hleads : Relation.TransGen db.Leads k k') :
      rank k' < rank k := by
    induction hleads with
    | single hstep =>
      obtain ⟨p, hp, rfl, op, hop, hnames⟩ := hstep
      exact (h p hp op hop).names _ hnames
    | tail _ hstep ih =>
      obtain ⟨p, hp, rfl, op, hop, hnames⟩ := hstep
      exact ((h p hp op hop).names _ hnames).trans ih
  exact fun k hk => lt_irrefl _ (hlower k k hk)

/-- **Ranks.**  Where nothing leads back, every stored proposal has a rank. -/
theorem Grounded.ranked (h : db.Grounded) :
    ∃ rank top size, (∀ k, rank k ≤ top) ∧ db.Ranked rank size := by
  obtain ⟨rank, top, htop, hrank⟩ := exists_rank db.draws_finite h
  obtain ⟨size, hsize⟩ : ∃ size, ∀ p ∈ db.proposals.rows, sizeOf p.proposedOperations ≤ size := by
    obtain ⟨size, hsize⟩ :=
      (db.proposals.rows.map fun p => sizeOf p.proposedOperations).toFinset.bddAbove
    refine ⟨size, fun p hp => hsize ?_⟩
    simpa using ⟨p, hp, rfl⟩
  refine ⟨rank, top, size, htop, fun p hp op hop =>
    ⟨?_, fun k hk => ?_, fun k ops hcreates op' hop' k' hk' => ?_⟩⟩
  · exact (List.sizeOf_lt_of_mem hop).le.trans (hsize p hp)
  · exact hrank p.key k ⟨_, ⟨p, hp, .inl ⟨rfl, rfl⟩⟩, op, hop, hk⟩
  · exact hrank k k' ⟨ops, ⟨p, hp, .inr ⟨op, hop, hcreates⟩⟩, op', hop', hk'⟩

/-- What holds while the proposals that are due at the time `t` are cleared: those of the ids
`due` at most remain. -/
structure Clearing (rank : ProposalKey → Nat) (size : Nat) (t : TimePointSec) (due : List Nat)
    (db : Db) : Prop where
  ranked : db.Ranked rank size
  time : db.headBlockTime = t
  due : ∀ p ∈ db.proposals.rows, p.expirationTime ≤ t → p.id ∈ due

namespace Clearing

variable {rank : ProposalKey → Nat} {size : Nat} {t : TimePointSec} {due : List Nat}

theorem untangled (hdb : Clearing rank size t due db) {op : Operation} {kept : Bool} :
    Event.Untangled (.operation db op kept) :=
  hdb.ranked.untangled

theorem same (hdb : Clearing rank size t due db) (h : db'.docket = db.docket)
    (htime : db'.headBlockTime = db.headBlockTime) : Clearing rank size t due db' := by
  have hproposals := proposals_of_docket h
  refine ⟨?_, htime.trans hdb.time, ?_⟩
  · unfold Ranked
    rw [hproposals]
    exact hdb.ranked
  · rw [hproposals]
    exact hdb.due

/-- What is created is not due. -/
theorem store (hdb : Clearing rank size t due db) {author : AccountName} {title memo : String}
    {expirationTime : TimePointSec} {ops : List Operation} {review : Option TimePointSec}
    {required : RequiredAuthorities}
    (hops : ∀ op ∈ ops, Operation.Fits rank size (rank (author, title)) op)
    (h : db.proposalApprovals author title expirationTime ops review = .ok required) :
    Clearing rank size t due
      (db.storeProposal author title memo expirationTime ops review required) := by
  refine ⟨fun p hp => ?_, hdb.time, fun p hp hdue => ?_⟩
  · rcases List.mem_append.1 hp with hp | hp
    · exact hdb.ranked p hp
    · cases List.mem_singleton.1 hp
      exact hops
  · rcases List.mem_append.1 hp with hp | hp
    · exact hdb.due p hp hdue
    · cases List.mem_singleton.1 hp
      have hlater := (proposalApprovals_needed h).1
      rw [hdb.time] at hlater
      exact absurd hdue (Nat.not_le.2 hlater)

theorem approve (hdb : Clearing rank size t due db) {o : ProposalUpdateOperation}
    {p : ProposalObject} (h : db.approveProposal o = .ok (p, db')) :
    Clearing rank size t due db' ∧ p.key = (o.author, o.title) ∧
      ∀ op ∈ p.proposedOperations, Operation.Fits rank size (rank p.key) op := by
  have hranked : db'.Ranked rank size := all_approved (Q := fun q => ∀ op ∈ q.proposedOperations,
    Operation.Fits rank size (rank q.key) op) (fun _ _ hq => hq) hdb.ranked h
  have hdue := all_approved (Q := fun q => q.expirationTime ≤ t → q.id ∈ due)
    (fun _ _ hq => hq) hdb.due h
  have hstored := approveProposal_stored h
  obtain ⟨q, hq, hp, hdb'⟩ := approveProposal_eq h
  have htime : db'.headBlockTime = db.headBlockTime := by
    rw [hdb']
    rfl
  refine ⟨⟨hranked, htime.trans hdb.time, hdue⟩, ?_, hranked p hstored⟩
  rw [hp]
  exact (findProposal_mem hq).2

theorem remove (hdb : Clearing rank size t due db) (p : ProposalObject) :
    Clearing rank size t due (db.removeProposal p) :=
  ⟨fun q hq => hdb.ranked q (List.mem_of_mem_eraseP hq), hdb.time,
    fun q hq => hdb.due q (List.mem_of_mem_eraseP hq)⟩

end Clearing

/-! ## Bounded fuel -/

/-- Whatever is thrown, it is not that the fuel ran out. -/
def Fueled (e : Exception) : Prop := e ≠ .outOfFuel

theorem ends_of_halts {α : Type} {r : Result α} {Q : α → Prop} (hr : Halts r)
    (hQ : ∀ a, r = .ok a → Q a) : Ends Fueled Q r := by
  cases r with
  | error e => exact (Halts.error e).1 hr
  | ok a => exact hQ a rfl

theorem afterAttempt_ends {E : Exception → Prop} {I : Db → Prop} {r : Result Db} (hdb : I db)
    (hr : Ends Fueled I r) : Ends E I (afterAttempt db r) := by
  cases r with
  | ok d => exact hr
  | error e =>
    cases e with
    | outOfFuel => exact absurd rfl hr
    | _ => exact hdb

section Settles

variable {rank : ProposalKey → Nat} {size : Nat} {t : TimePointSec} {due : List Nat}

/-- Operations below the rank `r` end and keep what clearing needs. -/
def Calm (rank : ProposalKey → Nat) (size : Nat) (t : TimePointSec) (due : List Nat) (r : Nat)
    (ops : List Operation) (apply : Db → Operation → Run Db) : Prop :=
  ∀ db op, op ∈ ops → Operation.Fits rank size r op → Clearing rank size t due db →
    Traced.Settles Event.Untangled Fueled (apply db op) (Clearing rank size t due)

theorem Calm.foldlM {r : Nat} {ops : List Operation} {apply : Db → Operation → Run Db}
    (happly : Calm rank size t due r ops apply)
    (hops : ∀ op ∈ ops, Operation.Fits rank size r op) (hdb : Clearing rank size t due db) :
    Traced.Settles Event.Untangled Fueled (ops.foldlM apply db) (Clearing rank size t due) :=
  .foldlM _ apply ops (fun op hop _ hd => happly _ op hop (hops op hop) hd) db hdb

/-- The execution of a proposal. -/
theorem Calm.pushed {apply : Db → Operation → Run Db} {p : ProposalObject}
    (happly : Calm rank size t due (rank p.key) p.proposedOperations apply)
    (hops : ∀ op ∈ p.proposedOperations, Operation.Fits rank size (rank p.key) op)
    (hdb : Clearing rank size t due db) :
    Traced.Settles Event.Untangled Fueled (pushProposalWith apply db p) (Clearing rank size t due) := by
  unfold pushProposalWith
  exact (happly.foldlM hops hdb).bind fun d hd => .pure (hd.remove p)

theorem evaluate_clearing {clock : TimePointSec} {op : Operation}
    (hdb : Clearing rank size t due db)
    (h : evaluate env.fc env.producing clock db op = .ok db') :
    Clearing rank size t due db' := by
  have htime := evaluate_time h
  cases htouch : Operation.touches .proposals op with
  | false => exact hdb.same (docket_of_drift (evaluate_drift htouch h)) htime
  | true =>
    cases op with
    | proposalDelete o =>
      simp only [evaluate, proposalDelete, bind_eq_ok, pure_eq_ok] at h
      obtain ⟨p, -, _, -, rfl⟩ := h
      exact hdb.remove p
    | _ => cases htouch

theorem openTransaction_clearing {trx : SignedTransaction} (hdb : Clearing rank size t due db)
    (h : db.openTransaction env skip trx = .ok db') : Clearing rank size t due db' :=
  hdb.same (openTransaction_docket h) (openTransaction_extends h).time

/-- The trial and the storing of a new proposal. -/
theorem proposalCreate_settles {apply : Depth → Db → Operation → Run Db} {depth : Depth} {r : Nat}
    {author : AccountName} {title memo : String} {expirationTime : TimePointSec}
    {ops : List Operation} {review : Option TimePointSec}
    (happly : ∀ d, Calm rank size t due r ops (apply d))
    (hop : Operation.Fits rank size r
      (.proposalCreate author title memo expirationTime ops review))
    (hdb : Clearing rank size t due db) :
    Traced.Settles Event.Untangled Fueled
      (proposalCreateWith apply env depth db author title memo expirationTime ops review)
      (Clearing rank size t due) := by
  unfold proposalCreateWith
  refine (Traced.Settles.lift (ends_of_halts (.fcAssert _ _) fun _ _ => trivial)).bind
    fun _ (_ : True) => ?_
  refine (Traced.Settles.lift (ends_of_halts (proposalApprovals_halts _ _ _ _ _ _) fun _ h => h)).bind
    fun required hrequired => ?_
  refine (Traced.Settles.lift (ends_of_halts (validateTransaction_halts _ _ _)
    fun _ _ => trivial)).bind fun _ (_ : True) => ?_
  refine Traced.Settles.bind (Q := Clearing rank size t due)
    (.dry (fun _ h => h.undone) ?_) fun _ _ => ?_
  · unfold applyTransactionWith
    refine (Traced.Settles.lift (ends_of_halts (openTransaction_halts _ _ _)
      fun d h => openTransaction_clearing hdb h)).bind fun d hd => ?_
    exact (happly _).foldlM (fun op hmem => hop.proposed hmem) hd
  · exact .pure (hdb.store (fun op hmem => hop.created hmem) hrequired)

/-- An approval, with the execution of the proposal that it approves. -/
theorem proposalUpdate_settles {apply : Depth → Db → Operation → Run Db} {depth : Depth}
    {o : ProposalUpdateOperation}
    (happly : ∀ d ops, Calm rank size t due (rank (o.author, o.title)) ops (apply d))
    (hdb : Clearing rank size t due db) :
    Traced.Settles Event.Untangled Fueled (proposalUpdateWith apply env depth db o)
      (Clearing rank size t due) := by
  unfold proposalUpdateWith
  refine (Traced.Settles.lift (ends_of_halts (.fcAssert _ _) fun _ _ => trivial)).bind
    fun _ (_ : True) => ?_
  refine (Traced.Settles.lift (ends_of_halts (approveProposal_halts _ _) fun _ h => h)).bind
    fun r hr => ?_
  obtain ⟨p, db₁⟩ := r
  obtain ⟨hdb₁, hkey, hops⟩ := hdb.approve hr
  cases hreview : p.reviewPeriodTime with
  | some review =>
    simp only [hreview]
    refine .pure ?_
    unfold reviewProposal
    split
    · exact hdb₁.remove p
    · exact hdb₁
  | none =>
    simp only [hreview]
    refine (Traced.Settles.lift (ends_of_halts (assertIrrelevantAuthority_halts _ _ _ _ _ _ _ _)
      fun _ _ => trivial)).bind fun _ (_ : True) => ?_
    split
    · have hpush (d : Depth) := Calm.pushed (hkey ▸ happly d p.proposedOperations) hops hdb₁
      exact ((hpush _).attempt fun _ h => h.undone).bind fun r hr => .lift (afterAttempt_ends hdb₁ hr)
    · exact .pure hdb₁

/-- **Bounded fuel.**  An operation below the rank `r` needs `size + 1` levels for every rank
below `r`, and its own. -/
theorem applyOperation_settles (fuel : Nat) (depth : Depth) {r : Nat} {op : Operation}
    (hfuel : r * (size + 1) + sizeOf op < fuel) (hop : Operation.Fits rank size r op)
    (hdb : Clearing rank size t due db) :
    Traced.Settles Event.Untangled Fueled (applyOperation env fuel depth db op) (Clearing rank size t due) := by
  induction fuel generalizing depth r op db with
  | zero => omega
  | succ fuel ih =>
    unfold applyOperation
    refine (Traced.Settles.report hdb.untangled).bind fun _ _ => ?_
    unfold evaluateWith
    split
    · rename_i author title memo expirationTime ops review
      refine proposalCreate_settles (fun d db' op' hop' hfits hd => ?_) hop hdb
      have hlt := @Operation.Fits.sizeOf_lt author title memo expirationTime ops review op' hop'
      exact ih d (by omega) hfits hd
    · rename_i o
      refine proposalUpdate_settles (fun d ops db' op' _ hfits hd => ih d ?_ hfits hd) hdb
      -- one rank less pays for the whole size
      have hrank : rank (o.author, o.title) < r := hop.names _ (.update rfl)
      have hmul := Nat.mul_le_mul_right (size + 1) hrank
      have hsmall := hfits.small
      rw [Nat.succ_mul] at hmul
      omega
    · refine Traced.Settles.tick.bind fun n _ => .lift ?_
      exact ends_of_halts (evaluate_halts _ _ _ _) fun d h => evaluate_clearing hdb h

/-! ## Expiry -/

theorem Clearing.removed (hdb : Clearing rank size t due db) (hids : db.proposals.Numbered (·.id))
    (p : ProposalObject) : Clearing rank size t (due.erase p.id) (db.removeProposal p) := by
  refine ⟨(hdb.remove p).ranked, hdb.time, fun q hq hdue => ?_⟩
  exact (List.mem_erase_of_ne (hids.ne_of_mem_erase hq)).2 ((hdb.remove p).due q hq hdue)

/-- **One pass** ends, and the proposal that was due is gone. -/
theorem clearProposal_settles {fuel top : Nat} {p : ProposalObject} (htop : ∀ k, rank k ≤ top)
    (hfuel : (top + 1) * (size + 1) < fuel) (hp : p ∈ db.proposals.rows) (hbooked : db.Booked)
    (hdb : Clearing rank size t due db) :
    Traced.Settles Event.Untangled (fun _ => False) (clearProposalWith (applyOperation env fuel {}) db p) fun d =>
      Clearing rank size t (due.erase p.id) d ∧ d.Booked := by
  have hfiles := booked_files (fun _ => True) fun _ _ _ _ => trivial
  have hkin (q : ProposalObject) (fuel : Nat) (depth : Depth) :
      Filed (fun _ => True) (fun _ => True) (Kin q) (applyOperation env fuel depth) :=
    kin_filed q _ fuel depth
  refine Traced.Settles.and ?_ (hfiles.cleared (fun _ _ => trivial) hkin
    (fun _ _ h hq => h.toTidy.kin hq) hp hbooked)
  have hremoved := hdb.removed hbooked.ids p
  unfold clearProposalWith
  split
  · have hcalm : Calm rank size t due (rank p.key) p.proposedOperations
        (applyOperation env fuel {}) := by
      intro d op _ hfits hd
      refine applyOperation_settles fuel {} ?_ hfits hd
      have hsmall := hfits.small
      have hmul := Nat.mul_le_mul_right (size + 1) (htop p.key)
      rw [Nat.succ_mul] at hfuel
      omega
    have hpush : Traced.Settles Event.Untangled Fueled (pushProposalWith (applyOperation env fuel {}) db p)
        (Clearing rank size t (due.erase p.id)) := by
      have hfiled := hfiles.applied (fun _ _ => trivial) hkin fuel {}
      unfold pushProposalWith
      refine ((hcalm.foldlM (hdb.ranked p hp) hdb).and
        (hfiled.foldlM (fun _ _ _ _ => trivial) hbooked)).bind fun d hd => ?_
      exact .pure (hd.1.removed hd.2.ids p)
    exact (hpush.attempt fun _ h => h.undone).bind fun r hr => .lift (afterAttempt_ends hremoved hr)
  · exact .pure hremoved

/-- Nothing is due that the index `by_expiration` does not show first. -/
theorem dueProposal_none (h : db.dueProposal = none) {p : ProposalObject}
    (hp : p ∈ db.proposals.rows) : db.headBlockTime < p.expirationTime := by
  have hsorted := orderBy_le (fun q : ProposalObject => q.expirationTime) db.proposals.rows
  rw [← mem_orderBy (fun p q => decide (p.expirationTime < q.expirationTime))] at hp
  unfold dueProposal at h
  generalize orderBy (fun p q => decide (p.expirationTime < q.expirationTime))
    db.proposals.rows = l at h hsorted hp
  cases l with
  | nil => cases hp
  | cons q rest =>
    have hq : db.headBlockTime < q.expirationTime := by simpa using h
    rcases List.mem_cons.1 hp with rfl | hp
    · exact hq
    · exact lt_of_lt_of_le hq ((List.pairwise_cons.1 hsorted).1 p hp)

/-- **The loop** ends when all that was due is gone. -/
theorem clearLoop_settles {fuel top : Nat} (htop : ∀ k, rank k ≤ top)
    (hfuel : (top + 1) * (size + 1) < fuel) (m : Nat) (hm : due.length < m) (hbooked : db.Booked)
    (hdb : Clearing rank size t due db) :
    Traced.Settles Event.Untangled (fun _ => False) (clearExpiredProposalsWith (applyOperation env fuel {}) m db)
      fun d => d.Booked ∧ d.headBlockTime = t ∧ ∀ p ∈ d.proposals.rows, t < p.expirationTime := by
  induction m generalizing db due with
  | zero => omega
  | succ m ih =>
    unfold clearExpiredProposalsWith
    split
    · rename_i hnone
      refine .pure ⟨hbooked, hdb.time, fun p hp => ?_⟩
      rw [← hdb.time]
      exact dueProposal_none hnone hp
    · rename_i p hsome
      have hp := dueProposal_mem hsome
      have hmem : p.id ∈ due := by
        refine hdb.due p hp ?_
        rw [dueProposal, Option.filter_eq_some_iff] at hsome
        rw [← hdb.time]
        simpa using hsome.2
      have hshort : (due.erase p.id).length < m := by
        have hpos := List.length_pos_of_mem hmem
        rw [List.length_erase_of_mem hmem]
        omega
      refine (clearProposal_settles htop hfuel hp hbooked hdb).bind fun d hd => ?_
      exact ih hshort hd.2 hd.1

/-- **Expiry.**  Where no proposal leads back to itself, `clear_expired_proposals` ends and
leaves none that is due. -/
theorem clearExpiredProposals_clears (env : Env) (hbooked : db.Booked) (h : db.Grounded) :
    ∃ enough, ∀ fuel ≥ enough, ∀ n,
      (∀ e ∈ (clearExpiredProposals env fuel db n).1, e.Untangled) ∧
      ∃ db', (clearExpiredProposals env fuel db n).2 = .ok db' ∧
        db'.Booked ∧ db'.headBlockTime = db.headBlockTime ∧
        ∀ p ∈ db'.proposals.rows, db'.headBlockTime < p.expirationTime := by
  obtain ⟨rank, top, size, htop, hranked⟩ := h.ranked
  refine ⟨(top + 1) * (size + 1) + 1, fun fuel hfuel n => ?_⟩
  have hstart : Clearing rank size db.headBlockTime (db.proposals.rows.map (·.id)) db :=
    ⟨hranked, rfl, fun p hp _ => List.mem_map_of_mem hp⟩
  obtain ⟨hevents, hends⟩ := @clearLoop_settles env _ _ _ _ _ _ _ htop hfuel
    (db.proposals.rows.length + 1) (by simp) hbooked hstart n
  refine ⟨hevents, ?_⟩
  cases hrun : (clearExpiredProposalsWith (applyOperation env fuel {})
      (db.proposals.rows.length + 1) db n).2 with
  | error e => exact (hends.of_error hrun).elim
  | ok db' =>
    obtain ⟨hbooked', htime, hnone⟩ := hends.of_ok hrun
    exact ⟨db', hrun, hbooked', htime, fun p hp => htime ▸ hnone p hp⟩

end Settles

end Db

/-- What an applied operation or a block step meets is booked. -/
def Event.Booked : Event → Prop
  | .operation db _ _ => db.Booked
  | .step db _ _ _ => db.Booked

theorem Event.Booked.undone {e : Event} (h : e.Booked) : e.undone.Booked := by
  cases e <;> exact h

/-- What holds of the books about proposals, in every run whose operations are applied where
nothing is entangled. -/
structure KeepsBooks (env : Env) : Prop where
  /-- every state that a run of blocks meets is booked -/
  visits : ∀ fuel skip (s : Store) bs n, s.db.Booked →
    (∀ e ∈ (s.applyBlocks env fuel skip bs n).1, e.Untangled) →
    ∀ e ∈ (s.applyBlocks env fuel skip bs n).1, e.Booked
  reaches : ∀ fuel skip (s : Store) bs n s', s.db.Booked →
    (∀ e ∈ (s.applyBlocks env fuel skip bs n).1, e.Untangled) →
    (s.applyBlocks env fuel skip bs n).2 = .ok s' → s'.db.Booked
  /-- and so is every state that a transaction meets or leaves -/
  transaction : ∀ fuel skip (db : Db) trx n, db.Booked →
    (∀ e ∈ (db.applyTransaction env fuel skip trx n).1, e.Untangled) →
    (∀ e ∈ (db.applyTransaction env fuel skip trx n).1, e.Booked) ∧
      ∀ db', (db.applyTransaction env fuel skip trx n).2 = .ok db' → db'.Booked
  /-- where no proposal leads back to itself, nothing becomes entangled while proposals expire,
  expiry ends and leaves nothing due -/
  clears : ∀ db : Db, db.Booked → db.Grounded →
    ∃ enough, ∀ fuel ≥ enough, ∀ n,
      (∀ e ∈ (db.clearExpiredProposals env fuel n).1, e.Untangled) ∧
      ∃ db', (db.clearExpiredProposals env fuel n).2 = .ok db' ∧
        db'.Booked ∧ db'.headBlockTime = db.headBlockTime ∧
        ∀ p ∈ db'.proposals.rows, db'.headBlockTime < p.expirationTime

/-- **The books about proposals** are exact wherever nothing is entangled; where no proposal leads
back to itself, expiry ends and leaves nothing due.  An entangled proposal may be gone when
`push_proposal` removes it, and the model says nothing about that. -/
theorem proposals_booked (env : Env) : KeepsBooks env := by
  have hfiles := Db.booked_files Event.Booked fun _ _ _ h => h
  have hkin (q : ProposalObject) (fuel : Nat) (depth : Depth) :
      Db.Filed (fun _ => True) (fun _ => True) (Db.Kin q) (Db.applyOperation env fuel depth) :=
    Db.kin_filed q _ fuel depth
  have hundone (e : Event) (h : e.Booked) : e.undone.Booked := h.undone
  have hblocks (fuel : Nat) (skip : Skip) (s : Store) (bs : List SignedBlock)
      (hdb : s.db.Booked) :=
    Store.applyBlocks_safe hfiles hundone hkin (fun _ _ h hp => h.toTidy.kin hp)
      (fun _ _ _ _ h => h) fuel skip bs hdb
  have htransaction (fuel : Nat) (skip : Skip) (db : Db) (trx : SignedTransaction)
      (hdb : db.Booked) : Traced.Safe Event.Booked (db.applyTransaction env fuel skip trx) Db.Booked :=
    hfiles.transaction (hfiles.applied hundone hkin fuel {}) (fun _ _ _ _ => trivial) hdb
  constructor
  · exact fun fuel skip s bs n hdb _ => (hblocks fuel skip s bs hdb n).1
  · exact fun fuel skip s bs n s' hdb _ h => (hblocks fuel skip s bs hdb n).2 s' h
  · exact fun fuel skip db trx n hdb _ => htransaction fuel skip db trx hdb n
  · exact fun db hbooked hgrounded => Db.clearExpiredProposals_clears env hbooked hgrounded

theorem grounded_of_transfersOnly {db : Db} (h : transfersOnly db = true) : db.Grounded := by
  have hnone (k k' : ProposalKey) : ¬ db.Draws k k' := by
    rintro ⟨ops, ⟨p, hp, hcarries⟩, op, hop, hnames⟩
    have hall := List.all_eq_true.1 h p hp
    rcases hcarries with ⟨-, rfl⟩ | ⟨op', hop', hcreates⟩
    · have hop'' := List.all_eq_true.1 hall op hop
      cases hnames <;> cases hop''
    · have hop'' := List.all_eq_true.1 hall op' hop'
      cases hcreates <;> cases hop''
  intro k hk
  cases hk with
  | single hstep => exact hnone _ _ hstep
  | tail _ hstep => exact hnone _ _ hstep

/-- The head block time has become `t`. -/
def Db.at (db : Db) (t : TimePointSec) : Db := { db with dgp := { db.dgp with time := t } }

/-- alice proposes a transfer that nobody approves; when its time has come, it is dropped. -/
theorem proposals_booked_pay :
    ∃ s, ((smallStore [{ id := 4, name := "bob" }]).applyBlocks smallEnv 6 { merkleCheck := true }
        [smallBlock (payOps.take 1)] 0).2 = .ok s ∧
      (∀ e ∈ ((smallStore [{ id := 4, name := "bob" }]).applyBlocks smallEnv 6
        { merkleCheck := true } [smallBlock (payOps.take 1)] 0).1, e.Booked) ∧
      s.db.Booked ∧ s.db.proposals.rows ≠ [] ∧
      ∃ enough, ∀ fuel ≥ enough, ∀ n, ∃ db',
        ((s.db.at 100).clearExpiredProposals smallEnv fuel n).2 = .ok db' ∧ db'.Booked ∧
          ∀ p ∈ db'.proposals.rows, 100 < p.expirationTime := by
  have hevents : ((smallStore [{ id := 4, name := "bob" }]).applyBlocks smallEnv 6
      { merkleCheck := true } [smallBlock (payOps.take 1)] 0).1.all (fun e =>
        match e with
        | .operation db _ _ => transfersOnly db
        | .step _ _ _ _ => true) = true := by
    decide +kernel
  have hrun : returns ((smallStore [{ id := 4, name := "bob" }]).applyBlocks smallEnv 6
      { merkleCheck := true } [smallBlock (payOps.take 1)] 0).2 (fun s =>
        transfersOnly s.db && !s.db.proposals.rows.isEmpty) = true := by
    decide +kernel
  have hstart : (smallStore [{ id := 4, name := "bob" }]).db.Booked :=
    ⟨⟨⟨List.nodup_nil, fun _ hp => nomatch hp⟩, List.nodup_nil, fun _ hr => nomatch hr⟩,
      (fun _ hp => nomatch hp), List.nodup_nil, fun _ hp => nomatch hp⟩
  have huntangled : ∀ e ∈ ((smallStore [{ id := 4, name := "bob" }]).applyBlocks smallEnv 6
      { merkleCheck := true } [smallBlock (payOps.take 1)] 0).1, e.Untangled := by
    intro e he
    have hleads := List.all_eq_true.1 hevents e he
    cases e with
    | operation db op kept => exact untangled_of_transfersOnly hleads
    | step db b st kept => trivial
  obtain ⟨s, hs, hfacts⟩ := returns_eq_true hrun
  rw [Bool.and_eq_true, Bool.not_eq_true', List.isEmpty_eq_false_iff] at hfacts
  have hbooked := (proposals_booked smallEnv).reaches _ _ _ _ _ s hstart huntangled hs
  obtain ⟨enough, henough⟩ := (proposals_booked smallEnv).clears (s.db.at 100)
    (hbooked.same rfl) (grounded_of_transfersOnly hfacts.1)
  refine ⟨s, hs, (proposals_booked smallEnv).visits _ _ _ _ _ hstart huntangled, hbooked,
    hfacts.2, enough, fun fuel hfuel n => ?_⟩
  obtain ⟨-, db', hdb', hbooked', htime, hlater⟩ := henough fuel hfuel n
  refine ⟨db', hdb', hbooked', fun p hp => ?_⟩
  have hlate := hlater p hp
  rw [htime] at hlate
  exact hlate

/-! ## A knot -/

/-- alice takes back her approval of the proposal. -/
def aliceWithdraws (title : String) : ProposalUpdateOperation :=
  ⟨"alice", title, [], ["alice"], [], [], [], [], [], []⟩

/-- alice's approval is taken back and given again. -/
def renewApproval (title : String) : List Operation :=
  [.proposalUpdate (aliceWithdraws title), .proposalUpdate (aliceApproves title)]

/-- The proposal renews the approval of the proposal `other`. -/
structure Tied (other : String) (approved : List AccountName) (p : ProposalObject) : Prop where
  operations : p.proposedOperations = renewApproval other
  active : p.availableActiveApprovals = approved
  master : p.availableMasterApprovals = []
  regular : p.availableRegularApprovals = []
  keys : p.availableKeyApprovals = []
  review : p.reviewPeriodTime = none

/-- The proposals `x` and `y` of alice each renew the approval of the other one; `ax` and `ay`
are the approvals that they have. -/
structure Knot (x y : String) (ax ay : List AccountName) (db : Db) : Prop where
  one : ∃ p, db.findProposal "alice" x = some p ∧ Tied y ax p
  two : ∃ p, db.findProposal "alice" y = some p ∧ Tied x ay p
  authority : ∃ a, db.getAuthority "alice" = .ok a ∧ a.active = Db.singleKey 7 ∧
    a.master = Db.singleKey 7

namespace Knot

variable {env : Env} {x y : String} {ax ay : List AccountName} {db db' : Db}

theorem swap (h : Knot x y ax ay db) : Knot y x ay ax db := ⟨h.two, h.one, h.authority⟩

theorem authorized {p : ProposalObject} (h : Tied y ["alice"] p) (db : Db) :
    p.isAuthorizedToExecute db = true := by
  unfold ProposalObject.isAuthorizedToExecute ProposalObject.verify
  rw [h.operations, h.active, h.master, h.regular, h.keys]
  rfl

theorem missing {args : VerifyArgs} (hsigs : args.sigs = [])
    (happrovals : args.activeApprovals = [] ∧ args.masterApprovals = [])
    (hdepth : args.maxRecursionDepth = 2)
    (hactive : args.getActive "alice" = .ok (Db.singleKey 7))
    (hmaster : args.getMaster "alice" = .ok (Db.singleKey 7)) :
    verifyAuthority args (renewApproval y) = .error (.txMissingActiveAuth ["alice"] []) := by
  have hrequired : collectRequired (renewApproval y) = { active := ["alice"] } := rfl
  have hcheck : args.checkActive "alice" (SignState.new [] []) =
      .ok (false, SignState.new [] []) := by
    unfold VerifyArgs.checkActive SignState.checkAccount VerifyArgs.orElse
    rw [if_neg (by decide), hactive, hmaster, hdepth]
    rfl
  have hmissing : collectMissing args.checkActive ["alice"] (SignState.new [] []) =
      .ok (["alice"], SignState.new [] []) := by
    unfold collectMissing
    rw [hcheck]
    rfl
  unfold verifyAuthority checkRequired
  rw [hrequired]
  unfold checkRequiredActive
  rw [hsigs, happrovals.1, happrovals.2]
  change ((collectMissing args.checkActive ["alice"] (SignState.new [] []) >>= _) >>= _) = _
  rw [hmissing]
  rfl

/-- Without alice's approval the proposal waits, and nothing that it has is of no use. -/
theorem waits {other : String} {p : ProposalObject} (hp : Tied other [] p)
    (h : Knot x y ax ay db) :
    p.isAuthorizedToExecute db = false ∧
      ∀ o, db.assertIrrelevantAuthority p o 3 [] [] [] [] = .ok () := by
  obtain ⟨a, ha, hactive, hmaster⟩ := h.authority
  have hverify : p.verify db [] [] [] = .error (.txMissingActiveAuth ["alice"] []) := by
    unfold ProposalObject.verify
    rw [hp.operations, hp.active, hp.master, hp.regular, hp.keys]
    refine missing rfl ⟨rfl, rfl⟩ rfl ?_ ?_
    · show (·.active) <$> db.getAuthority "alice" = _
      rw [ha, ← hactive]
      rfl
    · show (·.master) <$> db.getAuthority "alice" = _
      rw [ha, ← hmaster]
      rfl
  constructor
  · unfold ProposalObject.isAuthorizedToExecute
    rw [hverify]
  · intro o
    unfold Db.assertIrrelevantAuthority
    rw [hverify]
    have hagain : p.verify db ["alice"] [] [] = .ok () := by
      unfold ProposalObject.verify
      rw [hp.operations, hp.active, hp.master, hp.regular, hp.keys]
      rfl
    show Db.assertIrrelevantAuthority db p o 2 ["alice"] [] [] [] = .ok ()
    unfold Db.assertIrrelevantAuthority
    rw [hagain]

/-- alice's approval of `y` is added or removed. -/
theorem updated (hne : x ≠ y) (h : Knot x y ax ay db) {add remove after : List AccountName}
    (hremove : ∀ a ∈ remove, a ∈ ay) (hadd : ∀ a ∈ add, a ∉ ay)
    (hafter : (insertNames add ay).filter (· ∉ remove) = after) :
    ∃ p db', db.approveProposal ⟨"alice", y, add, remove, [], [], [], [], [], []⟩ = .ok (p, db') ∧
      Tied x after p ∧ Knot x y ax after db' := by
  obtain ⟨p, hp, htied⟩ := h.two
  obtain ⟨-, hkey⟩ := Db.findProposal_mem hp
  obtain ⟨o, ho⟩ : ∃ o : ProposalUpdateOperation,
    o = ⟨"alice", y, add, remove, [], [], [], [], [], []⟩ := ⟨_, rfl⟩
  have htied' : Tied x after (Db.updateApprovals o p) := by
    refine ⟨htied.operations, ?_, ?_, ?_, ?_, htied.review⟩ <;>
      simp [Db.updateApprovals, Db.insertKeys, ho, insertNames, htied.active, htied.master,
        htied.regular, htied.keys, ← hafter]
  have happrove : db.approveProposal o = .ok (Db.updateApprovals o p,
      { db with proposals := db.proposals.update (·.key) p.key (Db.updateApprovals o) }) := by
    simp only [Db.approveProposal, Db.getProposal, Db.checkExisting, Db.checkDuplicate,
      bind_eq_ok, getOrThrow_eq_ok, fcAssert_eq_ok, pure_eq_ok]
    refine ⟨p, by rw [ho]; exact hp, (), ?_, (), ?_, (), ?_, (), ?_, (), ?_, (), ?_, (), ?_, (),
      ?_, (), ?_, rfl⟩ <;> simp [ho, htied.review, htied.active]
    · exact hremove
    · exact hadd
  rw [← ho]
  refine ⟨_, _, happrove, htied', ?_, ?_, h.authority⟩
  · obtain ⟨q, hq, hqtied⟩ := h.one
    have hother : ("alice", x) ≠ p.key := by
      rw [hkey]
      exact fun heq => hne (Prod.mk.inj heq).2
    have hget := Table.get_update_ne db.proposals (·.key) (Db.updateApprovals o) hother
      fun _ => rfl
    exact ⟨q, hget.trans hq, hqtied⟩
  · have hget := Table.get_update_same db.proposals (·.key) p.key (Db.updateApprovals o)
      fun _ => rfl
    have hfound : db.proposals.get (·.key) p.key = some p := by
      rw [hkey]
      exact hp
    rw [hfound, Option.map_some] at hget
    refine ⟨_, ?_, htied'⟩
    unfold Db.findProposal
    rw [← hkey]
    exact hget

theorem withdrawn (hne : x ≠ y) (h : Knot x y ax ["alice"] db) :
    ∃ p db', db.approveProposal (aliceWithdraws y) = .ok (p, db') ∧ Tied x [] p ∧
      Knot x y ax [] db' :=
  h.updated hne (by simp) (by simp) rfl

theorem renewed (hne : x ≠ y) (h : Knot x y ax [] db) :
    ∃ p db', db.approveProposal (aliceApproves y) = .ok (p, db') ∧ Tied x ["alice"] p ∧
      Knot x y ax ["alice"] db' :=
  h.updated hne (by simp) (by simp) rfl

/-- An update up to the question whether the proposal is executed now. -/
theorem update_run (hproducing : env.producing = false) (fuel : Nat) (depth : Depth) (n : Nat)
    {o : ProposalUpdateOperation} {p : ProposalObject} {db₁ : Db}
    (happrove : db.approveProposal o = .ok (p, db₁)) (hreview : p.reviewPeriodTime = none)
    (hirrelevant : ∀ o, db₁.assertIrrelevantAuthority p o 3 [] [] [] [] = .ok ()) :
    ∃ d m, (Db.applyOperation env (fuel + 1) depth db (.proposalUpdate o) n).2 =
      ((if p.isAuthorizedToExecute db₁ then do
        let r ← Traced.attempt Event.undone
          (Db.pushProposalWith (Db.applyOperation env fuel d) db₁ p)
        Traced.lift (Db.afterAttempt db₁ r)
      else return db₁ : Run Db) m).2 := by
  have hdepth (k : Nat) : fcAssert (env.producing = true → k ≤ maxProposalDepth)
      "You can't create more than $\x7bdepth\x7d nested proposals" = .ok () := by
    rw [fcAssert_eq_ok, hproducing]
    exact fun h => nomatch h
  unfold Db.applyOperation Db.evaluateWith Db.proposalUpdateWith
  rw [Traced.bind_of_ok (a := ()) rfl, Traced.bind_of_ok (a := ()) (hdepth _),
    Traced.bind_of_ok (a := (p, db₁)) happrove]
  simp only [hreview]
  rw [Traced.bind_of_ok (a := ()) (hirrelevant _)]
  exact ⟨_, _, rfl⟩

/-- Without alice's approval nothing is executed. -/
theorem withdraw_run (hproducing : env.producing = false) (hne : x ≠ y)
    (h : Knot x y ax ["alice"] db) (fuel : Nat) (depth : Depth) (n : Nat) :
    ∃ db', (Db.applyOperation env (fuel + 1) depth db
      (.proposalUpdate (aliceWithdraws y)) n).2 = .ok db' ∧ Knot x y ax [] db' := by
  obtain ⟨p, db₁, happrove, hp, hknot⟩ := h.withdrawn hne
  obtain ⟨hwaits, hirrelevant⟩ := waits hp hknot
  obtain ⟨d, m, hrun⟩ := update_run hproducing fuel depth n happrove hp.review hirrelevant
  rw [hrun, if_neg (by simp [hwaits])]
  exact ⟨db₁, rfl, hknot⟩

/-- **A knot never ends.**  Once one of the two is approved again, each execution starts the
other one. -/
theorem endless (hproducing : env.producing = false) (hne : x ≠ y)
    (h : Knot x y ["alice"] [] db) (fuel : Nat) (depth : Depth) (n : Nat) :
    (Db.applyOperation env fuel depth db (.proposalUpdate (aliceApproves y)) n).2 =
      .error .outOfFuel := by
  induction fuel generalizing x y db depth n with
  | zero => rfl
  | succ fuel ih =>
    obtain ⟨p, db₁, happrove, hp, hknot⟩ := h.renewed hne
    have hirrelevant (o : ProposalUpdateOperation) :
        db₁.assertIrrelevantAuthority p o 3 [] [] [] [] = .ok () := by
      have hverify : p.verify db₁ [] [] [] = .ok () := by
        unfold ProposalObject.verify
        rw [hp.operations, hp.active, hp.master, hp.regular, hp.keys]
        rfl
      unfold Db.assertIrrelevantAuthority
      rw [hverify]
    obtain ⟨d, m, hrun⟩ := update_run hproducing fuel depth n happrove hp.review hirrelevant
    have hpush (k : Nat) : (Db.pushProposalWith (Db.applyOperation env fuel d) db₁ p k).2 =
        .error .outOfFuel := by
      unfold Db.pushProposalWith
      refine Traced.bind_of_error ?_
      rw [hp.operations, renewApproval, List.foldlM_cons]
      cases fuel with
      | zero => exact Traced.bind_of_error rfl
      | succ fuel =>
        obtain ⟨db₂, hfirst, hknot₂⟩ := hknot.swap.withdraw_run hproducing hne.symm fuel d k
        rw [Traced.bind_of_ok hfirst, List.foldlM_cons]
        exact Traced.bind_of_error (ih hne.symm hknot₂ d _)
    rw [hrun, if_pos (authorized hp db₁),
      Traced.bind_of_ok (Traced.attempt_of_error (hpush m))]
    rfl

end Knot

/-- The operations that tie the knot.  A first proposal `right` is approved while its transfer
cannot be paid; it stays, and `left` can be made to renew its approval.  After `right` has been
deleted, `left` is approved in vain, and a new `right` is made to renew the approval of `left`.
The proposal `wake` is in review, so that it is executed only when it expires. -/
def tieKnot : List Operation :=
  [.proposalCreate "alice" "right" "" 100
      [.transfer ⟨"alice", "bob", ⟨1, tokenSymbol⟩, ""⟩] none,
    .proposalCreate "alice" "wake" "" 60 [.proposalUpdate (aliceApproves "right")] (some 50),
    .proposalUpdate (aliceApproves "wake"),
    .transfer ⟨"alice", "bob", ⟨2000, tokenSymbol⟩, ""⟩,
    .proposalUpdate (aliceApproves "right"),
    .proposalCreate "alice" "left" "" 100 (renewApproval "right") none,
    .proposalDelete ⟨"alice", "right", "alice"⟩,
    .proposalUpdate (aliceApproves "left"),
    .proposalCreate "alice" "right" "" 100 (renewApproval "left") none]

def renews (title : String) (approved : List AccountName) (p : ProposalObject) : Bool :=
  (match p.proposedOperations with
  | [.proposalUpdate o, .proposalUpdate o'] => o = aliceWithdraws title && o' = aliceApproves title
  | _ => false) &&
  (p.availableActiveApprovals, p.availableMasterApprovals, p.availableRegularApprovals,
    p.availableKeyApprovals, p.reviewPeriodTime) = (approved, [], [], [], none)

/-- `wake` is due and approved, and `left` and `right` are tied. -/
def knotted (db : Db) : Bool :=
  (match (db.at 60).dueProposal with
  | some p => p.isAuthorizedToExecute (db.at 60) &&
    match p.proposedOperations with
    | [.proposalUpdate o] => o = aliceApproves "right"
    | _ => false
  | none => false) &&
  (db.findProposal "alice" "left").any (renews "right" ["alice"]) &&
  (db.findProposal "alice" "right").any (renews "left" []) &&
  returns (db.getAuthority "alice") fun a =>
    a.active = Db.singleKey 7 && a.master = Db.singleKey 7

theorem renews_tied {title : String} {approved : List AccountName} {p : ProposalObject}
    (h : renews title approved p = true) : Tied title approved p := by
  unfold renews at h
  rw [Bool.and_eq_true] at h
  obtain ⟨hops, hrest⟩ := h
  have hfields := of_decide_eq_true hrest
  simp only [Prod.mk.injEq] at hfields
  obtain ⟨hactive, hmaster, hregular, hkeys, hreview⟩ := hfields
  refine ⟨?_, hactive, hmaster, hregular, hkeys, hreview⟩
  split at hops
  · rename_i o o' heq
    simp only [Bool.and_eq_true, decide_eq_true_eq] at hops
    rw [heq, hops.1, hops.2]
    rfl
  · cases hops

theorem knotted_knot {db : Db} (h : knotted db = true) :
    Knot "left" "right" ["alice"] [] (db.at 60) ∧
      ∃ p, (db.at 60).dueProposal = some p ∧ p.isAuthorizedToExecute (db.at 60) = true ∧
        p.proposedOperations = [.proposalUpdate (aliceApproves "right")] := by
  unfold knotted at h
  simp only [Bool.and_eq_true, Option.any_eq_true] at h
  obtain ⟨⟨⟨hwake, hleft⟩, hright⟩, hauthority⟩ := h
  constructor
  · obtain ⟨p, hp, hrenews⟩ := hleft
    obtain ⟨q, hq, hrenews'⟩ := hright
    obtain ⟨a, ha, hkeys⟩ := returns_eq_true hauthority
    simp only [Bool.and_eq_true, decide_eq_true_eq] at hkeys
    exact ⟨⟨p, hp, renews_tied hrenews⟩, ⟨q, hq, renews_tied hrenews'⟩, ⟨a, ha, hkeys⟩⟩
  · split at hwake
    · rename_i p hdue
      rw [Bool.and_eq_true] at hwake
      obtain ⟨hauthorized, hops⟩ := hwake
      refine ⟨p, hdue, hauthorized, ?_⟩
      split at hops
      · rename_i o heq
        rw [heq, of_decide_eq_true hops]
      · cases hops
    · cases hwake

/-- **Expiry that never ends**: after one block, no fuel is enough to clear what is due. -/
theorem expiry_never_ends : ∃ s, ((smallStore [{ id := 4, name := "bob" }]).applyBlocks smallEnv 8
      { merkleCheck := true } [smallBlock tieKnot] 0).2 = .ok s ∧
    ∀ fuel n, ((s.db.at 60).clearExpiredProposals smallEnv fuel n).2 = .error .outOfFuel := by
  have hrun : returns ((smallStore [{ id := 4, name := "bob" }]).applyBlocks smallEnv 8
      { merkleCheck := true } [smallBlock tieKnot] 0).2 (fun s => knotted s.db) = true := by
    decide +kernel
  obtain ⟨s, hs, hknotted⟩ := returns_eq_true hrun
  obtain ⟨hknot, p, hdue, hauthorized, hops⟩ := knotted_knot hknotted
  refine ⟨s, hs, fun fuel n => ?_⟩
  unfold Db.clearExpiredProposals Db.clearExpiredProposalsWith
  rw [hdue]
  refine Traced.bind_of_error ?_
  unfold Db.clearProposalWith
  rw [if_pos hauthorized]
  have hpush : (Db.pushProposalWith (Db.applyOperation smallEnv fuel {}) (s.db.at 60) p n).2 =
      .error .outOfFuel := by
    unfold Db.pushProposalWith
    refine Traced.bind_of_error ?_
    rw [hops, List.foldlM_cons]
    exact Traced.bind_of_error (hknot.endless rfl (by decide) fuel {} n)
  rw [Traced.bind_of_ok (Traced.attempt_of_error hpush)]
  rfl

end VizCore.Chain
