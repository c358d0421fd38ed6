import VizCore.Chain.Transaction

/-!
# Proposals

Evaluators of `proposal_evaluator.cpp`, the execution of proposals and the removal of
expired ones.  A proposal carries operations, so all of them are given a way to apply an
operation.
-/

namespace VizCore.Chain

open VizCore.Lib VizCore.Protocol

/-- How deep proposals are nested (`depth_` of the two evaluators). -/
structure Depth where
  create : Nat := 0
  update : Nat := 0

/-- `CHAIN_MAX_PROPOSAL_DEPTH` -/
def maxProposalDepth : Nat := 2

def insertNames (names l : List AccountName) : List AccountName :=
  names.foldl (fun s n => insertName n s) l

namespace ProposalObject

variable (p : ProposalObject)

def key : AccountName × String := (p.author, p.title)

/-- `proposal_object::verify_authority` -/
def verify (db : Db) (active master regular : List AccountName) : Result Unit :=
  verifyAuthority
    { db.verifyArgs p.availableKeyApprovals with
      activeApprovals := insertNames active p.availableActiveApprovals
      masterApprovals := insertNames master p.availableMasterApprovals
      regularApprovals := insertNames regular p.availableRegularApprovals }
    p.proposedOperations

def isAuthorizedToExecute (db : Db) : Bool :=
  match p.verify db [] [] [] with
  | .ok _ => true
  -- not critical, because it is the last step of verify
  | .error (.txIrrelevantSig _) => true
  | .error (.txIrrelevantApproval _) => true
  | .error _ => false

def requiredTotal : List AccountName :=
  insertNames p.requiredRegularApprovals
    (insertNames p.requiredMasterApprovals (insertNames p.requiredActiveApprovals []))

end ProposalObject

namespace Db

def findProposal (db : Db) (author : AccountName) (title : String) : Option ProposalObject :=
  db.proposals.get (·.key) (author, title)

def getProposal (db : Db) (author : AccountName) (title : String) : Result ProposalObject :=
  getOrThrow (db.findProposal author title) (.unknownKey "proposal by_account")

/-- `database::remove(const proposal_object&)` -/
def removeProposal (db : Db) (p : ProposalObject) : Db :=
  { db with
    requiredApprovals := db.requiredApprovals.filter fun r =>
      !(r.proposal = p.id && r.account ∈ p.requiredTotal)
    proposals := db.proposals.erase (·.id) p.id }

/-! ## Creating -/

/-- The checks of `proposal_create` and the accounts whose approval the operations need:
active without master, master, regular. -/
def proposalApprovals (db : Db) (author : AccountName) (title : String)
    (expirationTime : TimePointSec) (ops : List Operation) (review : Option TimePointSec) :
    Result RequiredAuthorities := do
  let _ ← db.getAccount author
  fcAssert (db.findProposal author title).isNone "Proposal already exists."
  let now := db.headBlockTime
  fcAssert (now < expirationTime) "Proposal has already expired on creation."
  fcAssert (expirationTime ≤ now + 60 * 60 * 24 * 7 * 4)
    "Proposal expiration time is too far in the future."
  fcAssert (∀ t ∈ review, now < t) "Proposal review period has expired on creation."
  fcAssert (∀ t ∈ review, t < expirationTime)
    "Proposal review period must be less than its overall lifetime."
  let required := collectRequired ops
  fcAssert (required.other = []) "other.size() == 0"
  -- master authority implies active authority
  let active := required.active.filter (· ∉ required.master)
  let total := insertNames active required.master
  fcAssert ((required.regular = []) ≠ (total = []))
    "Can't combine operations required regular authority and active or master authority"
  let total := insertNames required.regular total
  fcAssert (∀ name ∈ total, (db.findAccount name).isSome)
    "Account '$\x7baccount\x7d' for proposed operation doesn't exist"
  fcAssert (total ≠ []) "No operations require approvals"
  return { required with active := active }

/-- The proposal and one row for each account that has to approve it. -/
def storeProposal (db : Db) (author : AccountName) (title memo : String)
    (expirationTime : TimePointSec) (ops : List Operation) (review : Option TimePointSec)
    (required : RequiredAuthorities) : Db :=
  let p : ProposalObject :=
    { id := db.proposals.nextId, author := author, title := title, memo := memo
      expirationTime := expirationTime, reviewPeriodTime := review, proposedOperations := ops
      requiredActiveApprovals := required.active, requiredMasterApprovals := required.master
      requiredRegularApprovals := required.regular }
  { db with
    proposals := db.proposals.create fun _ => p
    requiredApprovals := p.requiredTotal.foldl
      (fun t name => t.create fun id => ⟨id, name, p.id⟩) db.requiredApprovals }

/-- The skip flags of the trial that `proposal_create` makes. -/
def proposalSkip : Skip :=
  { authorityCheck := true, transactionSignatures := true, taposCheck := true }

/-- `proposal_create_evaluator::do_apply`; the operations are tried in a session that is
undone. -/
def proposalCreateWith (apply : Depth → Db → Operation → Run Db) (env : Env) (depth : Depth)
    (db : Db) (author : AccountName) (title memo : String) (expirationTime : TimePointSec)
    (ops : List Operation) (review : Option TimePointSec) : Run Db := do
  let depth := { depth with create := depth.create + 1 }
  Traced.lift (fcAssert (env.producing = true → depth.create ≤ maxProposalDepth)
    "You can't create more than $\x7bdepth\x7d nested proposals")
  let required ← Traced.lift (db.proposalApprovals author title expirationTime ops review)
  let trx : SignedTransaction :=
    { refBlockNum := 0, refBlockPrefix := 0, expiration := db.headBlockTime + 60 * 60
      operations := ops, signatures := [] }
  Traced.lift (db.validateTransaction env proposalSkip trx)
  let _ ← Traced.dry Event.undone (applyTransactionWith (apply depth) env
    { proposalSkip with validateOperations := true } db trx)
  return db.storeProposal author title memo expirationTime ops review required

/-! ## Executing -/

/-- `database::push_proposal` -/
def pushProposalWith (apply : Db → Operation → Run Db) (db : Db) (p : ProposalObject) :
    Run Db := do
  let db ← p.proposedOperations.foldlM apply db
  return db.removeProposal p

/-- What the caller of a session that threw goes on with.  Running out of fuel is no exception
of the code. -/
def afterAttempt (db : Db) : Result Db → Result Db
  | .ok db' => .ok db'
  | .error .outOfFuel => .error .outOfFuel
  | .error _ => .ok db

/-! ## Updating -/

/-- Insertion into the `flat_set` of key approvals. -/
def insertKey (k : PublicKey) : List PublicKey → List PublicKey
  | [] => [k]
  | x :: rest => if k = x then x :: rest else if k < x then k :: x :: rest else x :: insertKey k rest

def insertKeys (keys l : List PublicKey) : List PublicKey :=
  keys.foldl (fun s k => insertKey k s) l

/-- `assert_irrelevant_proposal_authority`: a signature or an approval of this operation that
is of no use is an error, even when others are still missing.  `usedSignatures` are the keys
that the passes before have used. -/
def assertIrrelevantAuthority (db : Db) (p : ProposalObject) (o : ProposalUpdateOperation) :
    Nat → (active master regular : List AccountName) → (usedSignatures : List PublicKey) →
      Result Unit
  | 0, _, _, _, _ => .ok ()
  | n + 1, active, master, regular, usedSignatures =>
    match p.verify db active master regular with
    | .error (.txMissingActiveAuth missing used) =>
      if active ≠ [] then .error (.txMissingActiveAuth missing used)
      else assertIrrelevantAuthority db p o n (insertNames missing active) master regular
        (insertKeys used usedSignatures)
    | .error (.txMissingMasterAuth missing used) =>
      if master ≠ [] then .error (.txMissingMasterAuth missing used)
      else assertIrrelevantAuthority db p o n active (insertNames missing master) regular
        (insertKeys used usedSignatures)
    | .error (.txMissingRegularAuth missing used) =>
      if regular ≠ [] then .error (.txMissingRegularAuth missing used)
      else assertIrrelevantAuthority db p o n active master (insertNames missing regular)
        (insertKeys used usedSignatures)
    | .error (.txIrrelevantSig unused) =>
      if unused.any fun k => k ∈ o.keyApprovalsToAdd ∧ k ∉ usedSignatures then
        .error (.txIrrelevantSig unused)
      else .ok ()
    | .error (.txIrrelevantApproval unused) =>
      if unused.any (· ∈ o.activeApprovalsToAdd ++ o.masterApprovalsToAdd ++
        o.regularApprovalsToAdd) then .error (.txIrrelevantApproval unused)
      else .ok ()
    | r => r

def checkExisting {α : Type} [DecidableEq α] (toRemove dst : List α) : Result Unit :=
  fcAssert (∀ a ∈ toRemove, a ∈ dst) "Can't remove the non existing approval '$\x7bid\x7d'"

def checkDuplicate {α : Type} [DecidableEq α] (toAdd dst : List α) : Result Unit :=
  fcAssert (∀ a ∈ toAdd, a ∉ dst) "Can't add already exist approval '$\x7bid\x7d'"

/-- The approvals after a `proposal_update`. -/
def updateApprovals (o : ProposalUpdateOperation) (p : ProposalObject) : ProposalObject :=
  let names (toAdd toRemove old : List AccountName) : List AccountName :=
    (insertNames toAdd old).filter (· ∉ toRemove)
  { p with
    availableActiveApprovals :=
      names o.activeApprovalsToAdd o.activeApprovalsToRemove p.availableActiveApprovals
    availableMasterApprovals :=
      names o.masterApprovalsToAdd o.masterApprovalsToRemove p.availableMasterApprovals
    availableRegularApprovals :=
      names o.regularApprovalsToAdd o.regularApprovalsToRemove p.availableRegularApprovals
    availableKeyApprovals :=
      (insertKeys o.keyApprovalsToAdd p.availableKeyApprovals).filter
        (· ∉ o.keyApprovalsToRemove) }

/-- The checks of `proposal_update` and the approvals it stores. -/
def approveProposal (db : Db) (o : ProposalUpdateOperation) : Result (ProposalObject × Db) := do
  let p ← db.getProposal o.author o.title
  fcAssert (∀ t ∈ p.reviewPeriodTime, t ≤ db.headBlockTime →
    o.activeApprovalsToAdd = [] ∧ o.masterApprovalsToAdd = [] ∧ o.regularApprovalsToAdd = [] ∧
      o.keyApprovalsToAdd = [])
    "This proposal is in its review period. No new approvals may be added."
  checkExisting o.activeApprovalsToRemove p.availableActiveApprovals
  checkExisting o.masterApprovalsToRemove p.availableMasterApprovals
  checkExisting o.regularApprovalsToRemove p.availableRegularApprovals
  checkExisting o.keyApprovalsToRemove p.availableKeyApprovals
  checkDuplicate o.activeApprovalsToAdd p.availableActiveApprovals
  checkDuplicate o.masterApprovalsToAdd p.availableMasterApprovals
  checkDuplicate o.regularApprovalsToAdd p.availableRegularApprovals
  checkDuplicate o.keyApprovalsToAdd p.availableKeyApprovals
  return (updateApprovals o p,
    { db with proposals := db.proposals.update (·.key) p.key (updateApprovals o) })

/-- A proposal in review that nobody approves any more is of no use. -/
def reviewProposal (db : Db) (p : ProposalObject) (review : TimePointSec) : Db :=
  if review ≤ db.headBlockTime ∧ p.availableActiveApprovals = [] ∧
      p.availableMasterApprovals = [] ∧ p.availableRegularApprovals = [] ∧
      p.availableKeyApprovals = [] then db.removeProposal p
  else db

/-- `proposal_update_evaluator::do_apply` -/
def proposalUpdateWith (apply : Depth → Db → Operation → Run Db) (env : Env) (depth : Depth)
    (db : Db) (o : ProposalUpdateOperation) : Run Db := do
  let depth := { depth with update := depth.update + 1 }
  Traced.lift (fcAssert (env.producing = true → depth.update ≤ maxProposalDepth)
    "You can't create more than $\x7bdepth\x7d nested proposals")
  let (p, db) ← Traced.lift (db.approveProposal o)
  match p.reviewPeriodTime with
  | some review => return db.reviewProposal p review
  | none =>
    Traced.lift (db.assertIrrelevantAuthority p o 3 [] [] [] [])
    if p.isAuthorizedToExecute db then
      let r ← Traced.attempt Event.undone (pushProposalWith (apply depth) db p)
      Traced.lift (afterAttempt db r)
    else return db

/-- `proposal_delete_evaluator::do_apply` -/
def proposalDelete (db : Db) (o : ProposalDeleteOperation) : Result Db := do
  let p ← db.getProposal o.author o.title
  fcAssert (p.author = o.requester ∨ o.requester ∈ p.requiredActiveApprovals ∨
    o.requester ∈ p.requiredMasterApprovals ∨ o.requester ∈ p.requiredRegularApprovals)
    "Provided authority is not authoritative for this proposal."
  return db.removeProposal p

/-! ## Expiration -/

/-- The proposal that expires first, if it is due. -/
def dueProposal (db : Db) : Option ProposalObject :=
  (orderBy (fun p q => p.expirationTime < q.expirationTime) db.proposals.rows).head?.filter
    (·.expirationTime ≤ db.headBlockTime)

/-- One pass of the loop of `clear_expired_proposals`: an approved proposal is executed, any
other is dropped. -/
def clearProposalWith (apply : Db → Operation → Run Db) (db : Db) (p : ProposalObject) :
    Run Db := do
  if p.isAuthorizedToExecute db then
    let r ← Traced.attempt Event.undone (pushProposalWith apply db p)
    Traced.lift (afterAttempt (db.removeProposal p) r)
  else return db.removeProposal p

/-- `clear_expired_proposals` -/
def clearExpiredProposalsWith (apply : Db → Operation → Run Db) : Nat → Db → Run Db
  | 0, _ => Traced.lift (.error .outOfFuel)
  | n + 1, db =>
    match db.dueProposal with
    | none => return db
    | some p => do
      let db ← clearProposalWith apply db p
      clearExpiredProposalsWith apply n db

end Db

end VizCore.Chain
