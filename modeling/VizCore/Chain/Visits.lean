import VizCore.Chain.Execution
import VizCore.Chain.Invariant

/-!
# What every visited state satisfies

The events of a run carry the states that its operations and steps are applied to.

* `Framed.visits`: a property that does not depend on whether operations are valid holds in every
  state that a block visits, also in those that are undone;
* `Steady.visits`: this for a property of one aspect.
-/

namespace VizCore.Chain

open VizCore.Lib VizCore.Protocol

/-- The state that is visited. -/
def Event.db : Event → Db
  | .operation db _ _ => db
  | .step db _ _ _ => db

theorem Event.db_undone (e : Event) : e.undone.db = e.db := by
  cases e <;> rfl

namespace Db

/-- Applying operations keeps the property and visits only states that have it. -/
def Visits (I : Db → Prop) (apply : Db → Operation → Run Db) : Prop :=
  ∀ db op, I db → Traced.Safe (fun e => I e.db) (apply db op) I

variable {env : Env} {I : Db → Prop} {db : Db}

section Visits

variable {apply : Db → Operation → Run Db}

theorem Visits.foldlM (happly : Visits I apply) (ops : List Operation) (hdb : I db) :
    Traced.Safe (fun e => I e.db) (ops.foldlM apply db) I :=
  Traced.Safe.foldlM I apply ops (fun op _ d hd => happly d op hd) db hdb

theorem undone_visited (e : Event) (he : I e.db) : I e.undone.db := by
  rw [e.db_undone]
  exact he

theorem Visits.pushProposal (hI : Framed env I) (happly : Visits I apply) (p : ProposalObject)
    (hdb : I db) : Traced.Safe (fun e => I e.db) (pushProposalWith apply db p) I := by
  unfold pushProposalWith
  refine (happly.foldlM p.proposedOperations hdb).bind fun d hd => ?_
  exact .pure (hI.proposals d _ _ hd)

theorem Visits.transaction (hI : Framed env I) (happly : Visits I apply) (skip : Skip)
    (trx : SignedTransaction) (hdb : I db) :
    Traced.Safe (fun e => I e.db) (applyTransactionWith apply env skip db trx) I := by
  unfold applyTransactionWith
  refine Traced.Safe.bind (Q := I) (.lift fun d h => ?_) fun d hd => ?_
  · exact hI.opened skip db trx d hdb h
  · exact happly.foldlM trx.operations hd

end Visits

namespace Framed

variable {apply : Depth → Db → Operation → Run Db} {depth : Depth}

theorem proposalCreate (hI : Framed env I) (happly : ∀ d, Visits I (apply d))
    {author : AccountName} {title memo : String} {expirationTime : TimePointSec}
    {ops : List Operation} {review : Option TimePointSec} (hdb : I db) :
    Traced.Safe (fun e => I e.db)
      (proposalCreateWith apply env depth db author title memo expirationTime ops review) I := by
  unfold proposalCreateWith
  refine (Traced.Safe.lift fun _ _ => trivial).bind fun _ (_ : True) => ?_
  refine (Traced.Safe.lift fun _ _ => trivial).bind fun required (_ : True) => ?_
  refine (Traced.Safe.lift fun _ _ => trivial).bind fun _ (_ : True) => ?_
  refine (((happly _).transaction hI _ _ hdb).dry undone_visited).bind fun _ _ => .pure ?_
  exact hI.proposals db _ _ hdb

theorem proposalUpdate (hI : Framed env I) (happly : ∀ d, Visits I (apply d))
    {o : ProposalUpdateOperation} (hdb : I db) :
    Traced.Safe (fun e => I e.db) (proposalUpdateWith apply env depth db o) I := by
  unfold proposalUpdateWith
  refine (Traced.Safe.lift fun _ _ => trivial).bind fun _ (_ : True) => ?_
  refine Traced.Safe.bind (Q := fun r => I r.2) (.lift fun r h => ?_) fun r hr => ?_
  · obtain ⟨_, -, -, heq⟩ := approveProposal_eq h
    rw [heq]
    exact hI.proposals db _ _ hdb
  · obtain ⟨p, db₁⟩ := r
    cases hreview : p.reviewPeriodTime with
    | some review =>
      simp only [hreview]
      refine .pure ?_
      unfold reviewProposal
      split
      · exact hI.proposals db₁ _ _ hr
      · exact hr
    | none =>
      simp only [hreview]
      refine (Traced.Safe.lift fun _ _ => trivial).bind fun _ (_ : True) => ?_
      split
      · have hpush (d : Depth) := (happly d).pushProposal hI p hr
        exact ((hpush _).attempt undone_visited).bind fun _ h => afterAttempt_safe hr h
      · exact .pure hr

/-- **Operations** visit only states with the property. -/
theorem operation (hI : Framed env I) (fuel : Nat) (depth : Depth) :
    Visits I (applyOperation env fuel depth) := by
  induction fuel generalizing depth with
  | zero => exact fun _ _ _ => .lift fun _ h => nomatch h
  | succ fuel ih =>
    intro db op hdb
    unfold applyOperation
    have hvisit : Traced.Safe (fun e : Event => I e.db) (Traced.report (.operation db op true) :
        Run Unit) fun _ => True := .report hdb
    refine hvisit.bind fun _ _ => ?_
    unfold evaluateWith
    split
    · exact hI.proposalCreate (fun d => ih d) hdb
    · exact hI.proposalUpdate (fun d => ih d) hdb
    · refine Traced.Safe.tick.bind fun n _ => ?_
      exact .lift fun db' h => hI.evaluate _ db op db' hdb h

theorem expiredProposals (hI : Framed env I) (fuel : Nat) (hdb : I db) :
    Traced.Safe (fun e => I e.db) (clearExpiredProposals env fuel db) I := by
  unfold clearExpiredProposals
  generalize db.proposals.rows.length + 1 = m
  induction m generalizing db with
  | zero => exact .lift fun _ h => nomatch h
  | succ m ih =>
    unfold clearExpiredProposalsWith
    split
    · exact .pure hdb
    · rename_i p hdue
      have hremoved : I (db.removeProposal p) := hI.proposals db _ _ hdb
      have hpass : Traced.Safe (fun e => I e.db)
          (clearProposalWith (applyOperation env fuel {}) db p) I := by
        unfold clearProposalWith
        split
        · have hpush := (hI.operation fuel {}).pushProposal hI p hdb
          exact (hpush.attempt undone_visited).bind fun _ h => afterAttempt_safe hremoved h
        · exact .pure hremoved
      exact hpass.bind fun d hd => ih hd

/-- **Blocks** visit only states with the property. -/
theorem visits (hI : Framed env I) (hfinal : KeepsFinality I) {skip : Skip} {b : SignedBlock}
    (hstep : ∀ db st db', I db → BlockStep.run env skip b db st = .ok db' → I db') (fuel : Nat)
    {s : Store} (hs : I s.db) :
    Traced.Safe (fun e => I e.db) (s.applyBlock env fuel skip b) fun t => I t.db := by
  refine Store.applyBlock_rule hfinal (fun _ _ h => h) hstep ?_ ?_ hs
  · exact fun trx db h => (hI.operation fuel {}).transaction hI skip trx h
  · exact fun db h => hI.expiredProposals fuel h

end Framed

end Db

section Aspect

variable {env : Env} {x : Aspect} {P : x.View → Prop}

/-- A property of an aspect, kept by the operations that touch the aspect. -/
theorem Steady.framed (hP : Steady x P) (hx : x ≠ .proposals) (hx' : x ≠ .records)
    (hop : ∀ clock db op db', Operation.touches x op = true →
      Db.evaluate env.fc env.producing clock db op = .ok db' → P (db.view x) → P (db'.view x)) :
    Db.Framed env fun db => P (db.view x) where
  evaluate clock db op db' hdb h := by
    cases htouch : Operation.touches x op with
    | false => exact hP.drift (evaluate_drift htouch h) hdb
    | true => exact hop clock db op db' htouch h hdb
  proposals db t r hdb := by
    rw [Db.view_setProposals hx]
    exact hdb
  opened skip db trx db' hdb h := by
    rw [Db.openTransaction_view hx' h]
    exact hdb

/-- **An aspect** has the property in every state that a block visits. -/
theorem Steady.visits (hP : Steady x P) (hx : x ≠ .proposals) (hx' : x ≠ .records)
    (hx'' : x ≠ .finality)
    (hop : ∀ clock db op db', Operation.touches x op = true →
      Db.evaluate env.fc env.producing clock db op = .ok db' → P (db.view x) → P (db'.view x))
    (hstep : ∀ skip b db (st : BlockStep) db', st.touches x = true →
      st.run env skip b db = .ok db' → P (db.view x) → P (db'.view x))
    (fuel : Nat) (skip : Skip) (b : SignedBlock) {s : Store} (hs : P (s.db.view x)) :
    Traced.Safe (fun e => P (e.db.view x)) (s.applyBlock env fuel skip b)
      fun t => P (t.db.view x) := by
  have hfinal : KeepsFinality fun db => P (db.view x) := by
    constructor
    · intro db num id hdb
      rw [Db.view_setIrreversible hx'']
      exact hdb
    · intro db t hdb
      rw [Db.view_setValidations hx'']
      exact hdb
  refine (hP.framed hx hx' hop).visits hfinal (fun db st db' hdb h => ?_) fuel hs
  cases htouch : st.touches x with
  | false => exact hP.drift (BlockStep.run_drift htouch h) hdb
  | true => exact hstep skip b db st db' htouch h hdb

end Aspect

end VizCore.Chain
