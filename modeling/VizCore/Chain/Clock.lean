import VizCore.Chain.Conservation

/-!
# The local clock

Nodes with different clocks apply the same blocks.

* `applyBlocks_clock`: as long as no bid is accepted, two clocks lead to the same run;
* `bid_reads_clock`: an accepted bid stores a time that depends on the clock.
-/

namespace VizCore.Chain

open VizCore.Lib VizCore.Protocol

/-- The same node with another clock. -/
def Env.atClock (env : Env) (clock : Nat → TimePointSec) : Env := { env with clock := clock }

/-- The event is not a bid that is going to be accepted. -/
def Unbid (fc : Fc) : Event → Prop
  | .operation db (.buyAccount op) _ => ¬ Db.AcceptsBid fc db op
  | _ => True

theorem Unbid.of_undone {fc : Fc} {e : Event} (h : Unbid fc e.undone) : Unbid fc e := by
  cases e with
  | operation db op kept =>
    cases op with
    | buyAccount o => exact h
    | _ => trivial
  | step db b s kept => trivial

theorem Unbid.of_plain {fc : Fc} {e : Event} (h : e.plain = true) : Unbid fc e := by
  cases e with
  | operation db op kept =>
    cases op with
    | buyAccount o => cases h
    | _ => trivial
  | step db b s kept => trivial

namespace Db

variable {env : Env} {fc : Fc} {clock : Nat → TimePointSec}

/-- An evaluator that is not about to accept a bid does not look at the clock. -/
theorem evaluate_clock {producing : Bool} {db : Db} {op : Operation}
    (h : Unbid fc (.operation db op true)) (t t' : TimePointSec) :
    evaluate fc producing t' db op = evaluate fc producing t db op := by
  cases op with
  | buyAccount o =>
    have ht := buyAccount_clock h t
    have ht' := buyAccount_clock h t'
    exact ht'.trans ht.symm
  | _ => rfl

/-- Two ways to apply operations that agree. -/
def AppliesAlike (fc : Fc) (apply apply' : Db → Operation → Run Db) : Prop :=
  ∀ db op, Traced.Agree (Unbid fc) (apply db op) (apply' db op)

namespace AppliesAlike

variable {apply apply' : Db → Operation → Run Db}

theorem transaction (h : AppliesAlike fc apply apply') (skip : Skip) (db : Db)
    (trx : SignedTransaction) :
    Traced.Agree (Unbid fc) (applyTransactionWith apply env skip db trx)
      (applyTransactionWith apply' (env.atClock clock) skip db trx) := by
  unfold applyTransactionWith
  refine Traced.Agree.bind (.refl _ _) fun db' => ?_
  exact .foldlM trx.operations h db'

theorem pushProposal (h : AppliesAlike fc apply apply') (db : Db) (p : ProposalObject) :
    Traced.Agree (Unbid fc) (pushProposalWith apply db p) (pushProposalWith apply' db p) := by
  unfold pushProposalWith
  refine Traced.Agree.bind (.foldlM p.proposedOperations h db) fun db' => ?_
  exact .refl _ _

theorem attempt (h : AppliesAlike fc apply apply') (db : Db) (p : ProposalObject) :
    Traced.Agree (Unbid fc) (Traced.attempt Event.undone (pushProposalWith apply db p))
      (Traced.attempt Event.undone (pushProposalWith apply' db p)) :=
  (h.pushProposal db p).attempt fun _ => Unbid.of_undone

theorem clearExpired (h : AppliesAlike fc apply apply') (fuel : Nat) (db : Db) :
    Traced.Agree (Unbid fc) (clearExpiredProposalsWith apply fuel db)
      (clearExpiredProposalsWith apply' fuel db) := by
  induction fuel generalizing db with
  | zero => exact .refl _ _
  | succ fuel ih =>
    unfold clearExpiredProposalsWith
    split
    · exact .refl _ _
    · rename_i p hdue
      refine Traced.Agree.bind ?_ ih
      unfold clearProposalWith
      split
      · exact (h.attempt db p).bind fun r => .refl _ _
      · exact .refl _ _

end AppliesAlike

theorem proposalCreate_clock {apply apply' : Depth → Db → Operation → Run Db}
    (h : ∀ depth, AppliesAlike fc (apply depth) (apply' depth)) (depth : Depth) (db : Db)
    (author : AccountName) (title memo : String) (expirationTime : TimePointSec)
    (ops : List Operation) (review : Option TimePointSec) :
    Traced.Agree (Unbid fc)
      (proposalCreateWith apply env depth db author title memo expirationTime ops review)
      (proposalCreateWith apply' (env.atClock clock) depth db author title memo expirationTime ops
        review) := by
  unfold proposalCreateWith
  refine Traced.Agree.bind (.refl _ _) fun _ => ?_
  refine Traced.Agree.bind (.refl _ _) fun required => ?_
  refine Traced.Agree.bind (.refl _ _) fun _ => ?_
  refine Traced.Agree.bind ?_ fun _ => .refl _ _
  exact ((h _).transaction _ db _).dry fun _ => Unbid.of_undone

theorem proposalUpdate_clock {apply apply' : Depth → Db → Operation → Run Db}
    (h : ∀ depth, AppliesAlike fc (apply depth) (apply' depth)) (depth : Depth) (db : Db)
    (o : ProposalUpdateOperation) :
    Traced.Agree (Unbid fc) (proposalUpdateWith apply env depth db o)
      (proposalUpdateWith apply' (env.atClock clock) depth db o) := by
  unfold proposalUpdateWith
  refine Traced.Agree.bind (.refl _ _) fun _ => ?_
  refine Traced.Agree.bind (.refl _ _) fun r => ?_
  obtain ⟨p, db₁⟩ := r
  cases hreview : p.reviewPeriodTime with
  | some review =>
    simp only [hreview]
    exact .refl _ _
  | none =>
    simp only [hreview]
    refine Traced.Agree.bind (.refl _ _) fun _ => ?_
    split
    · exact ((h _).attempt db₁ p).bind fun r => .refl _ _
    · exact .refl _ _

/-- Operations do not look at the clock, together with all that they apply. -/
theorem applyOperation_clock (fuel : Nat) (depth : Depth) :
    AppliesAlike env.fc (applyOperation env fuel depth)
      (applyOperation (env.atClock clock) fuel depth) := by
  induction fuel generalizing depth with
  | zero => exact fun _ _ => .refl _ _
  | succ fuel ih =>
    intro db op
    unfold applyOperation
    refine Traced.Agree.report_bind fun hop => ?_
    unfold evaluateWith
    split
    · exact proposalCreate_clock (fun d => ih d) depth db _ _ _ _ _ _
    · exact proposalUpdate_clock (fun d => ih d) depth db _
    · intro n hC
      show Traced.bind Traced.tick _ n = Traced.bind Traced.tick _ n
      have hsame := @evaluate_clock env.fc env.producing db op hop (env.clock n) (clock n)
      exact congrArg (Prod.mk []) hsame

end Db

namespace Store

variable (env : Env) (clock : Nat → TimePointSec) (fuel : Nat) (skip : Skip)

theorem step_clock (s : Store) (b : SignedBlock) (st : BlockStep) :
    s.step (env.atClock clock) skip b st = s.step env skip b st := by
  unfold step
  cases st <;> rfl

/-- A block does not look at the clock. -/
theorem applyBlock_clock (s : Store) (b : SignedBlock) :
    Traced.Agree (Unbid env.fc) (s.applyBlock env fuel skip b)
      (s.applyBlock (env.atClock clock) fuel skip b) := by
  have hstep (s : Store) (st : BlockStep) : Traced.Agree (Unbid env.fc) (s.step env skip b st)
      (s.step (env.atClock clock) skip b st) := by
    rw [step_clock]
    exact .refl _ _
  have hops : Db.AppliesAlike env.fc (Db.applyOperation env fuel {})
      (Db.applyOperation (env.atClock clock) fuel {}) := Db.applyOperation_clock fuel {}
  unfold applyBlock
  refine (hstep s _).bind fun s => ?_
  refine Traced.Agree.bind (.mapBoth (.foldlM b.transactions
    (fun db trx => hops.transaction skip db trx) s.db)) fun s => ?_
  refine (hstep s _).bind fun s => ?_
  refine (hstep s _).bind fun s => ?_
  refine Traced.Agree.bind (.refl _ _) fun s => ?_
  refine (hstep s _).bind fun s => ?_
  refine Traced.Agree.bind (.mapBoth (hops.clearExpired _ s.db)) fun s => ?_
  refine Traced.Agree.bind (.foldlM closingSteps (fun s st => hstep s st) s) fun s => ?_
  exact Traced.Agree.bind (.refl _ _) fun s => .refl _ _

/-- **Two clocks.**  When no operation of a run of blocks is a bid that gets accepted, the run
is the same at every other clock: it fails or returns at the same place, with the same store,
and so do the blocks that follow. -/
theorem applyBlocks_clock (s : Store) (bs : List SignedBlock) (n : Nat)
    (hbids : ∀ e ∈ (s.applyBlocks env fuel skip bs n).1, Unbid env.fc e) :
    s.applyBlocks (env.atClock clock) fuel skip bs n = s.applyBlocks env fuel skip bs n := by
  unfold applyBlocks at hbids ⊢
  exact Traced.Agree.foldlM bs (fun s b => applyBlock_clock env clock fuel skip s b) s n hbids

theorem applyBlocks_clock_transfer :
    (smallStore [{ id := 4, name := "bob" }]).applyBlocks (smallEnv.atClock fun _ => 2000) 2
        { merkleCheck := true } [smallBlock [smallTransfer]] 0 =
      (smallStore [{ id := 4, name := "bob" }]).applyBlocks smallEnv 2 { merkleCheck := true }
        [smallBlock [smallTransfer]] 0 := by
  have hplain : ∀ e ∈ ((smallStore [{ id := 4, name := "bob" }]).applyBlocks smallEnv 2
      { merkleCheck := true } [smallBlock [smallTransfer]] 0).1, e.plain = true := by
    decide +kernel
  exact applyBlocks_clock smallEnv (fun _ => 2000) 2 { merkleCheck := true } _ _ 0
    fun e he => Unbid.of_plain (hplain e he)

end Store

/-- When the sale of an account starts. -/
def Db.saleStartOf (db : Db) (name : AccountName) : Option TimePointSec :=
  (db.findAccount name).map (·.accountOnSaleStartTime)

/-- A bid is accepted at both clocks, and the sale of the account starts at two times. -/
theorem bid_reads_clock :
    ∃ s₁ s₂, (auctionStore.applyBlocks smallEnv 2 { merkleCheck := true }
        [smallBlock [uncoveredBid]] 0).2 = .ok s₁ ∧
      (auctionStore.applyBlocks (smallEnv.atClock fun _ => 2000) 2 { merkleCheck := true }
        [smallBlock [uncoveredBid]] 0).2 = .ok s₂ ∧
      s₁.db.saleStartOf "carol" = some 1000 ∧ s₂.db.saleStartOf "carol" = some 2300 := by
  have hrun₁ : returns (auctionStore.applyBlocks smallEnv 2 { merkleCheck := true }
      [smallBlock [uncoveredBid]] 0).2
      (fun s => decide (s.db.saleStartOf "carol" = some 1000)) = true := by decide +kernel
  have hrun₂ : returns (auctionStore.applyBlocks (smallEnv.atClock fun _ => 2000) 2
      { merkleCheck := true } [smallBlock [uncoveredBid]] 0).2
      (fun s => decide (s.db.saleStartOf "carol" = some 2300)) = true := by decide +kernel
  obtain ⟨s₁, hs₁, hstart₁⟩ := returns_eq_true hrun₁
  obtain ⟨s₂, hs₂, hstart₂⟩ := returns_eq_true hrun₂
  exact ⟨s₁, s₂, hs₁, hs₂, of_decide_eq_true hstart₁, of_decide_eq_true hstart₂⟩

end VizCore.Chain
