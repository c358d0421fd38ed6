import VizCore.Lib.Walk
import VizCore.Chain.Push

/-!
# Pending transactions

What happens to the transactions that wait for a block when the chain under them changes.

* `pushBlockCore_reached`: what `_push_block` is made of;
* `pending_kept`: every transaction that was pending or popped is pending again, or is known, or
  has failed;
* `pending_visible`: as long as the time suffices, the state is the head state with the pending
  transactions applied.
-/

namespace VizCore.Chain

open VizCore.Lib VizCore.Protocol

namespace Node

variable {env : Env} {fuel : Nat} {skip : Skip} {n m : Node} {b : SignedBlock}

/-! ## The moves of `_push_block` -/

/-- The store that a computation leaves behind. -/
def leftStore : StoreResult Store → Store
  | .ok s => s
  | .error (_, s) => s

/-- The node `m` is reached from `n` by changes of the fork database, applied blocks, which may
fail, and popped blocks.  The popped blocks are listed, the last one first. -/
inductive Moves (env : Env) (fuel : Nat) (skip : Skip) (n : Node) : List SignedBlock → Node → Prop
  | refl : Moves env fuel skip n [] n
  | fork {bs : List SignedBlock} {m : Node} (f : ForkDb) (h : Moves env fuel skip n bs m) :
      Moves env fuel skip n bs { m with forkDb := f }
  | apply {bs : List SignedBlock} {m : Node} (b : SignedBlock) (h : Moves env fuel skip n bs m) :
      Moves env fuel skip n bs
        { m with toStore := leftStore (m.applyInSession env fuel skip b) }
  | pop {bs : List SignedBlock} {m m' : Node} {b : SignedBlock} (h : Moves env fuel skip n bs m)
      (head : m.resetPendingSession.fetchBlockById env m.resetPendingSession.db.dgp.headBlockId =
        some b)
      (step : m.popBlock env = .ok m') : Moves env fuel skip n (b :: bs) m'

/-- In the course of `_push_block`: the pending session is closed. -/
def Reached (env : Env) (fuel : Nat) (skip : Skip) (n m : Node) : Prop :=
  m.pendingSession = false ∧ ∃ bs, Moves env fuel skip n bs m

/-- A part of `_push_block` ends in such a node, also when it throws. -/
abbrev Continues {α : Type} (env : Env) (fuel : Nat) (skip : Skip) (n : Node) (Q : α → Prop)
    (r : NodeResult α) : Prop :=
  Ends (fun e => Reached env fuel skip n e.2) Q r

theorem resetPendingSession_of_closed (h : m.pendingSession = false) :
    m.resetPendingSession = m := by
  unfold resetPendingSession
  rw [h]
  rfl

theorem lift_ends {α : Type} {P : Node → Prop} (h : P n) (r : Result α) :
    Ends (fun e => P e.2) (fun a => r = .ok a) (n.lift r) := by
  cases r with
  | ok a => exact rfl
  | error e => exact h

namespace Reached

theorem lift {α : Type} {r : Result α} (h : Reached env fuel skip n m) :
    Continues env fuel skip n (fun a => r = .ok a) (m.lift r) :=
  lift_ends h r

theorem fork (h : Reached env fuel skip n m) (f : ForkDb) :
    Reached env fuel skip n { m with forkDb := f } := by
  obtain ⟨hclosed, bs, hmoves⟩ := h
  exact ⟨hclosed, bs, hmoves.fork f⟩

theorem apply (h : Reached env fuel skip n m) (b : SignedBlock) :
    Continues env fuel skip n (Reached env fuel skip n)
      (m.onStore (m.applyInSession env fuel skip b)) := by
  obtain ⟨hclosed, bs, hmoves⟩ := h
  have hnext := hmoves.apply b
  cases hrun : m.applyInSession env fuel skip b with
  | ok s =>
    rw [hrun] at hnext
    exact ⟨hclosed, bs, hnext⟩
  | error e =>
    rw [hrun] at hnext
    exact ⟨hclosed, bs, hnext⟩

theorem popBlock (h : Reached env fuel skip n m) :
    Continues env fuel skip n (Reached env fuel skip n) (m.popBlock env) := by
  obtain ⟨hclosed, bs, hmoves⟩ := h
  have hreset := resetPendingSession_of_closed hclosed
  have hrun : ∀ m', m.popBlock env = .ok m' → Reached env fuel skip n m' := by
    intro m' hstep
    have hpop := hstep
    simp only [Node.popBlock, hreset, bind_eq_ok] at hpop
    obtain ⟨b, hb, f, -, hm'⟩ := hpop
    have hhead : m.fetchBlockById env m.db.dgp.headBlockId = some b := by
      cases hfetch : m.fetchBlockById env m.db.dgp.headBlockId with
      | none =>
        rw [hfetch] at hb
        cases hb
      | some c =>
        rw [hfetch] at hb
        cases hb
        rfl
    refine ⟨?_, b :: bs, hmoves.pop ?_ hstep⟩
    · cases hm'
      exact hclosed
    · rw [hreset]
      exact hhead
  have herror : Continues env fuel skip n (fun _ => True) (m.popBlock env) := by
    simp only [Node.popBlock, hreset]
    refine (lift ⟨hclosed, bs, hmoves⟩).bind fun b _ => ?_
    refine (lift ⟨hclosed, bs, hmoves⟩).bind fun f _ => ?_
    exact trivial
  cases hcase : m.popBlock env with
  | ok m' => exact hrun m' hcase
  | error e => exact herror.of_error hcase

theorem popTo (target : BlockId) (k : Nat) (h : Reached env fuel skip n m) :
    Continues env fuel skip n (Reached env fuel skip n) (Node.popTo env target k m) := by
  induction k generalizing m with
  | zero => exact h
  | succ k ih =>
    unfold Node.popTo
    split
    · exact h.popBlock.bind fun m' hm' => ih hm'
    · exact h

theorem applyBranch (items : List ForkItem) (h : Reached env fuel skip n m) :
    Ends (fun e => Reached env fuel skip n e.2.1) (Reached env fuel skip n)
      (Node.applyBranch env fuel skip items m) := by
  induction items generalizing m with
  | nil => exact h
  | cons item rest ih =>
    have hblock := h.apply item.data
    unfold Node.applyBranch
    split
    · rename_i m' hm'
      exact ih (hblock.of_ok hm')
    · rename_i e m' hm'
      exact hblock.of_error hm'

theorem restoreBranch (second failed : List ForkItem) (base : BlockId)
    (h : Reached env fuel skip n m) :
    Continues env fuel skip n (Reached env fuel skip n)
      (m.restoreBranch env fuel skip second failed base) := by
  unfold Node.restoreBranch
  refine ((h.fork _).popTo base _).bind fun m₁ h₁ => ?_
  have hbranch := h₁.applyBranch second.reverse
  split
  · rename_i m₂ hm₂
    exact hbranch.of_ok hm₂
  · rename_i e m₂ rest hm₂
    exact hbranch.of_error hm₂

theorem switchForks (newHead : ForkItem) (h : Reached env fuel skip n m) :
    Continues env fuel skip n (Reached env fuel skip n)
      (m.switchForks env fuel skip newHead) := by
  unfold Node.switchForks
  refine h.lift.bind fun branches _ => ?_
  refine h.lift.bind fun last _ => ?_
  refine ((h.fork _).popTo _ _).bind fun m₁ h₁ => ?_
  have hbranch := h₁.applyBranch branches.1.reverse
  split
  · rename_i m₂ hm₂
    exact hbranch.of_ok hm₂
  · rename_i e m₂ failed hm₂
    have h₂ : Reached env fuel skip n m₂ := hbranch.of_error hm₂
    exact (h₂.restoreBranch branches.2 failed last.data.previous).bind fun m₃ h₃ => h₃

theorem releasing {r : NodeResult Node}
    (h : Continues env fuel skip n (Reached env fuel skip n) r) :
    Continues env fuel skip n (Reached env fuel skip n) (Node.releasing r) := by
  cases r with
  | ok m => exact Reached.fork h _
  | error e => exact Reached.fork h _

theorem appendBlock (b : SignedBlock) (h : Reached env fuel skip n m) :
    Continues env fuel skip n (Reached env fuel skip n) (m.appendBlock env fuel skip b) := by
  have hblock := h.apply b
  unfold Node.appendBlock
  split
  · rename_i m' hm'
    exact hblock.of_ok hm'
  · rename_i e m' hm'
    exact (hblock.of_error hm').fork _

theorem pushBlockCore (b : SignedBlock) (h : Reached env fuel skip n m) :
    Continues env fuel skip n (fun r => Reached env fuel skip n r.1)
      (m.pushBlockCore env fuel skip b) := by
  unfold Node.pushBlockCore
  split
  · exact (h.appendBlock b).bind fun m₁ h₁ => h₁
  · refine h.lift.bind fun f _ => ?_
    refine (h.fork f).lift.bind fun newHead _ => ?_
    split
    · exact ((h.fork f).appendBlock b).bind fun m₁ h₁ => h₁
    · split
      · exact (releasing ((h.fork f).switchForks newHead)).bind fun m₁ h₁ => h₁
      · exact h.fork f

end Reached

/-- **What `_push_block` is made of.** -/
theorem pushBlockCore_reached (h : n.pendingSession = false) (b : SignedBlock) :
    Reached env fuel skip n (left (n.pushBlockCore env fuel skip b)) := by
  have hstart : Reached env fuel skip n n := ⟨h, [], .refl⟩
  have hrun := hstart.pushBlockCore b
  cases hcase : n.pushBlockCore env fuel skip b with
  | ok r => exact hrun.of_ok hcase
  | error e => exact hrun.of_error hcase

/-- The moves leave the pending list alone, and what was in a popped block is kept. -/
theorem Moves.transactions {bs : List SignedBlock} (h : Moves env fuel skip n bs m) :
    m.pendingTx = n.pendingTx ∧ m.poppedTx = bs.flatMap (·.transactions) ++ n.poppedTx := by
  induction h with
  | refl => exact ⟨rfl, rfl⟩
  | fork f h ih => exact ih
  | apply b h ih => exact ih
  | @pop bs m m' b h head step ih =>
    simp only [popBlock, bind_eq_ok, pure_eq_ok] at step
    obtain ⟨c, hc, f, -, rfl⟩ := step
    rw [head] at hc
    cases hc
    have hreset : m.resetPendingSession.pendingTx = m.pendingTx ∧
        m.resetPendingSession.poppedTx = m.poppedTx := by
      unfold resetPendingSession
      split
      · exact ⟨rfl, rfl⟩
      · exact ⟨rfl, rfl⟩
    refine ⟨hreset.1.trans ih.1, ?_⟩
    show b.transactions ++ m.resetPendingSession.poppedTx = _
    rw [hreset.2, ih.2, List.flatMap_cons, List.append_assoc]

/-! ## The pending session -/

/-- The state of the head block: what is left when the pending session is undone. -/
def headState (n : Node) : Db := n.resetPendingSession.db

/-- The transactions have been applied to `db`, one after the other.  The flags, the clock and
whether the node was producing may differ from one to the next. -/
inductive Reapplied (env : Env) (fuel : Nat) (db : Db) : List SignedTransaction → Db → Prop
  | nil : Reapplied env fuel db [] db
  | snoc {l : List SignedTransaction} {d d' : Db} {trx : SignedTransaction} (producing : Bool)
      (clock : Nat → TimePointSec) (skip : Skip) (h : Reapplied env fuel db l d)
      (run : (Db.applyTransaction { env with producing := producing, clock := clock } fuel skip d
        trx 0).2 = .ok d') :
      Reapplied env fuel db (l ++ [trx]) d'

/-- The node is over the head `base`, and the transactions `l` have been applied in the pending
session. -/
structure Over (env : Env) (fuel : Nat) (base : Store) (l : List SignedTransaction) (n : Node) :
    Prop where
  closed : n.pendingSession = false → n.toStore = base ∧ l = []
  opened : n.pendingSession = true →
    n.toStore = { base.startUndoSession with db := n.db } ∧ Reapplied env fuel base.db l n.db

namespace Over

variable {base : Store} {l : List SignedTransaction} {trx : SignedTransaction}

theorem of_closed (h : n.pendingSession = false) : Over env fuel n.toStore [] n where
  closed _ := ⟨rfl, rfl⟩
  opened hopen := by
    rw [h] at hopen
    cases hopen

theorem reset (h : Over env fuel base l n) : n.resetPendingSession.toStore = base := by
  unfold resetPendingSession
  split
  · rename_i hopen
    show n.undo = base
    rw [(h.opened hopen).1]
    exact base.undo_startUndoSession
  · rename_i hclosed
    exact (h.closed (Bool.not_eq_true _ ▸ hclosed)).1

theorem openPendingSession (h : Over env fuel base l n) :
    Over env fuel base l n.openPendingSession ∧ n.openPendingSession.pendingSession = true := by
  unfold Node.openPendingSession
  split
  · rename_i hopen
    exact ⟨h, hopen⟩
  · rename_i hclosed
    obtain ⟨hstore, hl⟩ := h.closed (Bool.not_eq_true _ ▸ hclosed)
    refine ⟨⟨fun hno => (nomatch hno), fun _ => ?_⟩, rfl⟩
    subst hl
    rw [hstore]
    exact ⟨rfl, .nil⟩

/-- A transaction that is applied joins the session; one that fails changes nothing. -/
theorem pushTransactionCore {producing : Bool} {clock : Nat → TimePointSec}
    (h : Over env fuel base l n) :
    (∃ n', n.pushTransactionCore { env with producing := producing, clock := clock } fuel skip trx =
        .ok n' ∧ Over env fuel base (l ++ [trx]) n' ∧ n'.pendingTx = n.pendingTx ++ [trx] ∧
        n'.poppedTx = n.poppedTx ∧ n'.pendingSession = true) ∨
      ∃ e n' d, n.pushTransactionCore { env with producing := producing, clock := clock } fuel skip
          trx = .error (e, n') ∧ Over env fuel base l n' ∧ n'.pendingTx = n.pendingTx ∧
        n'.poppedTx = n.poppedTx ∧ n'.pendingSession = true ∧ Reapplied env fuel base.db l d ∧
        (Db.applyTransaction { env with producing := producing, clock := clock } fuel skip d trx
          0).2 = .error e := by
  obtain ⟨hover, hopen⟩ := h.openPendingSession
  have htx : n.openPendingSession.pendingTx = n.pendingTx ∧
      n.openPendingSession.poppedTx = n.poppedTx := by
    unfold Node.openPendingSession
    split
    · exact ⟨rfl, rfl⟩
    · exact ⟨rfl, rfl⟩
  obtain ⟨hstore, hl⟩ := hover.opened hopen
  unfold Node.pushTransactionCore
  rw [← htx.1, ← htx.2]
  generalize n.openPendingSession = m at *
  dsimp only
  split
  · rename_i e he
    refine .inr ⟨e, _, m.db, rfl, ?_, rfl, rfl, hopen, hl, he⟩
    rw [Store.undo_startUndoSession]
    exact hover
  · rename_i d hd
    refine .inl ⟨_, rfl, ⟨fun hno => ?_, fun _ => ⟨?_, ?_⟩⟩, rfl, rfl, hopen⟩
    · rw [hopen] at hno
      cases hno
    · rw [Store.squash_startUndoSession, hstore]
    · rw [Store.squash_startUndoSession]
      exact hl.snoc producing clock skip hd

theorem reapplied (h : Over env fuel base l n) : Reapplied env fuel base.db l n.db := by
  cases hsession : n.pendingSession with
  | false =>
    obtain ⟨hstore, rfl⟩ := h.closed hsession
    rw [← hstore]
    exact .nil
  | true => exact (h.opened hsession).2

end Over

/-! ## What becomes of a transaction -/

inductive Fate
  | pending
  | known
  | failed
  deriving DecidableEq

/-- The transactions that are pending again, in their order. -/
def stillPending (fates : List (SignedTransaction × Fate)) : List SignedTransaction :=
  (fates.filter fun p => p.2 = .pending).map Prod.fst

theorem stillPending_append (f g : List (SignedTransaction × Fate)) :
    stillPending (f ++ g) = stillPending f ++ stillPending g := by
  unfold stillPending
  rw [List.filter_append, List.map_append]

theorem stillPending_waiting (w : List SignedTransaction) :
    stillPending (w.map fun trx => (trx, Fate.pending)) = w := by
  induction w with
  | nil => rfl
  | cons trx w ih =>
    rw [List.map_cons, ← List.singleton_append, stillPending_append, ih]
    rfl

/-- A transaction that is not pending again was known, or has failed, on the state `db` with
the first of the pending transactions `l` applied. -/
def Explained (env : Env) (fuel : Nat) (skip : Skip) (db : Db) (l : List SignedTransaction)
    (p : SignedTransaction × Fate) : Prop :=
  match p.2 with
  | .pending => True
  | .known => ∃ k d, k <+: l ∧ Reapplied env fuel db k d ∧
      (d.transactions.get (·.trxId) (env.trxId p.1.toTransaction)).isSome
  | .failed => ∃ k d e, k <+: l ∧ Reapplied env fuel db k d ∧
      (Db.applyTransaction env fuel skip d p.1 0).2 = .error e

theorem Explained.mono {db : Db} {l l' : List SignedTransaction} {p : SignedTransaction × Fate}
    (h : Explained env fuel skip db l p) (hl : l <+: l') : Explained env fuel skip db l' p := by
  obtain ⟨trx, fate⟩ := p
  cases fate with
  | pending => exact trivial
  | known =>
    obtain ⟨k, d, hk, hd⟩ := h
    exact ⟨k, d, hk.trans hl, hd⟩
  | failed =>
    obtain ⟨k, d, e, hk, hd⟩ := h
    exact ⟨k, d, e, hk.trans hl, hd⟩

/-- The node after some transactions have been restored over the head `base`. -/
structure Restored (env : Env) (fuel : Nat) (skip : Skip) (base : Store)
    (l : List SignedTransaction) (fates : List (SignedTransaction × Fate)) (n : Node) : Prop where
  session : Over env fuel base (l ++ stillPending fates) n
  pendingTx : n.pendingTx = l ++ stillPending fates
  explained : ∀ p ∈ fates, Explained env fuel skip base.db (l ++ stillPending fates) p

variable {base : Store} {l : List SignedTransaction}

/-- **One transaction** is restored. -/
theorem restoreOne_restored (h : Over env fuel base l n) (hl : n.pendingTx = l)
    (trx : SignedTransaction) :
    ∃ fate, Restored env fuel skip base l [(trx, fate)] (n.restoreOne env fuel skip trx) := by
  unfold restoreOne
  split
  · rename_i hknown
    have hsame : l ++ stillPending [(trx, Fate.known)] = l := List.append_nil l
    refine ⟨.known, ?_, ?_, ?_⟩
    · rw [hsame]
      exact h
    · rw [hsame]
      exact hl
    · intro p hp
      rw [List.mem_singleton.1 hp, hsame]
      exact ⟨l, n.db, List.prefix_rfl, h.reapplied, hknown⟩
  · rcases @Over.pushTransactionCore env fuel skip n base l trx env.producing env.clock h with
      ⟨n', hrun, hover, htx, -⟩ | ⟨e, n', d, hrun, hover, htx, -, -, hd, herror⟩
    · have hrun' : n.pushTransactionCore env fuel skip trx = .ok n' := hrun
      rw [hrun']
      refine ⟨.pending, hover, ?_, ?_⟩
      · exact htx.trans (congrArg (· ++ [trx]) hl)
      · intro p hp
        rw [List.mem_singleton.1 hp]
        exact trivial
    · have hrun' : n.pushTransactionCore env fuel skip trx = .error (e, n') := hrun
      have hsame : l ++ stillPending [(trx, Fate.failed)] = l := List.append_nil l
      rw [hrun']
      refine ⟨.failed, ?_, ?_, ?_⟩
      · rw [hsame]
        exact hover
      · rw [hsame]
        exact htx.trans hl
      · intro p hp
        rw [List.mem_singleton.1 hp, hsame]
        exact ⟨l, d, e, List.prefix_rfl, hd, herror⟩

/-- **The loop of the restorer**, as long as there is time. -/
theorem restoreAll_restored (w : List SignedTransaction) (h : Over env fuel base l n)
    (hl : n.pendingTx = l) :
    ∃ fates, fates.map Prod.fst = w ∧ Restored env fuel skip base l fates
      (w.foldl (fun n trx => n.restoreOne env fuel skip trx) n) := by
  induction w generalizing n l with
  | nil =>
    have hsame : l ++ stillPending [] = l := List.append_nil l
    refine ⟨[], rfl, ?_, ?_, fun p hp => absurd hp List.not_mem_nil⟩
    · rw [hsame]
      exact h
    · rw [hsame]
      exact hl
  | cons trx w ih =>
    obtain ⟨fate, hfirst⟩ := @restoreOne_restored env fuel skip n base l h hl trx
    obtain ⟨fates, hfates, hrest⟩ := ih hfirst.session hfirst.pendingTx
    have hsplit : l ++ stillPending ((trx, fate) :: fates) =
        l ++ stillPending [(trx, fate)] ++ stillPending fates := by
      rw [List.append_assoc, ← stillPending_append]
      rfl
    refine ⟨(trx, fate) :: fates, by rw [List.map_cons, hfates], ?_, ?_, ?_⟩
    · rw [hsplit]
      exact hrest.session
    · rw [hsplit]
      exact hrest.pendingTx
    · intro p hp
      rw [hsplit]
      rcases List.mem_cons.1 hp with rfl | hp
      · exact (hfirst.explained _ List.mem_cons_self).mono (List.prefix_append _ _)
      · exact hrest.explained p hp

/-- The node after `_push_block`, over which the transactions are restored. -/
def pushed (env : Env) (fuel : Nat) (skip : Skip) (n : Node) (b : SignedBlock) : Node :=
  left (n.clearPending.pushBlockCore env fuel skip b)

theorem left_pushBlock (budget : Nat) : left (n.pushBlock env fuel skip budget b) =
    (n.pushed env fuel skip b).restorePending env fuel skip budget n.pendingTx := by
  unfold pushBlock pushed
  cases n.clearPending.pushBlockCore env fuel skip b with
  | ok r => rfl
  | error e => rfl

theorem clearPending_closed (n : Node) : n.clearPending.pendingSession = false := by
  unfold clearPending resetPendingSession
  split
  · rfl
  · rename_i hclosed
    exact Bool.not_eq_true _ ▸ hclosed

theorem clearPending_poppedTx (n : Node) : n.clearPending.poppedTx = n.poppedTx := by
  unfold clearPending resetPendingSession
  split
  · rfl
  · rfl

theorem pushed_closed (n : Node) (b : SignedBlock) :
    (n.pushed env fuel skip b).pendingSession = false ∧
      (n.pushed env fuel skip b).pendingTx = [] := by
  obtain ⟨hclosed, bs, hmoves⟩ :=
    @pushBlockCore_reached env fuel skip n.clearPending n.clearPending_closed b
  exact ⟨hclosed, hmoves.transactions.1⟩

/-- **Pending transactions are not lost.**  After `push_block`, whether it returned or threw,
every transaction that was in a popped block or in the pending list is pending again, in this
order, or it was known, or it has failed on the new head state with the pending transactions
before it. -/
theorem pending_kept (env : Env) (fuel : Nat) (skip : Skip) (budget : Nat) (n : Node)
    (b : SignedBlock) :
    ∃ popped fates, Moves env fuel skip n.clearPending popped (n.pushed env fuel skip b) ∧
      fates.map Prod.fst = popped.flatMap (·.transactions) ++ n.poppedTx ++ n.pendingTx ∧
      (left (n.pushBlock env fuel skip budget b)).pendingTx = stillPending fates ∧
      (left (n.pushBlock env fuel skip budget b)).headState = (n.pushed env fuel skip b).db ∧
      ∀ p ∈ fates, Explained env fuel skip (n.pushed env fuel skip b).db (stillPending fates) p := by
  obtain ⟨hclosed, popped, hmoves⟩ :=
    @pushBlockCore_reached env fuel skip n.clearPending n.clearPending_closed b
  have htx := hmoves.transactions
  rw [left_pushBlock]
  change (n.pushed env fuel skip b).pendingSession = false at hclosed
  change Moves env fuel skip n.clearPending popped (n.pushed env fuel skip b) at hmoves
  change (n.pushed env fuel skip b).pendingTx = [] ∧
    (n.pushed env fuel skip b).poppedTx = _ at htx
  rw [clearPending_poppedTx] at htx
  generalize n.pushed env fuel skip b = m at *
  obtain ⟨fates, hfates, hrestored⟩ := @restoreAll_restored env fuel skip m m.toStore []
    ((m.poppedTx ++ n.pendingTx).take budget) (.of_closed hclosed) htx.1
  let rest := ((m.poppedTx ++ n.pendingTx).drop budget).map fun trx => (trx, Fate.pending)
  have hrest : stillPending rest = (m.poppedTx ++ n.pendingTx).drop budget :=
    stillPending_waiting _
  refine ⟨popped, fates ++ rest, hmoves, ?_, ?_, ?_, ?_⟩
  · rw [List.map_append, hfates, ← htx.2]
    have hwaiting : rest.map Prod.fst = (m.poppedTx ++ n.pendingTx).drop budget := by
      simp only [rest, List.map_map, Function.comp_def, List.map_id']
    rw [hwaiting, List.take_append_drop]
  · rw [stillPending_append, hrest]
    exact congrArg (· ++ (m.poppedTx ++ n.pendingTx).drop budget) hrestored.pendingTx
  · have hreset := hrestored.session.reset
    unfold headState restorePending
    unfold resetPendingSession at hreset ⊢
    dsimp only at hreset ⊢
    split
    · rename_i hopen
      rw [if_pos hopen] at hreset
      exact congrArg Store.db hreset
    · rename_i hopen
      rw [if_neg hopen] at hreset
      exact congrArg Store.db hreset
  · intro p hp
    rw [stillPending_append]
    rcases List.mem_append.1 hp with hp | hp
    · exact (hrestored.explained p hp).mono (List.prefix_append _ _)
    · obtain ⟨trx, -, rfl⟩ := List.mem_map.1 hp
      exact trivial

/-! ## The public calls -/

theorem Reapplied.of_clock {clock : Nat → TimePointSec} {db d : Db}
    (h : Reapplied { env with clock := clock } fuel db l d) : Reapplied env fuel db l d := by
  induction h with
  | nil => exact .nil
  | snoc producing clock skip h run ih => exact ih.snoc producing clock skip run

theorem Over.of_clock {clock : Nat → TimePointSec}
    (h : Over { env with clock := clock } fuel base l n) : Over env fuel base l n where
  closed := h.closed
  opened hopen := ⟨(h.opened hopen).1, (h.opened hopen).2.of_clock⟩

/-- The list of pending transactions is what has been applied in the pending session. -/
def Orderly (env : Env) (fuel : Nat) (n : Node) : Prop := ∃ base, Over env fuel base n.pendingTx n

/-- If there are pending transactions, the pending session is open, and the state is the state
of the head block with these transactions applied. -/
def Visible (env : Env) (fuel : Nat) (n : Node) : Prop :=
  n.pendingTx ≠ [] → n.pendingSession = true ∧ Reapplied env fuel n.headState n.pendingTx n.db

theorem Orderly.visible (h : Orderly env fuel n) : Visible env fuel n := by
  intro hne
  obtain ⟨base, hover⟩ := h
  have hhead : n.headState = base.db := congrArg Store.db hover.reset
  cases hsession : n.pendingSession with
  | false => exact absurd (hover.closed hsession).2 hne
  | true =>
    refine ⟨rfl, ?_⟩
    rw [hhead]
    exact hover.reapplied

/-- The restorer has enough time for all the transactions. -/
def InTime (env : Env) (fuel : Nat) (skip : Skip) (budget : Nat) (n : Node) (b : SignedBlock) :
    Prop :=
  (n.pushed env fuel skip b).poppedTx.length + n.pendingTx.length ≤ budget

theorem pushTransaction_orderly (h : Orderly env fuel n) (trx : SignedTransaction) :
    Ends (fun e => Orderly env fuel e.2) (Orderly env fuel)
      (n.pushTransaction env fuel skip trx) := by
  unfold pushTransaction
  obtain ⟨base, hover⟩ := h
  refine (lift_ends (P := Orderly env fuel) ⟨base, hover⟩ _).bind fun _ _ => ?_
  rcases @Over.pushTransactionCore env fuel skip n base n.pendingTx trx true env.clock hover with
    ⟨n', hrun, hover', htx, -⟩ | ⟨e, n', d, hrun, hover', htx, -⟩
  · have hrun' : n.pushTransactionCore { env with producing := true } fuel skip trx = .ok n' := hrun
    rw [hrun']
    exact ⟨base, htx.symm ▸ hover'⟩
  · have hrun' : n.pushTransactionCore { env with producing := true } fuel skip trx =
      .error (e, n') := hrun
    rw [hrun']
    exact ⟨base, htx.symm ▸ hover'⟩

/-- After `push_block` everything is in order again, if there was time. -/
theorem pushBlock_orderly {budget : Nat} (h : InTime env fuel skip budget n b) :
    Orderly env fuel (left (n.pushBlock env fuel skip budget b)) := by
  obtain ⟨hclosed, htx⟩ := @pushed_closed env fuel skip n b
  unfold InTime at h
  rw [left_pushBlock]
  generalize n.pushed env fuel skip b = m at *
  have hlength : (m.poppedTx ++ n.pendingTx).length ≤ budget := by
    rw [List.length_append]
    exact h
  obtain ⟨fates, -, hrestored⟩ := @restoreAll_restored env fuel skip m m.toStore []
    (m.poppedTx ++ n.pendingTx) (.of_closed hclosed) htx
  refine ⟨m.toStore, ?_⟩
  unfold restorePending
  dsimp only
  rw [List.take_of_length_le hlength, List.drop_of_length_le hlength, List.append_nil]
  generalize (m.poppedTx ++ n.pendingTx).foldl _ m = k at *
  have hsession := hrestored.session
  rw [← hrestored.pendingTx] at hsession
  exact ⟨hsession.closed, hsession.opened⟩

/-- The block is collected in a session over the head, which is then thrown away. -/
structure Collecting (base : Store) (trxs : List SignedTransaction) (n : Node) : Prop where
  session : n.pendingSession = true
  store : n.toStore = { base.startUndoSession with db := n.db }
  pendingTx : n.pendingTx = trxs

theorem Collecting.reset {trxs : List SignedTransaction} (h : Collecting base trxs n) :
    n.resetPendingSession.toStore = base ∧ n.resetPendingSession.pendingSession = false ∧
      n.resetPendingSession.pendingTx = trxs := by
  unfold resetPendingSession
  rw [if_pos h.session]
  refine ⟨?_, rfl, h.pendingTx⟩
  show n.undo = base
  rw [h.store]
  exact base.undo_startUndoSession

theorem collect_collecting {trxs : List SignedTransaction} {time : TimePointSec} {limit : Nat}
    (w : List SignedTransaction) {c : Collected} (h : Collecting base trxs c.node) :
    Collecting base trxs (collect env fuel skip time limit w c).node := by
  induction w generalizing c with
  | nil => exact h
  | cons trx w ih =>
    unfold collect
    split
    · exact ih h
    · split
      · split
        · exact h
        · exact ih h
      · dsimp only
        split
        · refine ih ⟨h.session, ?_, h.pendingTx⟩
          rw [Store.undo_startUndoSession]
          exact h.store
        · refine ih ⟨h.session, ?_, h.pendingTx⟩
          rw [Store.squash_startUndoSession, h.store]

theorem collectPending_closed {time : TimePointSec} {headerSize : Nat}
    (h : Over env fuel base l n) :
    (n.collectPending env fuel skip time headerSize).1.toStore = base ∧
      (n.collectPending env fuel skip time headerSize).1.pendingSession = false ∧
      (n.collectPending env fuel skip time headerSize).1.pendingTx = n.pendingTx := by
  have hreset : n.resetPendingSession.toStore = base := h.reset
  have hclosed : n.resetPendingSession.pendingSession = false := n.clearPending_closed
  have htx : n.resetPendingSession.pendingTx = n.pendingTx := by
    unfold resetPendingSession
    split
    · rfl
    · rfl
  have hopen : Collecting base n.pendingTx n.resetPendingSession.openPendingSession := by
    unfold openPendingSession
    rw [hclosed, if_neg (by decide)]
    refine ⟨rfl, ?_, htx⟩
    rw [hreset]
  exact (collect_collecting n.pendingTx hopen).reset

/-- What `generate_block` relies on while transactions are pending: the witness is known at the
head, and the block that it assembles is not too big. -/
def Assembles (env : Env) (fuel : Nat) (skip : Skip) (headerSize : Nat) (time : TimePointSec)
    (witnessOwner : AccountName) (key : SigningKey) (n : Node) : Prop :=
  n.pendingTx ≠ [] → (∃ w, n.headState.getWitness witnessOwner = .ok w) ∧
    ∀ m b, n.assembleBlock env fuel skip headerSize time witnessOwner key = .ok (m, b) →
      skip.blockSizeCheck = true ∨ env.blockSize b ≤ chainBlockSize

/-- With no pending transactions a closed session is in order. -/
theorem orderly_of_closed (hclosed : n.pendingSession = false) (htx : n.pendingTx = []) :
    Orderly env fuel n := by
  refine ⟨n.toStore, ?_⟩
  rw [htx]
  exact .of_closed hclosed

theorem assembleBlock_orderly {headerSize : Nat} {time : TimePointSec}
    {witnessOwner : AccountName} {key : SigningKey} (h : Orderly env fuel n)
    (hwitness : n.pendingTx ≠ [] → ∃ w, n.headState.getWitness witnessOwner = .ok w) :
    Ends (fun e => Orderly env fuel e.2)
      (fun r => r.1.pendingSession = false ∧ r.1.pendingTx = n.pendingTx)
      (n.assembleBlock env fuel skip headerSize time witnessOwner key) := by
  obtain ⟨base, hover⟩ := id h
  obtain ⟨hstore, hclosed, htx⟩ :=
    @collectPending_closed env fuel skip n base n.pendingTx time headerSize hover
  have hhead : n.headState = base.db := congrArg Store.db hover.reset
  unfold assembleBlock
  refine (lift_ends h _).bind fun _ _ => ?_
  refine (lift_ends h _).bind fun _ _ => ?_
  refine (lift_ends h _).bind fun _ _ => ?_
  refine (lift_ends h _).bind fun _ _ => ?_
  show Ends _ _ ((n.collectPending env fuel skip time headerSize).1.lift
    ((n.collectPending env fuel skip time headerSize).1.db.getWitness witnessOwner) >>= fun w =>
      pure ((n.collectPending env fuel skip time headerSize).1, _))
  generalize (n.collectPending env fuel skip time headerSize).1 = m at *
  refine Ends.bind (Q := fun _ => True) ?_ fun _ _ => ⟨hclosed, htx⟩
  by_cases hempty : n.pendingTx = []
  · cases hget : m.db.getWitness witnessOwner with
    | ok w => exact trivial
    | error e => exact orderly_of_closed hclosed (htx.trans hempty)
  · obtain ⟨w, hw⟩ := hwitness hempty
    rw [hhead, ← hstore] at hw
    rw [hw]
    exact trivial

theorem generateBlock_orderly {budget headerSize : Nat} {time : TimePointSec}
    {witnessOwner : AccountName} {key : SigningKey} (h : Orderly env fuel n)
    (hassembles : n.Assembles env fuel skip headerSize time witnessOwner key)
    (htime : ∀ m b, n.assembleBlock env fuel skip headerSize time witnessOwner key = .ok (m, b) →
      InTime env fuel skip budget m b) :
    Orderly env fuel
      (left (n.generateBlock env fuel skip budget headerSize time witnessOwner key)) := by
  have hassemble := @assembleBlock_orderly env fuel skip n headerSize time witnessOwner key h
    fun hne => (hassembles hne).1
  unfold generateBlock
  cases hrun : n.assembleBlock env fuel skip headerSize time witnessOwner key with
  | error e => exact hassemble.of_error hrun
  | ok r =>
    obtain ⟨m, b⟩ := r
    obtain ⟨hclosed, htx⟩ := hassemble.of_ok hrun
    show Orderly env fuel (left (m.lift _ >>= fun _ => m.pushBlock env fuel skip budget b >>= fun r =>
      pure (r.1, b)))
    cases hsize : unlessSkipped skip.blockSizeCheck (fcAssert (env.blockSize b ≤ chainBlockSize)
        "fc::raw::pack_size(pending_block) <= CHAIN_BLOCK_SIZE") with
    | ok u =>
      have hpush := pushBlock_orderly (htime m b hrun)
      cases hcase : m.pushBlock env fuel skip budget b with
      | ok r =>
        rw [hcase] at hpush
        exact hpush
      | error e =>
        rw [hcase] at hpush
        exact hpush
    | error e =>
      refine orderly_of_closed (n := m) hclosed (htx.trans ?_)
      -- the size was checked in vain, so there was nothing to collect
      by_contra hne
      unfold unlessSkipped at hsize
      rcases (hassembles hne).2 m b hrun with hskip | hfits
      · rw [if_pos hskip] at hsize
        cases hsize
      · rw [(fcAssert_eq_ok _ _ ()).2 hfits, ite_self] at hsize
        cases hsize

end Node

/-- The public calls that deal with pending transactions. -/
inductive Call
  | pushTransaction (skip : Skip) (trx : SignedTransaction)
  | pushBlock (skip : Skip) (budget : Nat) (b : SignedBlock)
  | generateBlock (skip : Skip) (budget headerSize : Nat) (time : TimePointSec)
      (witnessOwner : AccountName) (key : Node.SigningKey)

namespace Call

/-- The node after a call, whether it returned or threw. -/
def run (env : Env) (fuel : Nat) (n : Node) : Call → Node
  | .pushTransaction skip trx =>
    Node.left ((fun m => (m, ())) <$> n.pushTransaction env fuel skip trx)
  | .pushBlock skip budget b => Node.left (n.pushBlock env fuel skip budget b)
  | .generateBlock skip budget headerSize time witnessOwner key =>
    Node.left (n.generateBlock env fuel skip budget headerSize time witnessOwner key)

/-- The time of the restorer suffices, and a block is assembled. -/
def Unhurried (env : Env) (fuel : Nat) (n : Node) : Call → Prop
  | .pushTransaction _ _ => True
  | .pushBlock skip budget b => Node.InTime env fuel skip budget n b
  | .generateBlock skip budget headerSize time witnessOwner key =>
    n.Assembles env fuel skip headerSize time witnessOwner key ∧
      ∀ m b, n.assembleBlock env fuel skip headerSize time witnessOwner key = .ok (m, b) →
        Node.InTime env fuel skip budget m b

/-- **One call.** -/
theorem run_orderly {env : Env} {fuel : Nat} {n : Node} {c : Call} (h : n.Orderly env fuel)
    (hc : c.Unhurried env fuel n) : (c.run env fuel n).Orderly env fuel := by
  cases c with
  | pushTransaction skip trx =>
    have hrun := @Node.pushTransaction_orderly env fuel skip n h trx
    show (Node.left ((fun m => (m, ())) <$> n.pushTransaction env fuel skip trx)).Orderly env fuel
    cases hcase : n.pushTransaction env fuel skip trx with
    | ok m => exact hrun.of_ok hcase
    | error e => exact hrun.of_error hcase
  | pushBlock skip budget b => exact Node.pushBlock_orderly hc
  | generateBlock skip budget headerSize time witnessOwner key =>
    exact Node.generateBlock_orderly h hc.1 hc.2

/-- A call with the clock of its time. -/
def runAt (env : Env) (fuel : Nat) (n : Node) (c : (Nat → TimePointSec) × Call) : Node :=
  c.2.run { env with clock := c.1 } fuel n

def runAll (env : Env) (fuel : Nat) (n : Node) (calls : List ((Nat → TimePointSec) × Call)) : Node :=
  calls.foldl (runAt env fuel) n

/-- Every call of the run is unhurried. -/
def AllUnhurried (env : Env) (fuel : Nat) (n : Node)
    (calls : List ((Nat → TimePointSec) × Call)) : Prop :=
  Guarded (runAt env fuel) (fun n c => c.2.Unhurried { env with clock := c.1 } fuel n) n calls

theorem runAt_orderly {env : Env} {fuel : Nat} {n : Node} {c : (Nat → TimePointSec) × Call}
    (h : n.Orderly env fuel) (hc : c.2.Unhurried { env with clock := c.1 } fuel n) :
    (runAt env fuel n c).Orderly env fuel := by
  obtain ⟨base, hover⟩ := h
  have hstart : n.Orderly { env with clock := c.1 } fuel :=
    ⟨base, @Node.Over.of_clock { env with clock := c.1 } fuel n base n.pendingTx env.clock hover⟩
  obtain ⟨base', hover'⟩ := run_orderly hstart hc
  exact ⟨base', hover'.of_clock⟩

end Call

/-- **The pending state.**  In a run of calls from a node without pending transactions, as long
as the time of the restorer suffices and no block fails while it is assembled: if there are
pending transactions, the pending session is open and the state is the state of the head with
these transactions applied. -/
theorem pending_visible (env : Env) (fuel : Nat) (n : Node) (hclosed : n.pendingSession = false)
    (htx : n.pendingTx = []) (calls : List ((Nat → TimePointSec) × Call))
    (hcalls : Call.AllUnhurried env fuel n calls) (before : List ((Nat → TimePointSec) × Call))
    (hbefore : before <+: calls) : (Call.runAll env fuel n before).Visible env fuel := by
  have horderly := Guarded.invariant (Node.Orderly env fuel) (fun _ _ h hc => Call.runAt_orderly h hc)
    (Node.orderly_of_closed hclosed htx) hcalls hbefore
  exact horderly.visible

/-- alice sends 100 tokens to bob. -/
def gift : SignedTransaction :=
  ⟨⟨10, 30, 40, [.transfer ⟨"alice", "bob", ⟨100, tokenSymbol⟩, ""⟩]⟩, [7]⟩

/-- A node with some bandwidth, and no pending transaction. -/
def giftNode : Node :=
  let s := smallStore [{ id := 4, name := "bob" }]
  { toStore := { s with db := s.db.modifyDgp fun p => { p with maxVirtualBandwidth := 2 ^ 60 } } }

/-- The gift is pushed, and then an empty block; the restorer has time for `budget`
transactions. -/
def giftCalls (budget : Nat) : List ((Nat → TimePointSec) × Call) :=
  [(fun _ => 33, .pushTransaction { merkleCheck := true } gift),
    (fun _ => 33, .pushBlock { merkleCheck := true } budget
      { smallBlock [] with transactions := [] })]

theorem pending_visible_gift :
    (Call.runAll smallEnv 3 giftNode (giftCalls 1)).pendingTx ≠ [] ∧
      (Call.runAll smallEnv 3 giftNode (giftCalls 1)).Visible smallEnv 3 := by
  have hpending : (Call.runAll smallEnv 3 giftNode (giftCalls 1)).pendingTx.isEmpty = false := by
    decide +kernel
  have htime : Node.InTime { smallEnv with clock := fun _ => 33 } 3 { merkleCheck := true } 1
      (Call.runAll smallEnv 3 giftNode ((giftCalls 1).take 1))
      { smallBlock [] with transactions := [] } := by
    unfold Node.InTime
    decide +kernel
  refine ⟨?_, ?_⟩
  · intro hempty
    rw [hempty] at hpending
    cases hpending
  · exact pending_visible smallEnv 3 giftNode rfl rfl (giftCalls 1) ⟨trivial, htime, trivial⟩
      (giftCalls 1) List.prefix_rfl

/-- When the time is up at once, the gift waits in the list, but it is not applied and there is
no session. -/
theorem gift_invisible : ¬ (Call.runAll smallEnv 3 giftNode (giftCalls 0)).Visible smallEnv 3 := by
  have hstate : (Call.runAll smallEnv 3 giftNode (giftCalls 0)).pendingTx.isEmpty = false ∧
      (Call.runAll smallEnv 3 giftNode (giftCalls 0)).pendingSession = false := by
    decide +kernel
  intro h
  have hopen := h fun hempty => by
    rw [hempty] at hstate
    exact nomatch hstate.1
  rw [hstate.2] at hopen
  exact nomatch hopen.1

end VizCore.Chain
