import VizCore.Chain.Drift
import VizCore.Chain.Store

/-!
# Invariants of aspects

A property of one aspect is kept by everything that the chain does as soon as the elementary
changes of a drift keep it, and the few operations and steps that touch the aspect.

* `KeepsBlock.aspect`: that rule;
* `KeepsBlock.recounted`: the same for an aspect together with the events that led to it;
* `KeepsBlock.preserved`: operations, transactions, expired proposals, steps and runs of blocks
  keep what `KeepsBlock` says.
-/

namespace VizCore.Chain

open VizCore.Lib VizCore.Protocol

/-- The property is kept by an operation together with all that it applies, by a transaction, by
the proposals that expire, by a step of a block, and by a run of blocks. -/
structure Preserved (env : Env) (C : Event → Prop) (I : Db → Prop) : Prop where
  operation : ∀ fuel depth db op n db', I db → op.validate env.fc = .ok () →
    (∀ e ∈ (Db.applyOperation env fuel depth db op n).1, C e) →
    (Db.applyOperation env fuel depth db op n).2 = .ok db' → I db'
  transaction : ∀ fuel skip db trx n db', skip.validateOperations = false → I db →
    (∀ e ∈ (Db.applyTransaction env fuel skip db trx n).1, C e) →
    (Db.applyTransaction env fuel skip db trx n).2 = .ok db' → I db'
  proposals : ∀ fuel db n db', I db →
    (∀ e ∈ (Db.clearExpiredProposals env fuel db n).1, C e) →
    (Db.clearExpiredProposals env fuel db n).2 = .ok db' → I db'
  step : ∀ skip b db (st : BlockStep) db', I db → C (.step db b st true) →
    st.run env skip b db = .ok db' → I db'
  blocks : ∀ fuel skip (s : Store) bs n s', skip.validateOperations = false → I s.db →
    (∀ e ∈ (s.applyBlocks env fuel skip bs n).1, C e) →
    (s.applyBlocks env fuel skip bs n).2 = .ok s' → I s'.db

theorem KeepsBlock.preserved {env : Env} {C : Event → Prop} {I : Db → Prop}
    (hI : KeepsBlock env C I) : Preserved env C I where
  operation fuel depth db op n db' hdb hv hC h :=
    Db.applyOperation_ensures hI.toKeeps fuel depth db op hdb hv n hC db' h
  transaction fuel _ _ trx n db' hskip hdb hC h :=
    Db.applyTransaction_ensures hI.toKeeps fuel hskip trx hdb n hC db' h
  proposals fuel _ n db' hdb hC h :=
    Db.clearExpiredProposals_ensures hI.toKeeps fuel hdb n hC db' h
  step skip b db st db' hdb hC h := hI.step skip b db st db' hdb hC h
  blocks fuel _ _ bs n s' hskip hdb hC h :=
    Store.applyBlocks_ensures hI fuel hskip bs hdb n hC s' h

/-! ## Proposals -/

/-- Stored proposals carry validated operations. -/
def Db.Stored (fc : Fc) (db : Db) : Prop :=
  db.proposals.All fun p => validateAll fc p.proposedOperations = .ok ()

namespace Db

variable {fc : Fc} {db db' : Db}

theorem Stored.of_same (hdb : db.Stored fc) (h : db'.proposals = db.proposals) :
    db'.Stored fc := by
  unfold Stored
  rw [h]
  exact hdb

theorem Stored.of_drift (hdb : db.Stored fc) {g : Prop} (h : Drift .proposals g db db') :
    db'.Stored fc :=
  hdb.of_same (congrArg ProposalRest.proposals
    (h.rest rfl (fun _ _ _ _ _ => rfl) fun _ _ => rfl))

end Db

theorem stored_keepsBlock (env : Env) (C : Event → Prop) :
    KeepsBlock env C (Db.Stored env.fc) where
  validated db hdb := hdb
  evaluate clock db op db' hdb hv hC h := by
    cases htouch : Operation.touches .proposals op with
    | false => exact hdb.of_drift (evaluate_drift htouch h)
    | true =>
      cases op with
      | proposalDelete o =>
        simp only [Db.evaluate, Db.proposalDelete, bind_eq_ok, pure_eq_ok] at h
        obtain ⟨p, -, _, -, rfl⟩ := h
        exact Table.all_erase hdb
      | _ => cases htouch
  proposals db t r hdb ht := ht
  opened skip db trx db' hdb h := by
    refine hdb.of_same ?_
    have hcore := congrArg Core.proposals (Db.openTransaction_core h)
    exact hcore
  step skip b db st db' hdb hC h := by
    refine hdb.of_drift (BlockStep.run_drift ?_ h)
    cases st <;> rfl
  irreversible db num id hdb := hdb
  postValidations db t hdb := hdb

/-! ## The rule -/

/-- A property of an aspect that every elementary change keeps. -/
def Steady (x : Aspect) (P : x.View → Prop) : Prop :=
  ∀ g db db', Glide x g db db' → P (db.view x) → P (db'.view x)

theorem Steady.drift {x : Aspect} {P : x.View → Prop} (hP : Steady x P) {g : Prop} {db db' : Db}
    (h : Drift x g db db') (hdb : P (db.view x)) : P (db'.view x) :=
  h.invariant (I := fun d => P (d.view x)) (hP g) hdb

/-- A property that a drift keeps where no shares are lost by vesting. -/
def SteadyWhere (x : Aspect) (P : x.View → Prop) : Prop :=
  ∀ g : Prop, g → ∀ db db', Glide x g db db' → P (db.view x) → P (db'.view x)

theorem SteadyWhere.drift {x : Aspect} {P : x.View → Prop} (hP : SteadyWhere x P) {g : Prop}
    (hg : g) {db db' : Db} (h : Drift x g db db') (hdb : P (db.view x)) : P (db'.view x) :=
  h.invariant (I := fun d => P (d.view x)) (hP g hg) hdb

section

variable {env : Env} {C : Event → Prop} {R : Db → Prop} {x : Aspect} {P : x.View → Prop}

/-- What operations and steps keep of an aspect.  `R` is what is known besides. -/
theorem KeepsBlock.viewed (hR : KeepsBlock env C R) (hx : x ≠ .proposals) (hx' : x ≠ .records)
    (hx'' : x ≠ .finality)
    (hop : ∀ clock db op db', R db → op.validate env.fc = .ok () → C (.operation db op true) →
      Db.evaluate env.fc env.producing clock db op = .ok db' → P (db.view x) → P (db'.view x))
    (hstep : ∀ skip b db (st : BlockStep) db', R db → C (.step db b st true) →
      st.run env skip b db = .ok db' → P (db.view x) → P (db'.view x)) :
    KeepsBlock env C fun db => R db ∧ P (db.view x) where
  validated db hdb := hR.validated db hdb.1
  evaluate clock db op db' hdb hv hC h :=
    ⟨hR.evaluate clock db op db' hdb.1 hv hC h, hop clock db op db' hdb.1 hv hC h hdb.2⟩
  proposals db t r hdb ht := by
    refine ⟨hR.proposals db t r hdb.1 ht, ?_⟩
    rw [Db.view_setProposals hx]
    exact hdb.2
  opened skip db trx db' hdb h := by
    refine ⟨hR.opened skip db trx db' hdb.1 h, ?_⟩
    rw [Db.openTransaction_view hx' h]
    exact hdb.2
  step skip b db st db' hdb hC h :=
    ⟨hR.step skip b db st db' hdb.1 hC h, hstep skip b db st db' hdb.1 hC h hdb.2⟩
  irreversible db num id hdb := by
    refine ⟨hR.irreversible db num id hdb.1, ?_⟩
    rw [Db.view_setIrreversible hx'']
    exact hdb.2
  postValidations db t hdb := by
    refine ⟨hR.postValidations db t hdb.1, ?_⟩
    rw [Db.view_setValidations hx'']
    exact hdb.2

/-- **Invariants of an aspect.** -/
theorem KeepsBlock.aspect (hR : KeepsBlock env C R) (hx : x ≠ .proposals) (hx' : x ≠ .records)
    (hx'' : x ≠ .finality) (hP : Steady x P)
    (hop : ∀ clock db op db', Operation.touches x op = true → R db → op.validate env.fc = .ok () →
      C (.operation db op true) → Db.evaluate env.fc env.producing clock db op = .ok db' →
      P (db.view x) → P (db'.view x))
    (hstep : ∀ skip b db (st : BlockStep) db', st.touches x = true → R db →
      C (.step db b st true) → st.run env skip b db = .ok db' → P (db.view x) → P (db'.view x)) :
    KeepsBlock env C fun db => R db ∧ P (db.view x) := by
  refine hR.viewed hx hx' hx'' ?_ ?_
  · intro clock db op db' hdb hv hC h
    cases htouch : Operation.touches x op with
    | false => exact hP.drift (evaluate_drift htouch h)
    | true => exact hop clock db op db' htouch hdb hv hC h
  · intro skip b db st db' hdb hC h
    cases htouch : st.touches x with
    | false => exact hP.drift (BlockStep.run_drift htouch h)
    | true => exact hstep skip b db st db' htouch hdb hC h

/-- **Invariants of an aspect** where no shares are lost by vesting. -/
theorem KeepsBlock.aspectWhere (hR : KeepsBlock env C R) (hx : x ≠ .proposals) (hx' : x ≠ .records)
    (hx'' : x ≠ .finality) (hP : SteadyWhere x P)
    (hvestable : ∀ db op, C (.operation db op true) → db.Vestable env.fc op)
    (hfunded : ∀ db b st, C (.step db b st true) → st.Vestable db)
    (hop : ∀ clock db op db', Operation.touches x op = true → R db → op.validate env.fc = .ok () →
      C (.operation db op true) → Db.evaluate env.fc env.producing clock db op = .ok db' →
      P (db.view x) → P (db'.view x))
    (hstep : ∀ skip b db (st : BlockStep) db', st.touches x = true → R db →
      C (.step db b st true) → st.run env skip b db = .ok db' → P (db.view x) → P (db'.view x)) :
    KeepsBlock env C fun db => R db ∧ P (db.view x) := by
  refine hR.viewed hx hx' hx'' ?_ ?_
  · intro clock db op db' hdb hv hC h
    cases htouch : Operation.touches x op with
    | false => exact hP.drift ⟨hvestable db op hC, hv⟩ (evaluate_drift htouch h)
    | true => exact hop clock db op db' htouch hdb hv hC h
  · intro skip b db st db' hdb hC h
    cases htouch : st.touches x with
    | false => exact hP.drift (hfunded db b st hC) (BlockStep.run_drift htouch h)
    | true => exact hstep skip b db st db' htouch hdb hC h

end

end VizCore.Chain
