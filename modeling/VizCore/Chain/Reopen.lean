import VizCore.Chain.Calls

/-!
# A node that is closed and opened again

When a database is opened, all that can be undone is undone.  What remains has to be the state at
the end of the block log, whose last block the fork database starts with.

* `Footing.undoAll`: undoing everything goes back along the chain;
* `Seated.reopen`: a node that opens again stands at the end of its log, and the log is as it was.
-/

namespace VizCore.Chain

open VizCore.Lib VizCore.Protocol

variable {env : Env} {c : List SignedBlock}

/-- Why a database is not opened. -/
inductive OpenFailure
  | databaseRevision
  | blockLogMismatch
  deriving DecidableEq

namespace Store

variable {s s' : Store}

/-- `undo_all` -/
def undoAll (s : Store) : Store := Nat.iterate Store.undo s.undoStack.length s

/-- The last part of `open`: the undo states that were left are used up, and the state has to be the
one at the end of the log. -/
def reopen (env : Env) (s : Store) : Except OpenFailure Store :=
  let s : Store := { s.undoAll with forkDb := {} }
  if s.revision ≠ s.db.dgp.headBlockNumber then .error .databaseRevision
  else if s.db.dgp.headBlockNumber = 0 then .ok s
  else
    match (s.readBlockByNum s.db.dgp.headBlockNumber).filter fun b =>
        Db.blockId env b = s.db.dgp.headBlockId with
    | some b => .ok { s with forkDb := s.forkDb.startBlock env b }
    | none => .error .blockLogMismatch

/-- Undoing goes back along the chain. -/
theorem Footing.iterate_undo {m : List SignedBlock} (k : Nat) (h : Footing env c m s)
    (hk : s.undoStack.length = k) :
    ∃ m', m' <+: m ∧ Footing env c m' (Nat.iterate Store.undo k s) ∧
      (Nat.iterate Store.undo k s).undoStack = [] ∧ (Nat.iterate Store.undo k s).blockLog = s.blockLog := by
  induction k generalizing s m with
  | zero => exact ⟨m, List.prefix_refl m, h, List.length_eq_zero_iff.1 hk, rfl⟩
  | succ k ih =>
    obtain ⟨m₁, hbelow, -, hfooting, -, hlog⟩ := h.undo
    have hlength : s.undo.undoStack.length = k := by
      cases hstack : s.undoStack with
      | nil =>
        rw [hstack] at hk
        cases hk
      | cons u rest =>
        rw [hstack, List.length_cons] at hk
        unfold Store.undo
        rw [hstack]
        exact Nat.succ.inj hk
    obtain ⟨m', hbelow', hfooting', hempty, hlog'⟩ := ih hfooting hlength
    exact ⟨m', hbelow'.trans hbelow, hfooting', hempty, hlog'.trans hlog⟩

/-- The state that everything is undone to. -/
theorem Footing.undoAll {m : List SignedBlock} (h : Footing env c m s) :
    ∃ m', m' <+: m ∧ Footing env c m' s.undoAll ∧ s.undoAll.undoStack = [] ∧
      s.undoAll.blockLog = s.blockLog :=
  h.iterate_undo _ rfl

/-- An open session is the first one that is undone. -/
theorem undoAll_startUndoSession (s : Store) (db : Db) :
    ({ s.startUndoSession with db := db } : Store).undoAll = s.undoAll := rfl

end Store

namespace ForkDb

/-- A fork database that has just been started. -/
theorem filed_startBlock {bs : List SignedBlock} (hlinked : (links env).Linked bs) {b : SignedBlock}
    (hlast : bs[bs.length - 1]? = some b) (hpos : 0 < bs.length) :
    Filed env bs bs.length (({} : ForkDb).startBlock env b) := by
  have hb : b ∈ bs := List.mem_of_getElem? hlast
  have hnum : b.blockNum = bs.length := by
    have hheight : b.blockNum = bs.length - 1 + 1 := hlinked.height_of_get hlast
    omega
  obtain ⟨haddrs, hfresh, hnamed, hwired⟩ := (Wired.empty env).startBlock b
  generalize hx : (⟨0, none, b.blockNum, Db.blockId env b, b⟩ : ForkItem) = x
  have hxnum : x.num = bs.length := by rw [← hx]; exact hnum
  have hxdata : x.data = b := by rw [← hx]
  have hindex : (({} : ForkDb).startBlock env b).index = [x] := by rw [← hx]; rfl
  have hhead : (({} : ForkDb).startBlock env b).head = some x := by rw [← hx]; rfl
  have hitems : ∀ i ∈ (({} : ForkDb).startBlock env b).items, i = x := by
    intro i hi
    rcases mem_items.1 hi with hi | hi | hi
    · rw [hindex] at hi
      exact List.mem_singleton.1 hi
    · exact (Option.some.inj (hhead.symm.trans hi)).symm
    · exact absurd hi List.not_mem_nil
  refine ⟨⟨hlinked, ⟨?_, haddrs, hfresh, hnamed, ?_, ?_, hwired⟩, hpos, le_max_right _ _, ?_⟩,
    ?_, ?_, ?_⟩
  · rw [hindex]
    exact List.nodup_singleton _
  · intro i hi
    rw [hindex] at hi
    rw [List.mem_singleton.1 hi]
    exact hxnum.ge
  · intro i hi hlt
    rw [hitems i hi] at hlt
    omega
  · intro a ha hle
    refine ⟨x, ?_, ?_⟩
    · rw [hindex]
      exact List.mem_singleton_self x
    · have hheight := (get_of_mem hlinked ha).2.1
      rw [hxdata]
      exact hlinked.eq_of_height hb ha (show b.blockNum = a.blockNum by omega)
  · intro i hi
    rw [hindex] at hi
    rw [List.mem_singleton.1 hi]
    exact hxnum.le
  · intro hnone
    rw [hhead] at hnone
    cases hnone
  · intro y hy
    obtain rfl := Option.some.inj (hhead.symm.trans hy)
    refine .inl ⟨?_, hxdata ▸ hb⟩
    rw [hindex]
    exact List.mem_singleton_self x

theorem filed_empty : Filed env [] 1 {} := by
  obtain ⟨haddrs, hfresh, hnamed, hwired⟩ := Wired.empty env
  refine ⟨⟨.nil, ⟨List.nodup_nil, haddrs, hfresh, hnamed, ?_, ?_, hwired⟩, Nat.one_pos, le_max_left _ _,
    ?_⟩, ?_, fun _ => rfl, ?_⟩
  · exact fun i hi => absurd hi List.not_mem_nil
  · exact fun i hi => absurd hi List.not_mem_nil
  · exact fun i hi => absurd hi List.not_mem_nil
  · exact fun i hi => absurd hi List.not_mem_nil
  · intro x hx
    cases hx

end ForkDb

namespace Node

variable {n : Node} {base s : Store}

/-- **A node that opens again** stands at the end of its log. -/
theorem Seated.reopen (h : Seated env c base n) (hrun : n.toStore.reopen env = .ok s) :
    Rested env n.blockLog { toStore := s } ∧ s.blockLog = n.blockLog := by
  have hundone : n.toStore.undoAll = base.undoAll := by
    cases hsession : n.pendingSession with
    | false => rw [h.closed hsession]
    | true => rw [h.opened hsession, Store.undoAll_startUndoSession]
  obtain ⟨m, hbelow, hfooting, hempty, hlog⟩ := h.along.toFooting.undoAll
  rw [h.store.1]
  unfold Store.reopen at hrun
  dsimp only at hrun
  rw [hundone] at hrun
  generalize base.undoAll = u at *
  have hhead : u.db.dgp.headBlockNumber = m.length := congrArg Prod.fst hfooting.stands.mark
  have hlinked : (links env).Linked m := h.along.toStored.linked.of_prefix hbelow
  have hlower := hfooting.within
  -- what opens is at the end of the log
  have hclosed : ∀ f low, m = base.blockLog → ForkDb.Filed env m low f → f.held = [] →
      low ≤ max 1 m.length → Rested env base.blockLog { toStore := { u with forkDb := f } } := by
    intro f low hm hfiled hheld hlow
    have htrails := hfooting.toTrails
    rw [← hm]
    refine ⟨⟨⟨⟨?_, htrails.stack, htrails.revision, htrails.recent, htrails.within⟩, hfooting.stands,
      hfooting.logged, hfooting.past⟩, low, hfiled, ?_⟩, rfl, hheld⟩
    · show u.blockLog <+: m
      rw [hlog, hm]
    · show low ≤ max 1 u.blockLog.length
      rw [hlog, ← hm]
      exact hlow
  split at hrun
  · cases hrun
  · split at hrun
    · rename_i hzero
      cases hrun
      have hm : m = [] := List.length_eq_zero_iff.1 (hhead.symm.trans hzero)
      have hnil : base.blockLog = [] := by
        rw [hlog, hm] at hlower
        exact List.length_eq_zero_iff.1 (Nat.le_zero.1 hlower)
      refine ⟨?_, hlog⟩
      refine hclosed {} 1 (hm.trans hnil.symm) ?_ rfl (le_max_left _ _)
      rw [hm]
      exact ForkDb.filed_empty
    · rename_i hnonzero
      split at hrun
      · rename_i b hb
        cases hrun
        obtain ⟨hread, -⟩ := Option.filter_eq_some_iff.1 hb
        have hpos : 0 < m.length := hhead ▸ Nat.pos_of_ne_zero hnonzero
        change u.readBlockByNum u.db.dgp.headBlockNumber = some b at hread
        rw [hhead] at hread
        unfold Store.readBlockByNum at hread
        rw [if_pos hpos] at hread
        have hlength : m.length = u.blockLog.length := by
          obtain ⟨hlt, -⟩ := List.getElem?_eq_some_iff.1 hread
          omega
        have hm : m = u.blockLog := by
          have hlow := List.prefix_of_prefix_length_le h.along.log hbelow (hlog ▸ hlower)
          rw [← hlog] at hlow
          exact (hlow.eq_of_length hlength.symm).symm
        refine ⟨?_, hlog⟩
        refine hclosed _ m.length (hm.trans hlog) ?_ rfl (le_max_right _ _)
        exact ForkDb.filed_startBlock hlinked (hm ▸ hread) hpos
      · cases hrun

end Node

end VizCore.Chain
