import VizCore.Chain.Succession

/-!
# The course of a node

What the ways of pushing a block do to a node that stands at the end of its chain.

* `popTo_footing`: popping goes back along the chain, and the head of the fork database with it;
* `applyBranch_along`: the blocks of a branch lengthen the chain;
* `switchForks_along`: after a switch the node stands at the end of the other branch;
* `Placed`: the blocks off the head that leave the head of the fork database where it has to be;
* `pushBlockCore_rested`: `_push_block`, whether it returns or throws.
-/

namespace VizCore.Chain

open VizCore.Lib VizCore.Protocol

variable {env : Env} {fuel low : Nat} {skip : Skip} {b : SignedBlock} {t c m : List SignedBlock}

namespace Store

variable {s s' : Store}

/-- An undone block is taken off the chain; without an undo state nothing happens. -/
theorem Footing.undo (h : Footing env c m s) :
    ∃ m', m' <+: m ∧ m.length ≤ m'.length + 1 ∧ Footing env c m' s.undo ∧
      s.undo.forkDb = s.forkDb ∧ s.undo.blockLog = s.blockLog := by
  have hstack := h.stack
  cases hundo : s.undoStack with
  | nil =>
    have hsame : s.undo = s := by
      unfold Store.undo
      rw [hundo]
    rw [hsame]
    exact ⟨m, List.prefix_refl m, Nat.le_succ _, h, rfl, rfl⟩
  | cons u rest =>
    rw [hundo] at hstack
    cases hstack with
    | @cons m b old stack hold hrest =>
      have hback : s.undo = { s with db := old, undoStack := rest, revision := m.length } := by
        unfold Store.undo
        rw [hundo]
        rfl
      have hmem : ∀ v ∈ (m.length + 1, old) :: rest, v ∈ s.undoStack := fun v hv => hundo ▸ hv
      have hlog := h.recent _ (hmem _ List.mem_cons_self)
      have hlength : (m ++ [b]).length = m.length + 1 := by rw [List.length_append]; rfl
      rw [hback]
      refine ⟨m, List.prefix_append m [b], hlength.le, ⟨⟨h.log, hrest, rfl, ?_, ?_⟩, hold, ?_, ?_⟩,
        rfl, rfl⟩
      · exact fun v hv => h.recent v (hmem v (List.mem_cons_of_mem _ hv))
      · exact Nat.le_of_lt_succ hlog
      · exact h.past _ (hmem _ List.mem_cons_self)
      · exact fun v hv => h.past v (hmem v (List.mem_cons_of_mem _ hv))

/-- The fork database plays no part in where the database stands. -/
theorem Footing.fork (h : Footing env c m s) (f : ForkDb) : Footing env c m { s with forkDb := f } :=
  ⟨⟨h.log, h.stack, h.revision, h.recent, h.within⟩, h.stands, h.logged, h.past⟩

theorem Along.applyInSession (h : Along env t m s) (hfollows : m ++ [b] <+: t)
    (hhead : ∀ x, s.forkDb.head = some x → x.num ≤ m.length + 2)
    (hlog : skip.blockLog = false) (hhistory : skip.undoHistoryCheck = false) :
    Ends (fun e => (Along env t m e.2 ∧ s.forkDb.Shrunk e.2.forkDb ∧ s.blockLog <+: e.2.blockLog ∧
        e.2.db = s.db) ∨ e.2.db.headMark = (b.blockNum, Db.blockId env b))
      (fun s' => Along env t (m ++ [b]) s' ∧ s.forkDb.Shrunk s'.forkDb ∧ s.blockLog <+: s'.blockLog)
      (s.applyInSession env fuel skip b) := by
  have hrun := (@Along.applyBlock env fuel skip b t m s h hfollows hhead hlog hhistory 0).2
  unfold Store.applyInSession
  split
  · rename_i s' hs'
    exact hrun.of_ok hs'
  · rename_i e u hu
    exact h.undo (hrun.of_error hu)

/-- A block that does not follow the head changes nothing. -/
theorem applyInSession_of_other (hother : b.previous ≠ s.db.dgp.headBlockId) :
    ∃ e, s.applyInSession env fuel skip b = .error (e, s) := by
  obtain ⟨e, he⟩ : ∃ e, s.db.openBlock env skip b = .error e := by
    cases hopen : s.db.openBlock env skip b with
    | error e => exact ⟨e, rfl⟩
    | ok db => exact absurd (openBlock_checked hopen).1.symm hother
  have hrun : (s.startUndoSession.applyBlock env fuel skip b 0).2 =
      .error (e, s.startUndoSession) := by
    unfold applyBlock
    refine Traced.bind_of_error ?_
    show (Traced.mapBoth _ _ (Traced.report _ >>= fun _ =>
      Traced.lift (s.db.openBlock env skip b)) 0).2 = _
    rw [he]
    rfl
  refine ⟨e, ?_⟩
  unfold Store.applyInSession
  rw [hrun]
  show Except.error (e, s.startUndoSession.undo) = _
  rw [Store.undo_startUndoSession]

end Store

namespace Node

variable {n n' : Node}

/-! ## Popping -/

theorem popBlock_footing (h : n.toStore.Footing env c m) (hclosed : n.pendingSession = false)
    (hrun : n.popBlock env = .ok n') :
    ∃ m', m' <+: m ∧ m.length ≤ m'.length + 1 ∧ n'.toStore.Footing env c m' ∧
      n'.pendingSession = false ∧ n.forkDb.popBlock = .ok n'.forkDb ∧
        n'.blockLog = n.blockLog := by
  unfold popBlock at hrun
  rw [resetPendingSession_of_closed hclosed] at hrun
  simp only [bind_eq_ok] at hrun
  obtain ⟨head, -, f, hf, hpure⟩ := hrun
  have hpop : n.forkDb.popBlock = .ok f := by
    cases hcase : n.forkDb.popBlock with
    | error e =>
      rw [hcase] at hf
      cases hf
    | ok g =>
      rw [hcase] at hf
      cases hf
      rfl
  cases hpure
  obtain ⟨m', hbelow, hlength, hfooting, hfork, hlog⟩ := (h.fork f).undo
  refine ⟨m', hbelow, hlength, hfooting, hclosed, ?_, hlog⟩
  rw [hpop]
  exact congrArg Except.ok hfork.symm

/-- **Popping** to a block of the chain. -/
theorem popTo_footing {target : BlockId} (k : Nat) {top : ForkItem}
    (h : n.toStore.Footing env c m) (hclosed : n.pendingSession = false)
    (hfiled : ForkDb.Filed env t low n.forkDb) (htop : n.forkDb.head = some top)
    (hmem : top ∈ n.forkDb.index) (hheld : ∀ i ∈ n.forkDb.held, i ∈ n.forkDb.index)
    (hrun : popTo env target k n = .ok n') :
    ∃ m', m' <+: m ∧ n'.toStore.Footing env c m' ∧ n'.pendingSession = false ∧
      ForkDb.Filed env t low n'.forkDb ∧ n'.db.dgp.headBlockId = target ∧
      n'.blockLog = n.blockLog ∧ n'.forkDb.held = n.forkDb.held ∧
      ∀ x, n'.forkDb.head = some x → x.num + m.length ≤ top.num + m'.length := by
  induction k generalizing n m top with
  | zero => cases hrun
  | succ k ih =>
    unfold popTo at hrun
    split at hrun
    · rw [bind_eq_ok] at hrun
      obtain ⟨n₁, hpop, hrest⟩ := hrun
      obtain ⟨m₁, hbelow, hlength, hfooting, hclosed₁, hfork, hlog⟩ :=
        popBlock_footing h hclosed hpop
      obtain ⟨hfiled₁, ⟨p, hp, hhead, hpnum⟩, hindex, hheld₁⟩ :=
        hfiled.popBlock htop hmem hheld hfork
      obtain ⟨m', hbelow', hfooting', hclosed', hfiled', htarget, hlog', hheld', hlow⟩ :=
        ih hfooting hclosed₁ hfiled₁ hhead (hindex ▸ hp) (by rw [hheld₁, hindex]; exact hheld) hrest
      refine ⟨m', hbelow'.trans hbelow, hfooting', hclosed', hfiled', htarget, hlog'.trans hlog,
        hheld'.trans hheld₁, fun x hx => ?_⟩
      have hle := hlow x hx
      omega
    · rename_i hsame
      cases hrun
      refine ⟨m, List.prefix_refl m, h, hclosed, hfiled, not_not.1 hsame, rfl, rfl, fun x hx => ?_⟩
      obtain rfl := Option.some.inj (htop.symm.trans hx)
      exact le_rfl

/-! ## Branches -/

theorem onStore_eq_ok {r : StoreResult Store} (h : n.onStore r = .ok n') :
    ∃ s, r = .ok s ∧ n' = { n with toStore := s } := by
  cases r with
  | ok s =>
    cases h
    exact ⟨s, rfl, rfl⟩
  | error e => cases h

/-- **The blocks of a branch** lengthen the chain. -/
theorem applyBranch_along (items : List ForkItem) (h : n.toStore.Along env t m)
    (hitems : m ++ items.map (·.data) <+: t)
    (hhead : ∀ x, n.forkDb.head = some x → x.num ≤ m.length + 2)
    (hlog : skip.blockLog = false) (hhistory : skip.undoHistoryCheck = false)
    (hrun : applyBranch env fuel skip items n = .ok n') :
    n'.toStore.Along env t (m ++ items.map (·.data)) ∧ n.blockLog <+: n'.blockLog ∧
      n'.pendingSession = n.pendingSession := by
  induction items generalizing n m with
  | nil =>
    cases hrun
    rw [List.map_nil, List.append_nil]
    exact ⟨h, List.prefix_refl _, rfl⟩
  | cons item rest ih =>
    unfold applyBranch at hrun
    split at hrun
    · rename_i n₁ hn₁
      obtain ⟨s, hs, rfl⟩ := onStore_eq_ok hn₁
      have hsplit : m ++ (item :: rest).map (·.data) = (m ++ [item.data]) ++ rest.map (·.data) := by
        rw [List.map_cons, List.append_assoc]
        rfl
      rw [hsplit] at hitems ⊢
      have hfollows : m ++ [item.data] <+: t := (List.prefix_append _ _).trans hitems
      obtain ⟨halong, hshrunk, hgrown⟩ := (h.applyInSession hfollows hhead hlog hhistory).of_ok hs
      obtain ⟨hend, hgrown', hsession⟩ := ih halong hitems (fun x hx => by
        have hle := hhead x (hshrunk.head ▸ hx)
        rw [List.length_append, List.length_singleton]
        omega) hrun
      exact ⟨hend, hgrown.trans hgrown', hsession⟩
    · cases hrun

/-! ## Switches -/

theorem lift_eq_ok {α : Type} {r : Result α} {a : α} (h : n.lift r = .ok a) : r = .ok a := by
  cases r with
  | ok x =>
    cases h
    rfl
  | error e => cases h

/-- Where a popped chain ends. -/
theorem eq_take {k : Nat} (hlinked : (links env).Linked c) (hbelow : m <+: c) (hk : k ≤ c.length)
    (htip : (links env).tip m = (links env).tip (c.take k)) : m = c.take k := by
  have hm : ((links env).tip m).num = m.length := (hlinked.of_prefix hbelow).height_tip
  have htake : ((links env).tip (c.take k)).num = (c.take k).length :=
    (hlinked.take k).height_tip
  rw [← htip, hm, List.length_take, Nat.min_eq_left hk] at htake
  rw [List.prefix_iff_eq_take.1 hbelow, htake]

/-- **A switch** ends at the head of the other branch. -/
theorem switchForks_along {g : ForkDb} {top x : ForkItem} (h : n.toStore.Along env c c)
    (hclosed : n.pendingSession = false) (hheld : n.forkDb.held = [])
    (htop : n.forkDb.head = some top) (hlow : top.num ≤ c.length) (hfirst : b.previous ≠ ⟨0, 0⟩)
    (hlt : c.length < b.blockNum) (hpush : n.forkDb.pushBlock env b = .ok g)
    (hx : g.head = some x) (hlog : skip.blockLog = false)
    (hhistory : skip.undoHistoryCheck = false)
    (hrun : ({ n with forkDb := g } : Node).switchForks env fuel skip x = .ok n') :
    ∃ c', n'.toStore.Along env c' c' ∧ n.blockLog <+: n'.blockLog ∧ n'.pendingSession = false := by
  obtain ⟨low, hfiled, hlogged⟩ := h.filed
  obtain ⟨x', hindex, hx', -, hxnum, hbranches⟩ :=
    hfiled.switch htop hlow hheld hfirst hlt hpush
  obtain rfl := Option.some.inj (hx.symm.trans hx')
  unfold switchForks at hrun
  simp only [bind_eq_ok] at hrun
  obtain ⟨⟨first, second⟩, hfetch, last, hlast, n₁, hpop, hrun⟩ := hrun
  have hhead : n.db.dgp.headBlockId = (links env).tip c := congrArg Prod.snd h.stands.mark
  have hfetch' := lift_eq_ok hfetch
  change g.fetchBranchFrom x.id n.db.dgp.headBlockId = .ok (first, second) at hfetch'
  rw [hhead] at hfetch'
  obtain ⟨k, z, hz, hprevious, hk, hlength, halive, hfiled'⟩ := hbranches first second hfetch'
  have hlast' := (getOrThrow_eq_ok _ _ _).1 (lift_eq_ok hlast)
  obtain rfl := Option.some.inj (hz.symm.trans hlast')
  obtain ⟨m', hbelow, hfooting, hclosed', hfiled₁, htarget, hlog₁, -, hdown⟩ :=
    popTo_footing (n := { n with forkDb := g.hold (first ++ second) }) _
      (h.toFooting.fork (g.hold (first ++ second))) hclosed hfiled' hx hindex halive hpop
  -- the node stands where the branches part
  have htip : (links env).tip m' = (links env).tip (c.take k) := by
    have hmark : n₁.db.dgp.headBlockId = (links env).tip m' :=
      congrArg Prod.snd hfooting.stands.mark
    rw [← hmark, htarget, hprevious]
  obtain rfl := eq_take h.toStored.linked hbelow hk.le htip
  have htake : (c.take k).length = k := by rw [List.length_take, Nat.min_eq_left hk.le]
  have hparted : n₁.blockLog <+: c.take k := by
    rw [List.prefix_take_iff]
    exact ⟨hfooting.log, hfooting.within.trans_eq htake⟩
  have halong : n₁.toStore.Along env (c.take k ++ (first.map (·.data)).reverse) (c.take k) := by
    refine ⟨⟨⟨hparted.trans (List.prefix_append _ _), hfooting.stack, hfooting.revision,
      hfooting.recent, hfooting.within⟩, hfooting.stands, hfooting.logged, hfooting.past⟩,
      low, hfiled₁, ?_⟩
    rw [hlog₁]
    exact hlogged
  split at hrun
  · rename_i n₂ hn₂
    cases hrun
    have hmap : (first.reverse).map (·.data) = (first.map (·.data)).reverse := List.map_reverse
    have hend := applyBranch_along first.reverse halong (by rw [hmap]) (fun y hy => by
      have hle := hdown y hy
      omega) hlog hhistory hn₂
    rw [hmap] at hend
    obtain ⟨hend, hgrown, hsession⟩ := hend
    refine ⟨_, hend, ?_, hsession.trans hclosed'⟩
    rw [← hlog₁]
    exact hgrown
  · rw [bind_eq_ok] at hrun
    obtain ⟨n₂, -, hfail⟩ := hrun
    cases hfail

/-! ## Blocks -/

/-- The block follows the head of the node, or it leaves the head of the fork database on the chain,
above the chain or at a block that has failed.  The head of the fork database is lower than the head
of the node after a switch, and it may be a block that has failed and is not in the index: then
nothing else may come to its height. -/
def Placed (env : Env) (b : SignedBlock) (n : Node) : Prop :=
  b.previous = n.db.dgp.headBlockId ∨ b.previous ≠ ⟨0, 0⟩ ∧ ∃ top ∈ n.forkDb.head,
    if top.num ≤ n.db.dgp.headBlockNumber then
      b.blockNum < top.num ∨ n.db.dgp.headBlockNumber < b.blockNum ∨
        b.blockNum = top.num ∧ ∃ x ∈ n.forkDb.index, x.addr = top.addr
    else n.forkDb.fetchBlock (Db.blockId env b) = none

instance (b : SignedBlock) (n : Node) : Decidable (n.Placed env b) :=
  inferInstanceAs (Decidable (b.previous = n.db.dgp.headBlockId ∨ b.previous ≠ ⟨0, 0⟩ ∧
    ∃ top ∈ n.forkDb.head, if top.num ≤ n.db.dgp.headBlockNumber then
      b.blockNum < top.num ∨ n.db.dgp.headBlockNumber < b.blockNum ∨
        b.blockNum = top.num ∧ ∃ x ∈ n.forkDb.index, x.addr = top.addr
    else n.forkDb.fetchBlock (Db.blockId env b) = none))

/-- The fork database asks for a switch. -/
def Switches (env : Env) (b : SignedBlock) (n : Node) : Prop :=
  ∃ g, n.forkDb.pushBlock env b = .ok g ∧ ∃ x ∈ g.head,
    x.data.previous ≠ n.db.dgp.headBlockId ∧ n.db.dgp.headBlockNumber < x.data.blockNum

instance (b : SignedBlock) (n : Node) : Decidable (n.Switches env b) :=
  inferInstanceAs (Decidable (∃ g, n.forkDb.pushBlock env b = .ok g ∧ ∃ x ∈ g.head,
    x.data.previous ≠ n.db.dgp.headBlockId ∧ n.db.dgp.headBlockNumber < x.data.blockNum))

/-- A node between two calls: it stands at the end of its chain, and nobody holds items. -/
structure Rested (env : Env) (c : List SignedBlock) (n : Node) : Prop where
  along : n.toStore.Along env c c
  closed : n.pendingSession = false
  released : n.forkDb.held = []

/-- The caller has let the items go. -/
theorem Rested.release (h : n.toStore.Along env c c) (hclosed : n.pendingSession = false) :
    Rested env c { n with forkDb := n.forkDb.hold [] } := by
  obtain ⟨low, hfiled, hlow⟩ := h.filed
  refine ⟨⟨h.toFooting.fork _, low, ?_, hlow⟩, hclosed, rfl⟩
  exact hfiled.hold fun i hi => absurd hi List.not_mem_nil

/-- A block that failed at the end of the chain is removed. -/
theorem Rested.discard (h : n.toStore.Along env (c ++ [b]) c) (hclosed : n.pendingSession = false)
    (hheld : n.forkDb.held = [])
    (hcrown : ∀ i ∈ n.forkDb.index, i.num = c.length + 1 → i.data = b)
    (hhead : ∀ x, n.forkDb.head = some x →
      x.data.previous = (links env).tip c ∧ x.num = c.length + 1) :
    Rested env c { n with forkDb := n.forkDb.discard [Db.blockId env b] none } := by
  obtain ⟨low, hfiled, hlow⟩ := h.filed
  have hwithin := h.within
  have hlog : n.blockLog <+: c :=
    List.prefix_of_prefix_length_le h.log (List.prefix_append c [b]) hwithin
  have hremoved : ForkDb.Filed env c low (n.forkDb.remove (Db.blockId env b)) :=
    hfiled.removeTip hheld (by omega) hcrown hhead
  refine ⟨⟨⟨⟨hlog, h.stack, h.revision, h.recent, h.within⟩, h.stands, h.logged, h.past⟩,
    low, hremoved, hlow⟩, hclosed, hheld⟩

/-- A block is appended: the chain is longer, or the block is gone, or it is the head although it
failed. -/
theorem Rested.append {g : ForkDb} (h : Rested env c n) (hpush : n.forkDb.pushBlock env b = .ok g)
    (hprevious : b.previous = (links env).tip c) (hlog : skip.blockLog = false)
    (hhistory : skip.undoHistoryCheck = false) :
    (∃ x, g.head = some x ∧ x.data.previous = (links env).tip c) ∧
      Ends (fun e => (Rested env c e.2 ∧ n.blockLog <+: e.2.blockLog) ∨
          e.2.db.headMark ≠ n.db.headMark)
        (fun n' => Rested env (c ++ [b]) n' ∧ n.blockLog <+: n'.blockLog)
        (({ n with forkDb := g } : Node).appendBlock env fuel skip b) := by
  obtain ⟨low, hfiled, hlow⟩ := h.along.filed
  obtain ⟨hfiled', hcrown, ⟨x, hx, hxprevious, hxnum⟩, hheld⟩ := hfiled.append hprevious hpush
  refine ⟨⟨x, hx, hxprevious⟩, ?_⟩
  have hwithin := h.along.within
  have hstart : ({ n with forkDb := g } : Node).toStore.Along env (c ++ [b]) c := by
    have hfooting := h.along.toFooting.fork g
    exact ⟨⟨⟨hfooting.log.trans (List.prefix_append _ _), hfooting.stack, hfooting.revision,
      hfooting.recent, hfooting.within⟩, hfooting.stands, hfooting.logged, hfooting.past⟩,
      low, hfiled', hlow⟩
  have hblock := @Store.Along.applyInSession env fuel skip b (c ++ [b]) c _ hstart
    (List.prefix_refl _) (fun y hy => by
      obtain rfl := Option.some.inj (hx.symm.trans hy)
      omega) hlog hhistory
  have hreleased : g.held = [] := hheld.trans h.released
  unfold appendBlock
  split
  · rename_i n' hn'
    obtain ⟨s, hs, rfl⟩ := onStore_eq_ok hn'
    obtain ⟨halong, hshrunk, hgrown⟩ := hblock.of_ok hs
    exact ⟨⟨halong, h.closed, hshrunk.held.trans hreleased⟩, hgrown⟩
  · rename_i e n' hn'
    cases hcase : ({ n with forkDb := g } : Node).applyInSession env fuel skip b with
    | ok s =>
      rw [hcase] at hn'
      cases hn'
    | error u =>
      rw [hcase] at hn'
      cases hn'
      rcases hblock.of_error hcase with ⟨halong, hshrunk, hgrown, -⟩ | hmark
      · refine .inl ⟨Rested.discard halong h.closed (hshrunk.held.trans hreleased) ?_ ?_, hgrown⟩
        · exact fun i hi => hcrown i (hshrunk.index i hi)
        · intro y hy
          obtain rfl := Option.some.inj (hx.symm.trans (hshrunk.head.symm.trans hy))
          exact ⟨hxprevious, hxnum⟩
      · refine .inr fun hsame => ?_
        have hnum := (hstart.linked_next (List.prefix_refl _)).1
        have hheight : n.db.headMark = (c.length, (links env).tip c) := h.along.stands.mark
        have hhead : (b.blockNum, Db.blockId env b) = (c.length, (links env).tip c) :=
          hmark.symm.trans (hsame.trans hheight)
        have hequal : b.blockNum = c.length := congrArg Prod.fst hhead
        omega

/-- When `_push_block` throws without a switch, the node is at the end of the same chain, or its
head is the block that failed. -/
def Thrown (env : Env) (c : List SignedBlock) (b : SignedBlock) (n m : Node) : Prop :=
  ¬ n.Switches env b →
    (Rested env c m ∧ n.blockLog <+: m.blockLog) ∨ m.db.headMark ≠ n.db.headMark

/-- **A block that is stored or switched to** where the head of the fork database is not higher than
the node's. -/
theorem Rested.branch {g : ForkDb} {top x : ForkItem} (h : Rested env c n)
    (hpush : n.forkDb.pushBlock env b = .ok g) (hother : b.previous ≠ (links env).tip c)
    (hfirst : b.previous ≠ ⟨0, 0⟩) (htop : n.forkDb.head = some top) (hlow : top.num ≤ c.length)
    (hput : b.blockNum < top.num ∨ c.length < b.blockNum ∨
      b.blockNum = top.num ∧ ∃ i ∈ n.forkDb.index, i.addr = top.addr) (hx : g.head = some x) :
    x.data.previous ≠ (links env).tip c ∧
      (c.length < x.data.blockNum → c.length < b.blockNum) ∧
      (¬ c.length < x.data.blockNum → Rested env c { n with forkDb := g }) := by
  obtain ⟨low, hfiled, hlogged⟩ := h.along.filed
  have hwired := hfiled.grown.pointers
  have htopnum := (hwired.named top (ForkDb.mem_items_of_head htop)).2
  obtain ⟨-, y, -, hynum, hydata, hy⟩ := hwired.pushBlock hpush
  obtain ⟨-, hhead⟩ := hy top htop
  rw [hx, Option.some.injEq] at hhead
  refine ⟨?_, ?_, ?_⟩
  · intro hprevious
    split at hhead
    · rw [hhead, hydata] at hprevious
      exact hother hprevious
    · rw [hhead] at hprevious
      exact hfiled.head_previous htop hlow hprevious
  · intro hlt
    split at hhead
    · rw [hhead, hydata] at hlt
      exact hlt
    · rw [hhead] at hlt
      omega
  · intro hnot
    have hle : b.blockNum < top.num ∨ b.blockNum = top.num ∧ top ∈ n.forkDb.index := by
      rcases hput with hbelow | habove | ⟨hsame, i, hi, haddr⟩
      · exact .inl hbelow
      · split at hhead
        · rw [hhead, hydata] at hnot
          exact absurd habove hnot
        · omega
      · have htopindex := hwired.addrs i (ForkDb.mem_items_of_index hi) top
          (ForkDb.mem_items_of_head htop) haddr
        exact .inr ⟨hsame, htopindex ▸ hi⟩
    obtain ⟨hstored, -, hheld⟩ := hfiled.store htop hlow hle hfirst hpush
    exact ⟨⟨h.along.toFooting.fork g, low, hstored, hlogged⟩, h.closed, hheld.trans h.released⟩

/-- **A block that the fork database does not know**, while its head has failed on top of the node's:
it is tried instead of a switch, and is taken out again. -/
theorem Rested.withdraw {g : ForkDb} {top : ForkItem} (h : Rested env c n)
    (hpush : n.forkDb.pushBlock env b = .ok g) (hother : b.previous ≠ (links env).tip c)
    (hfirst : b.previous ≠ ⟨0, 0⟩) (htop : n.forkDb.head = some top) (hhigh : c.length < top.num)
    (hunknown : n.forkDb.fetchBlock (Db.blockId env b) = none) :
    g.head = some top ∧ top.data.previous = (links env).tip c ∧
      Ends (fun e => Rested env c e.2 ∧ n.blockLog <+: e.2.blockLog) (fun _ => False)
        (({ n with forkDb := g } : Node).appendBlock env fuel skip b) := by
  obtain ⟨low, hfiled, hlogged⟩ := h.along.filed
  obtain ⟨hhead, hprevious, hheld, hfiled'⟩ := hfiled.withdraw htop hhigh hfirst hunknown hpush
  refine ⟨hhead, hprevious, ?_⟩
  have htip : n.db.dgp.headBlockId = (links env).tip c := congrArg Prod.snd h.along.stands.mark
  obtain ⟨e, he⟩ := @Store.applyInSession_of_other env fuel skip b { n.toStore with forkDb := g }
    (by
      rw [← htip] at hother
      exact hother)
  unfold appendBlock
  rw [he]
  exact ⟨⟨⟨h.along.toFooting.fork _, low, hfiled', hlogged⟩, h.closed, hheld.trans h.released⟩,
    List.prefix_refl _⟩

/-- **`_push_block`** in a node at the end of its chain. -/
theorem pushBlockCore_rested (h : Rested env c n)
    (hplaced : ∀ g, n.forkDb.pushBlock env b = .ok g → n.Placed env b)
    (hplain : skip.forkDb = false) (hlog : skip.blockLog = false)
    (hhistory : skip.undoHistoryCheck = false) :
    Ends (fun e => Thrown env c b n e.2)
      (fun r => ∃ c', Rested env c' r.1 ∧ n.blockLog <+: r.1.blockLog ∧
        (b.previous = (links env).tip c → c' = c ++ [b]))
      (n.pushBlockCore env fuel skip b) := by
  have htip : n.db.dgp.headBlockId = (links env).tip c := congrArg Prod.snd h.along.stands.mark
  have hheight : n.db.dgp.headBlockNumber = c.length := congrArg Prod.fst h.along.stands.mark
  unfold pushBlockCore
  rw [hplain, if_neg Bool.false_ne_true]
  cases hpush : n.forkDb.pushBlock env b with
  | error e => exact fun _ => .inl ⟨h, List.prefix_refl _⟩
  | ok g =>
    have hplaced := hplaced g hpush
    unfold Placed at hplaced
    rw [htip, hheight] at hplaced
    show Ends _ _ (({ n with forkDb := g } : Node).lift (getOrThrow g.head _) >>= fun newHead =>
      if newHead.data.previous = n.db.dgp.headBlockId then
        ({ n with forkDb := g } : Node).appendBlock env fuel skip b >>= fun n' => pure (n', false)
      else if n.db.dgp.headBlockNumber < newHead.data.blockNum then
        releasing (({ n with forkDb := g } : Node).switchForks env fuel skip newHead) >>= fun n' =>
          pure (n', true)
      else pure (({ n with forkDb := g } : Node), false))
    rw [htip, hheight]
    by_cases hextends : b.previous = (links env).tip c
    · obtain ⟨⟨x, hx, hprevious⟩, hblock⟩ :=
        @Rested.append env fuel skip b c n g h hpush hextends hlog hhistory
      rw [hx]
      show Ends _ _ (if x.data.previous = (links env).tip c then _ else _)
      rw [if_pos hprevious]
      refine Ends.bind (hblock.mono (fun e he _ => he) fun n' hn' => hn') fun n' hn' => ?_
      exact ⟨c ++ [b], hn'.1, hn'.2, fun _ => rfl⟩
    · obtain ⟨hfirst, top, htop, hput⟩ := hplaced.resolve_left hextends
      split at hput
      · rename_i hlow
        obtain ⟨low, hfiled, -⟩ := h.along.filed
        obtain ⟨-, y, -, -, -, hhead⟩ := hfiled.grown.pointers.pushBlock hpush
        obtain ⟨x, hx⟩ : ∃ x, g.head = some x := ⟨_, (hhead top htop).2⟩
        obtain ⟨hother, hhigh, hstored⟩ := h.branch hpush hextends hfirst htop hlow hput hx
        rw [hx]
        show Ends _ _ (if x.data.previous = (links env).tip c then _ else _)
        rw [if_neg hother]
        split
        · rename_i hlt
          refine Ends.bind (Q := fun n' => ∃ c', Rested env c' n' ∧ n.blockLog <+: n'.blockLog ∧
            (b.previous = (links env).tip c → c' = c ++ [b])) ?_ fun n' hn' => hn'
          unfold releasing
          split
          · rename_i n' hn'
            obtain ⟨c', halong, hgrown, hclosed⟩ := switchForks_along h.along h.closed h.released
              htop hlow hfirst (hhigh hlt) hpush hx hlog hhistory hn'
            exact ⟨c', Rested.release halong hclosed, hgrown, fun hhead => absurd hhead hextends⟩
          · intro hnone
            refine absurd ⟨g, hpush, x, hx, ?_, ?_⟩ hnone
            · rw [htip]
              exact hother
            · rw [hheight]
              exact hlt
        · rename_i hbelow
          exact ⟨c, hstored hbelow, List.prefix_refl _, fun hhead => absurd hhead hextends⟩
      · rename_i hhigh
        obtain ⟨hhead, hprevious, hend⟩ := @Rested.withdraw env fuel skip b c n g top h hpush
          hextends hfirst htop (Nat.not_le.1 hhigh) hput
        rw [hhead]
        show Ends _ _ (if top.data.previous = (links env).tip c then _ else _)
        rw [if_pos hprevious]
        exact Ends.bind (hend.mono (fun e he _ => .inl he) fun n' hn' => hn') fun n' hn' => hn'.elim

end Node

end VizCore.Chain
