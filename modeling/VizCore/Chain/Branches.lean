import VizCore.Chain.ForkTree
import VizCore.Chain.Finality
import VizCore.Chain.Pending

/-!
# Branches and the switch between them

Two blocks of the tree, neither of them above the other, and what `fetch_branch_from` makes of
them.

* `Branch`: a block and its ancestors down to a child of some block;
* `Tree.fetchBranchFrom_parts`: the two branches, and where they part;
* `popTo_trail`: popping leads back to the state in which a branch begins;
* `applyBranch_trail`: applying a branch in reverse leads to the state of its first block;
* `fetchBranchFrom_switch`: both for the two branches.
-/

namespace VizCore.Chain

open VizCore.Lib VizCore.Protocol

namespace ForkDb

variable {env : Env} {f : ForkDb} {a b c m p : ForkItem} {l l' : List ForkItem}

/-! ## One branch -/

/-- The list leads from `a` down to a child of `m`. -/
inductive Branch (f : ForkDb) : ForkItem → List ForkItem → ForkItem → Prop
  | one {a m : ForkItem} : a ∈ f.index → f.Parent a m → Branch f a [a] m
  | cons {a p m : ForkItem} {l : List ForkItem} : a ∈ f.index → f.Parent a p →
      Branch f p l m → Branch f a (a :: l) m

theorem Tree.parent_unique (hf : Tree env f) (hp : f.Parent a p) (hm : f.Parent a m) : p = m :=
  hf.ids p hp.1 m hm.1 (hp.2.1.trans hm.2.1.symm)

namespace Branch

theorem ne_nil (h : Branch f a l m) : l ≠ [] := by
  cases h with
  | one ha hparent => exact List.cons_ne_nil _ _
  | cons ha hparent hrest => exact List.cons_ne_nil _ _

theorem head? (h : Branch f a l m) : l.head? = some a := by
  cases h with
  | one ha hparent => rfl
  | cons ha hparent hrest => rfl

theorem mem (h : Branch f a l m) : ∀ i ∈ l, i ∈ f.index := by
  induction h with
  | one ha hparent =>
    intro i hi
    rw [List.mem_singleton.1 hi]
    exact ha
  | cons ha hparent hrest ih =>
    intro i hi
    rcases List.mem_cons.1 hi with rfl | hi
    · exact ha
    · exact ih i hi

/-- The last element is a child of `m`. -/
theorem last (h : Branch f a l m) :
    ∃ z, l.getLast? = some z ∧ z.data.previous = m.id := by
  induction h with
  | @one a m ha hparent => exact ⟨a, rfl, hparent.2.1.symm⟩
  | @cons a p m l ha hparent hrest ih =>
    obtain ⟨z, hz, hprevious⟩ := ih
    refine ⟨z, ?_, hprevious⟩
    rw [List.getLast?_cons, hz]
    rfl

theorem num_le (h : Branch f a l m) : ∀ i ∈ l, i.num ≤ a.num := by
  induction h with
  | one ha hparent =>
    intro i hi
    rw [List.mem_singleton.1 hi]
  | @cons a p m l ha hparent hrest ih =>
    intro i hi
    rcases List.mem_cons.1 hi with rfl | hi
    · exact le_rfl
    · have hle := ih i hi
      have hlt := hparent.2.2
      omega

/-- All of the branch is above `m`. -/
theorem num_lt (h : Branch f a l m) : ∀ i ∈ l, m.num < i.num := by
  induction h with
  | one ha hparent =>
    intro i hi
    rw [List.mem_singleton.1 hi]
    exact hparent.2.2
  | @cons a p m l ha hparent hrest ih =>
    intro i hi
    rcases List.mem_cons.1 hi with rfl | hi
    · have hlow := ih p (List.mem_of_mem_head? hrest.head?)
      have hlt := hparent.2.2
      omega
    · exact ih i hi

/-- The block below the branch is kept, and is an ancestor. -/
theorem descends (h : Branch f a l m) : m ∈ f.index ∧ f.Descends a m := by
  induction h with
  | one ha hparent => exact ⟨hparent.1, .single hparent⟩
  | cons ha hparent hrest ih => exact ⟨ih.1, ih.2.head hparent⟩

/-- An ancestor of `a` is on the branch, or an ancestor of `m`. -/
theorem mem_or_descends (hf : Tree env f) (h : Branch f a l m) (hc : f.Descends a c) :
    c ∈ l ∨ f.Descends m c := by
  induction h with
  | one ha hparent =>
    rcases hc.eq_or_parent with rfl | ⟨q, hq, hqc⟩
    · exact .inl List.mem_cons_self
    · rw [hf.parent_unique hq hparent] at hqc
      exact .inr hqc
  | cons ha hparent hrest ih =>
    rcases hc.eq_or_parent with rfl | ⟨q, hq, hqc⟩
    · exact .inl List.mem_cons_self
    · rw [hf.parent_unique hq hparent] at hqc
      exact (ih hqc).imp_left (List.mem_cons_of_mem _)

theorem length (hf : Tree env f) (h : Branch f a l m) : a.num = m.num + l.length := by
  induction h with
  | one ha hparent => exact (hf.parent_eq ha hparent).2.1
  | cons ha hparent hrest ih =>
    have hstep := (hf.parent_eq ha hparent).2.1
    rw [List.length_cons]
    omega

/-- Addresses fall along the branch. -/
theorem length_le_addr (hf : Tree env f) (h : Branch f a l m) : l.length ≤ a.addr := by
  induction h with
  | one ha hparent =>
    have hlt := (hf.parent_eq ha hparent).2.2
    rw [List.length_singleton]
    omega
  | cons ha hparent hrest ih =>
    have hlt := (hf.parent_eq ha hparent).2.2
    rw [List.length_cons]
    omega

end Branch

/-! ## Two branches -/

namespace Tree

/-- Climbing down to a height that the ancestor does not exceed: what is collected is higher. -/
theorem climbTo_branch (hf : Tree env f) {num : Nat} (hnum : c.num ≤ num) (fuel : Nat)
    {a : ForkItem} (ha : a ∈ f.index) (hac : f.Descends a c) (hfuel : a.addr < fuel) :
    ∃ top last, f.climbTo num fuel a = .ok (top, last) ∧ last ∈ f.index ∧ f.Descends a last ∧
      f.Descends last c ∧ last.num = min a.num num ∧ (∀ i ∈ top, num < i.num) ∧
      ∀ l m, Branch f last l m → Branch f a (top ++ l) m := by
  induction fuel generalizing a with
  | zero => exact absurd hfuel (Nat.not_lt_zero _)
  | succ fuel ih =>
    have hheight : a.data.blockNum = a.num := (hf.named a ha).2.symm
    unfold climbTo
    rw [hheight]
    by_cases hlt : num < a.num
    · obtain ⟨p, hparent, hpc⟩ := hac.parent_of_lt (lt_of_le_of_lt hnum hlt)
      obtain ⟨hp, hstep, haddr⟩ := hf.parent_eq ha hparent
      obtain ⟨top, last, hrun, hmem, hdown, hlast, hlastNum, htop, hbranch⟩ :=
        ih hparent.1 hpc (by omega)
      refine ⟨a :: top, last, ?_, hmem, hdown.head hparent, hlast, by omega, ?_, ?_⟩
      · rw [if_pos hlt, hp]
        show (f.climbTo num fuel p >>= fun r => pure (a :: r.1, r.2)) = _
        rw [hrun]
        rfl
      · intro i hi
        rcases List.mem_cons.1 hi with rfl | hi
        · exact hlt
        · exact htop i hi
      · intro l m hl
        exact .cons ha hparent (hbranch l m hl)
    · refine ⟨[], a, ?_, ha, .refl, hac, by omega, ?_, fun l m hl => hl⟩
      · rw [if_neg hlt]
        rfl
      · intro i hi
        exact absurd hi List.not_mem_nil

/-- Climbing down from two blocks of one height: the two branches share no block and part at a
common ancestor. -/
theorem climbBoth_branch (hf : Tree env f) (fuel : Nat) {a b : ForkItem} (ha : a ∈ f.index)
    (hb : b ∈ f.index) (hab : a ≠ b) (hac : f.Descends a c) (hbc : f.Descends b c)
    (hnum : a.num = b.num) (hfuel : a.addr < fuel) :
    ∃ l l' m, f.climbBoth fuel a b = .ok (l, l') ∧ Branch f a l m ∧ Branch f b l' m ∧
      ∀ i ∈ l, i ∉ l' := by
  induction fuel generalizing a b with
  | zero => exact absurd hfuel (Nat.not_lt_zero _)
  | succ fuel ih =>
    have hlt : c.num < a.num := by
      refine lt_of_le_of_ne hac.num_le fun heq => hab ?_
      rw [hac.eq_of_num heq.symm, hbc.eq_of_num (hnum.symm.trans heq.symm)]
    obtain ⟨p, hap, hpc⟩ := hac.parent_of_lt hlt
    obtain ⟨q, hbq, hqc⟩ := hbc.parent_of_lt (hnum ▸ hlt)
    obtain ⟨hp, hpnum, haddr⟩ := hf.parent_eq ha hap
    obtain ⟨hq, hqnum, -⟩ := hf.parent_eq hb hbq
    unfold climbBoth
    by_cases hprevious : a.data.previous = b.data.previous
    · have hsame : q = p := hf.ids q hbq.1 p hap.1 (by rw [hbq.2.1, hap.2.1, hprevious])
      rw [hsame] at hbq
      refine ⟨[a], [b], p, ?_, .one ha hap, .one hb hbq, ?_⟩
      · rw [if_neg (not_not.2 hprevious)]
        rfl
      · intro i hi hmem
        rw [List.mem_singleton] at hi hmem
        exact hab (hi.symm.trans hmem)
    · have hpq : p ≠ q := by
        intro heq
        refine hprevious ?_
        rw [← hap.2.1, ← hbq.2.1, heq]
      obtain ⟨l, l', m, hrun, hl, hl', hapart⟩ :=
        ih hap.1 hbq.1 hpq hpc hqc (by omega) (by omega)
      refine ⟨a :: l, b :: l', m, ?_, .cons ha hap hl, .cons hb hbq hl', ?_⟩
      · rw [if_pos hprevious, hp, hq]
        show (f.climbBoth fuel p q >>= fun r => pure (a :: r.1, b :: r.2)) = _
        rw [hrun]
        rfl
      · intro i hi hmem
        rcases List.mem_cons.1 hi with rfl | hi
        · rcases List.mem_cons.1 hmem with heq | hmem
          · exact hab heq
          · have hle := hl'.num_le i hmem
            omega
        · rcases List.mem_cons.1 hmem with rfl | hmem
          · have hle := hl.num_le i hi
            omega
          · exact hapart i hi hmem

/-- **Two blocks, neither of them above the other**: their branches share no block and part at
their most recent common ancestor. -/
theorem fetchBranchFrom_parts (hf : Tree env f) (ha : a ∈ f.index) (hb : b ∈ f.index)
    (hac : f.Descends a c) (hbc : f.Descends b c) (hab : ¬ f.Descends a b)
    (hba : ¬ f.Descends b a) :
    ∃ l l' m, f.fetchBranchFrom a.id b.id = .ok (l, l') ∧ Branch f a l m ∧ Branch f b l' m ∧
      ∀ i ∈ l, i ∉ l' := by
  have hbnum : b.data.blockNum = b.num := (hf.named b hb).2.symm
  obtain ⟨topA, a', hclimbA, ha', haa', hac', hnumA, htopA, hbranchA⟩ :=
    hf.climbTo_branch hbc.num_le (a.addr + 1) ha hac (Nat.lt_succ_self _)
  have hanum : a'.data.blockNum = a'.num := (hf.named a' ha').2.symm
  obtain ⟨topB, b', hclimbB, hb', hbb', hbc', hnumB, htopB, hbranchB⟩ :=
    hf.climbTo_branch hac'.num_le (b.addr + 1) hb hbc (Nat.lt_succ_self _)
  have hne : a' ≠ b' := by
    intro heq
    -- one of the two has not moved
    rcases Nat.le_total a.num b.num with hle | hle
    · have hsame : a = a' := haa'.eq_of_num (by omega)
      rw [hsame, heq] at hba
      exact hba hbb'
    · have hsame : b = b' := hbb'.eq_of_num (by omega)
      rw [hsame, ← heq] at hab
      exact hab haa'
  obtain ⟨l, l', m, hboth, hl, hl', hapart⟩ := hf.climbBoth_branch (a'.addr + 1) ha' hb' hne hac'
    hbc' (by omega) (Nat.lt_succ_self _)
  refine ⟨topA ++ l, topB ++ l', m, ?_, hbranchA l m hl, hbranchB l' m hl', ?_⟩
  · unfold fetchBranchFrom
    simp only [bind_eq_ok, getOrThrow_eq_ok, pure_eq_ok]
    refine ⟨a, hf.fetchBlock_eq ha, b, hf.fetchBlock_eq hb, (topA, a'), ?_, (topB, b'), ?_, (l, l'),
      hboth, rfl⟩
    · rw [hbnum]
      exact hclimbA
    · rw [hanum]
      exact hclimbB
  · intro i hi hmem
    rcases List.mem_append.1 hi with hi | hi
    · have hhigh := htopA i hi
      have hle := (hbranchB l' m hl').num_le i hmem
      omega
    · rcases List.mem_append.1 hmem with hmem | hmem
      · have hhigh := htopB i hmem
        have hle := hl.num_le i hi
        omega
      · exact hapart i hi hmem

end Tree

end ForkDb

/-! ## The states along a branch -/

/-- The database `db` comes from `g` by the blocks, each applied in its session; `olds` are the
states before them, newest first. -/
inductive Trail (env : Env) (g : Db) : List SignedBlock → List Db → Db → Prop
  | nil : Trail env g [] [] g
  | snoc {bs : List SignedBlock} {olds : List Db} {s s' : Store} {b : SignedBlock} {fuel : Nat}
      {skip : Skip} : Trail env g bs olds s.db → s.applyInSession env fuel skip b = .ok s' →
      Trail env g (bs ++ [b]) (s.db :: olds) s'.db

namespace Store

variable {env : Env} {fuel : Nat} {skip : Skip} {s s' : Store} {b : SignedBlock}

theorem headMark_keepsFinality (m : Nat × BlockId) : KeepsFinality fun d => d.headMark = m where
  irreversible db num id hdb := hdb
  postValidations db t hdb := hdb

theorem step_headMark {m : Nat × BlockId} {st : BlockStep} (hst : st ≠ .updateGlobalDynamicData)
    (hdb : s.db.headMark = m) :
    Traced.Ensures (fun _ => True) (s.step env skip b st) fun t => t.db.headMark = m := by
  refine onDb_ensures (I := fun d => d.headMark = m) ?_
  refine (Traced.Ensures.report _).bind fun _ _ => ?_
  exact .lift fun d hrun => (Db.run_headMark hst hrun).trans hdb

/-- A block that has been applied is the head. -/
theorem applyBlock_headMark (env : Env) (fuel : Nat) (skip : Skip) (s : Store) (b : SignedBlock) :
    Traced.Ensures (fun _ => True) (s.applyBlock env fuel skip b) fun t =>
      t.db.headMark = (b.blockNum, Db.blockId env b) := by
  have hfinality := headMark_keepsFinality (b.blockNum, Db.blockId env b)
  unfold applyBlock
  refine Traced.Ensures.bind (Q := fun _ => True) (fun _ _ _ _ => trivial) fun s₁ _ => ?_
  refine Traced.Ensures.bind (Q := fun _ => True) (fun _ _ _ _ => trivial) fun s₂ _ => ?_
  have hhead : Traced.Ensures (fun _ => True) (s₂.step env skip b .updateGlobalDynamicData)
      fun t => t.db.headMark = (b.blockNum, Db.blockId env b) := by
    refine onDb_ensures (I := fun d => d.headMark = (b.blockNum, Db.blockId env b)) ?_
    refine (Traced.Ensures.report _).bind fun _ _ => ?_
    exact .lift fun d hrun => Db.updateGlobalDynamicData_headMark hrun
  refine hhead.bind fun s₃ h₃ => ?_
  refine (step_headMark (by decide) h₃).bind fun s₄ h₄ => ?_
  refine Traced.Ensures.bind (Q := fun t : Store => t.db.headMark = (b.blockNum, Db.blockId env b))
    (.lift fun s₅ h => updateLastIrreversibleBlock_keeps hfinality h₄ h) fun s₅ h₅ => ?_
  refine (step_headMark (by decide) h₅).bind fun s₆ h₆ => ?_
  refine (onDb_ensures (s := s₆)
    (Db.clearExpiredProposals_framed (Db.headMark_framed env _) fuel h₆)).bind fun s₇ h₇ => ?_
  refine (Traced.Ensures.foldlM (fun t : Store => t.db.headMark = (b.blockNum, Db.blockId env b)) _
    closingSteps (fun st hst t ht => step_headMark (fun heq => absurd (heq ▸ hst) (by decide)) ht)
    s₇ h₇).bind fun s₈ h₈ => ?_
  refine Traced.Ensures.bind (Q := fun t : Store => t.db.headMark = (b.blockNum, Db.blockId env b))
    (.lift fun s₉ h => checkBlockPostValidationChain_keeps hfinality h₈ h) fun s₉ h₉ => ?_
  exact .pure h₉

theorem applyInSession_headMark (h : s.applyInSession env fuel skip b = .ok s') :
    s'.db.headMark = (b.blockNum, Db.blockId env b) := by
  unfold applyInSession at h
  have hrun := applyBlock_headMark env fuel skip s.startUndoSession b
  split at h
  · rename_i t ht
    cases h
    exact (hrun 0 (fun _ _ => trivial) s' ht)
  · cases h

end Store

namespace Trail

variable {env : Env} {g db : Db} {bs : List SignedBlock} {olds : List Db}

theorem length (h : Trail env g bs olds db) : olds.length = bs.length := by
  induction h with
  | nil => rfl
  | snoc htrail hrun ih =>
    rw [List.length_cons, List.length_append, ih]
    rfl

/-- The last block is the head. -/
theorem headMark {b : SignedBlock} (h : Trail env g (bs ++ [b]) olds db) :
    db.headMark = (b.blockNum, Db.blockId env b) := by
  generalize hcs : bs ++ [b] = cs at h
  cases h with
  | nil => exact absurd hcs (by simp)
  | snoc htrail hrun =>
    obtain ⟨-, hlast⟩ := List.append_inj' hcs rfl
    cases hlast
    exact Store.applyInSession_headMark hrun

end Trail

namespace Node

variable {env : Env} {f : ForkDb} {g db : Db} {bs : List SignedBlock} {olds : List Db}

/-- One block is popped: the head of the fork database is at least as high, so its parent is kept
too. -/
theorem popBlock_head {n : Node} {h p i : ForkItem} {revision : Nat} {old : Db}
    {rest : List (Nat × Db)} (hf : f.Tree env) (hclosed : n.pendingSession = false)
    (hh : h ∈ f.index) (hp : f.Parent h p) (hfork : n.forkDb = f.setHead h) (hi : i ∈ f.index)
    (hhead : n.db.dgp.headBlockId = i.id) (hundo : n.undoStack = (revision, old) :: rest) :
    ∃ n', n.popBlock env = .ok n' ∧ n'.pendingSession = false ∧ n'.forkDb = f.setHead p ∧
      n'.db = old ∧ n'.undoStack = rest := by
  have htree := hf.setHead hh
  obtain ⟨q, hq, hlock, hid, -⟩ := htree.linked.prev h hh ⟨p, hp.1, hp.2.2⟩
  have hsame : q = p := hf.ids q hq p hp.1 (hid.trans hp.2.1.symm)
  rw [hsame] at hlock
  have hfetch : n.fetchBlockById env n.db.dgp.headBlockId = some i.data := by
    unfold Store.fetchBlockById
    rw [hhead, hfork, htree.fetchBlock_eq hi]
  have hpop : n.forkDb.popBlock = .ok (f.setHead p) := by
    rw [hfork]
    simp only [ForkDb.popBlock, bind_eq_ok, getOrThrow_eq_ok, pure_eq_ok]
    exact ⟨h, rfl, p, hlock, rfl⟩
  unfold popBlock
  rw [resetPendingSession_of_closed hclosed]
  dsimp only
  rw [hfetch, hpop]
  refine ⟨_, rfl, hclosed, ?_, ?_, ?_⟩
  · show (Store.undo _).forkDb = _
    unfold Store.undo
    simp only [hundo]
  · show (Store.undo _).db = _
    unfold Store.undo
    simp only [hundo]
  · show (Store.undo _).undoStack = _
    unfold Store.undo
    simp only [hundo]

/-- **Popping** leads back to the state in which the branch begins. -/
theorem popTo_trail {n : Node} {h m : ForkItem} {k : Nat} (hf : f.Tree env)
    (htrail : Trail env g bs olds n.db) (holds : olds <+: n.undoStack.map (·.2))
    (hclosed : n.pendingSession = false) (hfork : n.forkDb = f.setHead h) (hh : h ∈ f.index)
    (hdown : f.Descends h m) (hdepth : m.num + bs.length ≤ h.num)
    (hbs : ∀ b ∈ bs, ∃ i ∈ f.index, i.data = b ∧ i.id ≠ m.id)
    (hg : g.dgp.headBlockId = m.id) (hk : bs.length < k) :
    ∃ n', popTo env m.id k n = .ok n' ∧ n'.db = g ∧
      n'.undoStack = n.undoStack.drop bs.length ∧ n'.pendingSession = false := by
  generalize hdb : n.db = db at htrail
  induction htrail generalizing n h k with
  | nil =>
    cases k with
    | zero => exact absurd hk (Nat.not_lt_zero _)
    | succ k =>
      unfold popTo
      rw [hdb, if_neg (not_not.2 hg)]
      exact ⟨n, rfl, hdb, rfl, hclosed⟩
  | @snoc bs olds s s' b fuel skip htrail hrun ih =>
    rw [List.length_append, List.length_singleton] at hdepth hk
    cases k with
    | zero => exact absurd hk (Nat.not_lt_zero _)
    | succ k =>
      obtain ⟨i, hi, hdata, hne⟩ := hbs b (List.mem_append_right _ List.mem_cons_self)
      have hhead : n.db.dgp.headBlockId = i.id := by
        rw [hdb, (hf.named i hi).1, hdata]
        exact congrArg Prod.snd (Store.applyInSession_headMark hrun)
      obtain ⟨p, hp, hpm⟩ := hdown.parent_of_lt (by omega)
      have hpnum := (hf.parent_eq hh hp).2.1
      cases hundo : n.undoStack with
      | nil =>
        rw [hundo] at holds
        exact absurd (List.prefix_nil.1 holds) (List.cons_ne_nil _ _)
      | cons u rest =>
        rw [hundo, List.map_cons] at holds
        obtain ⟨hold, holds⟩ := List.cons_prefix_cons.1 holds
        obtain ⟨n', hpop, hclosed', hfork', hdb', hundo'⟩ :=
          popBlock_head hf hclosed hh hp hfork hi hhead hundo
        have hstep := ih (n := n') (h := p) (k := k) (by rw [hundo']; exact holds) hclosed' hfork'
          hp.1 hpm (by omega) (fun c hc => hbs c (List.mem_append_left _ hc)) (by omega)
          (by rw [hdb', hold])
        obtain ⟨n₁, hpopTo, hn₁, hstack, hclosed₁⟩ := hstep
        refine ⟨n₁, ?_, hn₁, ?_, hclosed₁⟩
        · unfold popTo
          rw [hhead, if_pos hne, hpop]
          exact hpopTo
        · rw [hstack, hundo', List.length_append, List.length_singleton, List.drop_succ_cons]

/-- **Applying** a branch goes on from the state. -/
theorem applyBranch_trail {fuel : Nat} {skip : Skip} (items : List ForkItem) {n n' : Node}
    (htrail : Trail env g bs olds n.db) (h : applyBranch env fuel skip items n = .ok n') :
    ∃ olds', Trail env g (bs ++ items.map (·.data)) olds' n'.db := by
  induction items generalizing n bs olds with
  | nil =>
    cases h
    exact ⟨olds, by rwa [List.map_nil, List.append_nil]⟩
  | cons item items ih =>
    unfold applyBranch at h
    cases hrun : n.applyInSession env fuel skip item.data with
    | error e =>
      rw [hrun] at h
      cases h
    | ok s =>
      rw [hrun] at h
      obtain ⟨olds', hrest⟩ := ih (htrail.snoc hrun) h
      refine ⟨olds', ?_⟩
      rw [List.map_cons, ← List.append_cons bs item.data (items.map (·.data))] at *
      exact hrest

end Node

/-- **The branches of two blocks**, neither of them an ancestor of the other: they share no block,
and what is below them is the most recent common ancestor.  From the state of the second block,
popping to that ancestor and applying the first branch in reverse leads to the state of the first
block. -/
theorem fetchBranchFrom_switch (env : Env) (f : ForkDb) (hf : f.Tree env) (x y : ForkItem)
    (hx : x ∈ f.index) (hy : y ∈ f.index) (hcommon : ∃ c, f.Descends x c ∧ f.Descends y c)
    (hxy : ¬ f.Descends x y) (hyx : ¬ f.Descends y x) :
    ∃ l l' m, f.fetchBranchFrom x.id y.id = .ok (l, l') ∧
      f.Branch x l m ∧ f.Branch y l' m ∧ l ≠ [] ∧ l' ≠ [] ∧ (∀ i ∈ l, ∀ j ∈ l', i.id ≠ j.id) ∧
      (∃ z ∈ l.getLast?, ∃ z' ∈ l'.getLast?,
        z.data.previous = z'.data.previous ∧ z'.data.previous = m.id) ∧
      f.Descends x m ∧ f.Descends y m ∧
      (∀ c, f.Descends x c → f.Descends y c → f.Descends m c) ∧
      ∀ (n : Node) (g : Db) (olds : List Db), n.forkDb = f.hold (l ++ l') → f.head = some x →
        y.num ≤ x.num → n.pendingSession = false →
        Trail env g (l'.map (·.data)).reverse olds n.db → olds <+: n.undoStack.map (·.2) →
        g.dgp.headBlockId = m.id →
        ∃ n₁, Node.popTo env m.id (n.forkDb.nextAddr + 1) n = .ok n₁ ∧ n₁.db = g ∧
          n₁.undoStack = n.undoStack.drop l'.length ∧
          ∀ fuel skip n₂, Node.applyBranch env fuel skip l.reverse n₁ = .ok n₂ →
            n₂.db.headMark = (x.num, x.id) ∧
            ∃ olds', Trail env g (l.map (·.data)).reverse olds' n₂.db := by
  obtain ⟨c, hxc, hyc⟩ := hcommon
  obtain ⟨l, l', m, hrun, hl, hl', hapart⟩ := hf.fetchBranchFrom_parts hx hy hxc hyc hxy hyx
  obtain ⟨z, hz, hzm⟩ := hl.last
  obtain ⟨z', hz', hzm'⟩ := hl'.last
  refine ⟨l, l', m, hrun, hl, hl', hl.ne_nil, hl'.ne_nil, ?_, ?_, hl.descends.2, hl'.descends.2,
    ?_, ?_⟩
  · intro i hi j hj hid
    have hsame : i = j := hf.ids i (hl.mem i hi) j (hl'.mem j hj) hid
    rw [hsame] at hi
    exact hapart j hi hj
  · exact ⟨z, hz, z', hz', hzm.trans hzm'.symm, hzm'⟩
  · intro c hxc hyc
    rcases hl.mem_or_descends hf hxc with hmem | hbelow
    · rcases hl'.mem_or_descends hf hyc with hmem' | hbelow
      · exact absurd hmem' (hapart c hmem)
      · exact hbelow
    · exact hbelow
  · intro n g olds hfork hhead hle hclosed htrail holds hg
    have hmem : ∀ i ∈ l ++ l', i ∈ f.index := by
      intro i hi
      rcases List.mem_append.1 hi with hi | hi
      · exact hl.mem i hi
      · exact hl'.mem i hi
    have htree : (f.hold (l ++ l')).Tree env := hf.hold hmem
    have hset : n.forkDb = (f.hold (l ++ l')).setHead x := by
      rw [hfork]
      unfold ForkDb.hold ForkDb.setHead
      rw [hhead]
    have hlength := hl'.length hf
    have haddr := hl'.length_le_addr hf
    have hfresh := hf.fresh y (ForkDb.mem_items.2 (.inl hy))
    have hnext : n.forkDb.nextAddr = f.nextAddr := by
      rw [hfork]
      rfl
    have hcount : (l'.map (·.data)).reverse.length = l'.length := by
      rw [List.length_reverse, List.length_map]
    have hblocks : ∀ b ∈ (l'.map (·.data)).reverse,
        ∃ i ∈ (f.hold (l ++ l')).index, i.data = b ∧ i.id ≠ m.id := by
      intro b hb
      obtain ⟨i, hi, rfl⟩ := List.mem_map.1 (List.mem_reverse.1 hb)
      refine ⟨i, hl'.mem i hi, rfl, fun hid => ?_⟩
      have hlt := hl'.num_lt i hi
      rw [hf.ids i (hl'.mem i hi) m hl.descends.1 hid] at hlt
      exact lt_irrefl _ hlt
    have hdown : (f.hold (l ++ l')).Descends x m := hl.descends.2
    obtain ⟨n₁, hpop, hdb, hstack, -⟩ := Node.popTo_trail (h := x) (m := m)
      (k := n.forkDb.nextAddr + 1) htree htrail holds hclosed hset hx hdown
      (by omega) hblocks hg (by omega)
    rw [hcount] at hstack
    refine ⟨n₁, hpop, hdb, hstack, fun fuel skip n₂ happly => ?_⟩
    have hstart : Trail env g [] [] n₁.db := by
      rw [hdb]
      exact .nil
    obtain ⟨olds', htrail'⟩ := Node.applyBranch_trail l.reverse hstart happly
    rw [List.nil_append, List.map_reverse] at htrail'
    refine ⟨?_, olds', htrail'⟩
    obtain ⟨hid, hnum⟩ := hf.named x hx
    rw [hid, hnum]
    cases l with
    | nil => exact absurd rfl hl.ne_nil
    | cons i l =>
      have hfirst : i = x := Option.some.inj hl.head?
      rw [hfirst, List.map_cons, List.reverse_cons] at htrail'
      exact htrail'.headMark

/-- The small chain with two witnesses, whose slots alternate. -/
def switchStore : Store :=
  let s := smallStore [{ id := 4, name := "bob" }]
  { s with
    db := { s.db with
      witnessSchedule :=
        { currentShuffledWitnesses := ["bob", "alice"], numScheduledWitnesses := 2
          nextShuffleBlockNum := 21 }
      witnesses :=
        ⟨[{ id := 0, owner := "alice", signingKey := 7 },
          { id := 1, owner := "bob", signingKey := 7 }], 2⟩
      blockSummaries := ⟨(List.range 5).map fun k => ⟨k + 10, ⟨10, 30⟩⟩, 65536⟩ } }

def childBlock (previous : BlockId) (timestamp : TimePointSec) (witness : AccountName) :
    SignedBlock :=
  { emptyBlock with previous := previous, timestamp := timestamp, witness := witness }

def rootItem : ForkItem := ⟨0, none, 10, ⟨10, 30⟩, rootBlock⟩

/-! The two blocks of the chain, and three blocks of a fork that skips their slots. -/

def firstItem : ForkItem := ⟨1, some 0, 11, ⟨11, 33⟩, childBlock ⟨10, 30⟩ 33 "alice"⟩

def headItem : ForkItem := ⟨2, some 1, 12, ⟨12, 36⟩, childBlock ⟨11, 33⟩ 36 "bob"⟩

def rivalItem : ForkItem := ⟨3, some 0, 11, ⟨11, 39⟩, childBlock ⟨10, 30⟩ 39 "alice"⟩

def middleItem : ForkItem := ⟨4, some 3, 12, ⟨12, 42⟩, childBlock ⟨11, 39⟩ 42 "bob"⟩

def topItem : ForkItem := ⟨5, some 4, 13, ⟨13, 45⟩, childBlock ⟨12, 42⟩ 45 "alice"⟩

def switchOps : List ForkOp :=
  [.startBlock rootBlock, .pushBlock firstItem.data, .pushBlock headItem.data,
    .pushBlock rivalItem.data, .pushBlock middleItem.data, .pushBlock topItem.data]

def switchTree : ForkDb := switchOps.foldl (ForkOp.run smallEnv) {}

theorem switchTree_tree : switchTree.Tree smallEnv := by
  have hguarded : Guarded (ForkOp.run smallEnv) (ForkOp.Proper smallEnv) {} switchOps :=
    ⟨rfl, ⟨.inl rfl, fun h => nomatch h⟩, ⟨.inl rfl, fun h => nomatch h⟩,
      ⟨.inl rfl, fun h => nomatch h⟩, ⟨.inl rfl, fun h => nomatch h⟩,
      ⟨.inl rfl, fun h => nomatch h⟩, trivial⟩
  exact Guarded.invariant (ForkDb.Tree smallEnv) (fun _ _ hf hop => ForkOp.run_tree hf hop)
    (ForkDb.Tree.empty smallEnv) hguarded (List.prefix_refl switchOps)

theorem switchTree_index : switchTree.index =
    [rootItem, firstItem, headItem, rivalItem, middleItem, topItem] := rfl

theorem headItem_descends : switchTree.Descends headItem rootItem := by
  have hfirst : switchTree.Parent headItem firstItem :=
    ⟨by simp [switchTree_index], rfl, by decide⟩
  have hroot : switchTree.Parent firstItem rootItem :=
    ⟨by simp [switchTree_index], rfl, by decide⟩
  exact .head hfirst (.single hroot)

theorem topItem_descends : switchTree.Descends topItem rootItem := by
  have hmiddle : switchTree.Parent topItem middleItem :=
    ⟨by simp [switchTree_index], rfl, by decide⟩
  have hrival : switchTree.Parent middleItem rivalItem :=
    ⟨by simp [switchTree_index], rfl, by decide⟩
  have hroot : switchTree.Parent rivalItem rootItem :=
    ⟨by simp [switchTree_index], rfl, by decide⟩
  exact .head hmiddle (.head hrival (.single hroot))

/-- The parent of the top item has the height of the head, and is not the head. -/
theorem topItem_not_descends : ¬ switchTree.Descends topItem headItem := by
  intro h
  obtain ⟨p, hp, hdown⟩ := h.parent_of_lt (by decide)
  have hmiddle : p = middleItem :=
    switchTree_tree.ids p hp.1 middleItem (by simp [switchTree_index]) hp.2.1
  rw [hmiddle] at hdown
  exact absurd (congrArg (fun i : ForkItem => i.addr) (hdown.eq_of_num rfl)) (by decide)

/-- The node after the two blocks of the chain. -/
def switchNode (s₁ s₂ : Store) : Node :=
  { toStore := { s₂ with
      forkDb := switchTree.hold [topItem, middleItem, rivalItem, headItem, firstItem]
      undoStack := [(2, s₁.db), (1, switchStore.db)] } }

/-- The node leaves its two blocks and takes over the three of the fork. -/
theorem fetchBranchFrom_switch_fork : ∃ n n₁ n₂ : Node,
    switchTree.fetchBranchFrom topItem.id headItem.id =
        .ok ([topItem, middleItem, rivalItem], [headItem, firstItem]) ∧
      n.db.headMark = (12, headItem.id) ∧
      n.popTo smallEnv rootItem.id 7 = .ok n₁ ∧ n₁.db = switchStore.db ∧
      Node.applyBranch smallEnv 2 { merkleCheck := true } [rivalItem, middleItem, topItem] n₁ =
        .ok n₂ ∧
      n₂.db.headMark = (13, topItem.id) := by
  have hrun : returns (switchStore.applyInSession smallEnv 2 { merkleCheck := true } firstItem.data)
      (fun s₁ => returns (s₁.applyInSession smallEnv 2 { merkleCheck := true } headItem.data)
        fun s₂ => returns (Node.popTo smallEnv rootItem.id 7 (switchNode s₁ s₂))
          fun n₁ => returns (Node.applyBranch smallEnv 2 { merkleCheck := true }
            [rivalItem, middleItem, topItem] n₁) fun _ => true) = true := by
    decide +kernel
  obtain ⟨s₁, hs₁, hrun⟩ := returns_eq_true hrun
  obtain ⟨s₂, hs₂, hrun⟩ := returns_eq_true hrun
  obtain ⟨n₁, hn₁, hrun⟩ := returns_eq_true hrun
  obtain ⟨n₂, hn₂, -⟩ := returns_eq_true hrun
  have htrail : Trail smallEnv switchStore.db [firstItem.data, headItem.data]
      [s₁.db, switchStore.db] s₂.db :=
    Trail.snoc (Trail.snoc .nil hs₁) hs₂
  obtain ⟨l, l', m, hfetch, -, -, -, -, -, hlast, -, -, -, hswitch⟩ :=
    fetchBranchFrom_switch smallEnv switchTree switchTree_tree topItem headItem
      (by simp [switchTree_index]) (by simp [switchTree_index])
      ⟨rootItem, topItem_descends, headItem_descends⟩ topItem_not_descends
      fun h => absurd h.num_le (by decide)
  have hbranches : switchTree.fetchBranchFrom topItem.id headItem.id =
      .ok ([topItem, middleItem, rivalItem], [headItem, firstItem]) := rfl
  rw [hbranches] at hfetch
  cases hfetch
  obtain ⟨z, -, z', hz', -, hm⟩ := hlast
  cases hz'
  obtain ⟨n₁', hpop, hdb, -, happly⟩ := hswitch (switchNode s₁ s₂) switchStore.db _ rfl rfl
    (by decide) rfl htrail List.prefix_rfl hm
  rw [← hm] at hpop
  have hsame : n₁' = n₁ := Except.ok.inj (hpop.symm.trans hn₁)
  rw [hsame] at hdb happly
  exact ⟨_, n₁, n₂, hbranches, Store.applyInSession_headMark hs₂, hn₁, hdb, hn₂,
    (happly 2 _ n₂ hn₂).1⟩

end VizCore.Chain
