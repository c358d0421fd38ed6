import VizCore.Chain.Wiring
import VizCore.Chain.Branches

/-!
# The two heads

The fork database has a head of its own.  A push that appends a block, or stores one that is not
higher, leaves it at the head of the chain.  A fork switch pops it together with the blocks of the
old branch and does not set it again.

* `Store.applyBlock_settles`: what a block keeps of the store, also when it throws;
* `Poised.popTo`: popping lowers the head of the fork database;
* `Node.pushBlockCore_poised`: what `_push_block` does to the two heads;
* `pushBlock_heads_iff`: when the heads still agree after `push_block`.
-/

namespace VizCore.Chain

open VizCore.Lib VizCore.Protocol

/-- The id of the head carries its number. -/
def Db.HeightKnown (db : Db) : Prop := db.dgp.headBlockNumber = db.dgp.headBlockId.num

theorem Db.HeightKnown.of_headMark {db db' : Db} (hdb : db.HeightKnown)
    (h : db'.headMark = db.headMark) : db'.HeightKnown := by
  have hnum : db'.dgp.headBlockNumber = db.dgp.headBlockNumber := congrArg Prod.fst h
  have hid : db'.dgp.headBlockId = db.dgp.headBlockId := congrArg Prod.snd h
  unfold HeightKnown
  rw [hnum, hid]
  exact hdb

theorem Db.HeightKnown.of_block {env : Env} {db : Db} {b : SignedBlock}
    (h : db.headMark = (b.blockNum, Db.blockId env b)) : db.HeightKnown := by
  have hnum : db.dgp.headBlockNumber = b.blockNum := congrArg Prod.fst h
  have hid : db.dgp.headBlockId = Db.blockId env b := congrArg Prod.snd h
  unfold HeightKnown
  rw [hnum, hid]
  rfl

namespace Store

variable {env : Env} {fuel : Nat} {skip : Skip} {b : SignedBlock} {s : Store}

/-! ## What a block does to the store -/

/-- A property that does not depend on what a block changes, up to the head. -/
structure BlockClosed (env : Env) (P : Store → Prop) : Prop where
  moved : ∀ (s : Store) (db : Db), P s → (db.headMark = s.db.headMark ∨
    ∃ b, db.headMark = (b.blockNum, Db.blockId env b)) → P { s with db := db }
  commit : ∀ (s : Store) (num : Nat), P s → P (s.commit num)
  log : ∀ (s : Store) (log : List SignedBlock), P s → P { s with blockLog := log }
  shrink : ∀ (s : Store) (size : Nat), P s → P { s with forkDb := s.forkDb.setMaxSize size }

section BlockClosed

variable {P : Store → Prop}

theorem writeLog_ends (hP : BlockClosed env P) (hs : P s) :
    Ends (fun e => P e.2) P s.writeLog := by
  refine Ends.foldlM _ (fun num t ht => ?_) hs
  refine (lift_ends ht _).bind fun item _ => ?_
  refine Ends.bind (Q := fun _ => True) (lift_ends ht _) fun _ _ => ?_
  exact hP.log t _ ht

theorem readIrreversibleId_closed (hP : BlockClosed env P) (hs : P s) :
    P (s.readIrreversibleId env) := by
  obtain ⟨id, hid⟩ := readIrreversibleId_eq env s
  rw [hid]
  exact hP.moved s _ hs (.inl rfl)

theorem updateLastIrreversibleBlock_closed (hP : BlockClosed env P) (hs : P s) :
    Ends (fun e => P e.2) P (s.updateLastIrreversibleBlock env skip) := by
  unfold updateLastIrreversibleBlock
  refine (lift_ends hs _).bind fun candidate _ => ?_
  have hset : P (if s.db.dgp.lastIrreversibleBlockNum < candidate then
      s.setIrreversible candidate else s) := by
    split
    · exact hP.moved s _ hs (.inl rfl)
    · exact hs
  have hcommit := hP.commit _ (if s.db.dgp.lastIrreversibleBlockNum < candidate then
    s.setIrreversible candidate else s).db.dgp.lastIrreversibleBlockNum hset
  refine Ends.bind (Q := P) ?_ fun t ht => ?_
  · unfold writeLogUnless
    split
    · exact hcommit
    · exact writeLog_ends hP hcommit
  · refine hP.shrink _ _ ?_
    split
    · exact readIrreversibleId_closed hP ht
    · exact ht

theorem advanceIrreversible_ends (hP : BlockClosed env P) (hs : P s) (num : Nat) :
    Ends (fun e => P e.2) P (s.advanceIrreversible env num) := by
  have hset : P (s.setIrreversible num) := hP.moved s _ hs (.inl rfl)
  refine (writeLog_ends hP (hP.commit _ num hset)).bind fun t ht => ?_
  exact hP.shrink _ _ (readIrreversibleId_closed hP ht)

theorem checkBlockPostValidationChain_ends (hP : BlockClosed env P) (hs : P s) :
    Ends (fun e => P e.2) P (s.checkBlockPostValidationChain env) := by
  refine Ends.foldlM _ (fun v t ht => ?_) hs
  unfold checkPostValidation
  split
  · refine (advanceIrreversible_ends hP ht v.blockNum).bind fun t' ht' => ?_
    exact hP.moved t' _ ht' (.inl rfl)
  · exact ht

theorem onDb_settles {x : Run Db} {I : Db → Prop} (hs : P s)
    (h : Traced.Ensures (fun _ => True) x I) (hI : ∀ db, I db → P { s with db := db }) :
    Traced.Settles (fun _ => True) (fun e => P e.2) (s.onDb x) P :=
  (Traced.Settles.of_ensures h).mapBoth (fun _ _ => hs) hI

theorem step_settles (hP : BlockClosed env P) (hs : P s) (st : BlockStep) :
    Traced.Settles (fun _ => True) (fun e => P e.2) (s.step env skip b st) P := by
  refine onDb_settles (I := fun d => d.headMark = s.db.headMark ∨
    ∃ b, d.headMark = (b.blockNum, Db.blockId env b)) hs ?_ fun db hdb => hP.moved s db hs hdb
  refine (Traced.Ensures.report _).bind fun _ _ => .lift fun d hrun => ?_
  by_cases hst : st = .updateGlobalDynamicData
  · subst hst
    exact .inr ⟨b, Db.updateGlobalDynamicData_headMark hrun⟩
  · exact .inl (Db.run_headMark hst hrun)

/-- **A block**, whether it is applied or throws. -/
theorem applyBlock_settles (hP : BlockClosed env P) (hs : P s) :
    Traced.Settles (fun _ => True) (fun e => P e.2) (s.applyBlock env fuel skip b) P := by
  unfold applyBlock
  refine (step_settles hP hs _).bind fun s₁ h₁ => ?_
  have htransactions : Traced.Ensures (fun _ => True)
      (b.transactions.foldlM (Db.applyTransaction env fuel skip) s₁.db)
      fun d => d.headMark = s₁.db.headMark :=
    Traced.Ensures.foldlM (fun d => d.headMark = s₁.db.headMark) _ b.transactions (fun trx _ d hd =>
      Db.applyTransaction_framed (Db.headMark_framed env _) fuel skip trx hd) s₁.db rfl
  refine (onDb_settles h₁ htransactions fun db hdb => hP.moved s₁ db h₁ (.inl hdb)).bind
    fun s₂ h₂ => ?_
  refine (step_settles hP h₂ _).bind fun s₃ h₃ => ?_
  refine (step_settles hP h₃ _).bind fun s₄ h₄ => ?_
  refine (Traced.Settles.lift (updateLastIrreversibleBlock_closed hP h₄)).bind fun s₅ h₅ => ?_
  refine (step_settles hP h₅ _).bind fun s₆ h₆ => ?_
  have hproposals : Traced.Ensures (fun _ => True) (Db.clearExpiredProposals env fuel s₆.db)
      fun d => d.headMark = s₆.db.headMark :=
    Db.clearExpiredProposals_framed (Db.headMark_framed env _) fuel rfl
  refine (onDb_settles h₆ hproposals fun db hdb => hP.moved s₆ db h₆ (.inl hdb)).bind
    fun s₇ h₇ => ?_
  refine (Traced.Settles.foldlM P _ closingSteps (fun st _ t ht => step_settles hP ht st) s₇ h₇).bind
    fun s₈ h₈ => ?_
  refine (Traced.Settles.lift (checkBlockPostValidationChain_ends hP h₈)).bind fun s₉ h₉ => ?_
  exact .pure (hP.moved s₉ _ h₉ (.inl rfl))

end BlockClosed

/-! ## A store that stands upright -/

/-- The pointers of the fork database are in order, and the heights are known. -/
structure Upright (env : Env) (s : Store) : Prop where
  fork : s.forkDb.Wired env
  db : s.db.HeightKnown
  undo : ∀ u ∈ s.undoStack, u.2.HeightKnown

/-- The head of the fork database is `top`, and a caller holds `held`. -/
structure Stands (env : Env) (top : Option ForkItem) (held : List ForkItem) (s : Store) : Prop
    extends Upright env s where
  head : s.forkDb.head = top
  held : s.forkDb.held = held

namespace Stands

variable {top : Option ForkItem} {held : List ForkItem}

theorem blockClosed (env : Env) (top : Option ForkItem) (held : List ForkItem) :
    BlockClosed env (Stands env top held) where
  moved s db hs hdb := by
    have hknown : db.HeightKnown := by
      rcases hdb with hsame | ⟨b, hb⟩
      · exact hs.db.of_headMark hsame
      · exact .of_block hb
    exact ⟨⟨hs.fork, hknown, hs.undo⟩, hs.head, hs.held⟩
  commit s num hs := by
    refine ⟨⟨hs.fork, hs.db, fun u hu => ?_⟩, hs.head, hs.held⟩
    exact hs.undo u (List.mem_filter.1 hu).1
  log s log hs := ⟨⟨hs.fork, hs.db, hs.undo⟩, hs.head, hs.held⟩
  shrink s size hs := by
    have hkept : (s.forkDb.setMaxSize size).head = s.forkDb.head ∧
        (s.forkDb.setMaxSize size).held = s.forkDb.held := by
      unfold ForkDb.setMaxSize
      split
      · exact ⟨rfl, rfl⟩
      · exact ⟨rfl, rfl⟩
    exact ⟨⟨hs.fork.setMaxSize size, hs.db, hs.undo⟩, hkept.1.trans hs.head, hkept.2.trans hs.held⟩

theorem undone (h : Stands env top held s) : Stands env top held s.undo := by
  unfold Store.undo
  split
  · exact h
  · rename_i revision old rest hstack
    refine ⟨⟨h.fork, ?_, fun u hu => ?_⟩, h.head, h.held⟩
    · refine h.undo (revision, old) ?_
      rw [hstack]
      exact List.mem_cons_self
    · refine h.undo u ?_
      rw [hstack]
      exact List.mem_cons_of_mem _ hu

theorem startUndoSession (h : Stands env top held s) :
    Stands env top held s.startUndoSession := by
  refine ⟨⟨h.fork, h.db, fun u hu => ?_⟩, h.head, h.held⟩
  rcases List.mem_cons.1 hu with rfl | hu
  · exact h.db
  · exact h.undo u hu

theorem applyInSession (h : Stands env top held s) :
    Ends (fun e => Stands env top held e.2) (Stands env top held)
      (s.applyInSession env fuel skip b) := by
  have hrun := (@applyBlock_settles env fuel skip b s.startUndoSession (Stands env top held)
    (blockClosed env top held) h.startUndoSession 0).2
  unfold Store.applyInSession
  split
  · rename_i t ht
    exact hrun.of_ok ht
  · rename_i e t ht
    have hthrown : Stands env top held t := hrun.of_error ht
    exact hthrown.undone

end Stands

/-- What can be applied was built on the head. -/
theorem applyInSession_previous {s' : Store} (h : s.applyInSession env fuel skip b = .ok s') :
    s.db.dgp.headBlockId = b.previous := by
  unfold applyInSession at h
  split at h
  · rename_i t ht
    rw [applyBlock_eq] at ht
    obtain ⟨s₁, hopen, -⟩ := Traced.bind_eq_ok ht
    have hcheck := @step_run env skip b s.startUndoSession .openBlock
      (fun _ => s.db.dgp.headBlockId = b.previous) fun _ hrun => (openBlock_checked hrun).1
    exact hcheck 0 (fun _ _ => trivial) s₁ hopen
  · cases h

end Store

namespace Node

variable {env : Env} {fuel : Nat} {skip : Skip} {n : Node} {b : SignedBlock}
  {top : Option ForkItem} {held : List ForkItem}

/-- The heads of the fork database and of the chain are the same block. -/
def HeadsAgree (n : Node) : Prop :=
  n.forkDb.head.map (·.id) = some n.db.dgp.headBlockId

instance (n : Node) : Decidable n.HeadsAgree := inferInstanceAs (Decidable (_ = _))

/-- In the course of `_push_block`: the pending session is closed. -/
structure Poised (env : Env) (top : Option ForkItem) (held : List ForkItem) (n : Node) : Prop where
  closed : n.pendingSession = false
  store : n.toStore.Stands env top held

namespace Poised

/-- The fork database is changed. -/
theorem fork {f : ForkDb} (h : Poised env top held n) (hf : f.Wired env) :
    Poised env f.head f.held { n with forkDb := f } :=
  ⟨h.closed, ⟨⟨hf, h.store.db, h.store.undo⟩, rfl, rfl⟩⟩

theorem lift {α : Type} {r : Result α} (h : Poised env top held n) :
    Ends (fun e => ∃ top held, Poised env top held e.2) (fun a => r = .ok a) (n.lift r) :=
  lift_ends (P := fun m => ∃ top held, Poised env top held m) ⟨top, held, h⟩ r

theorem apply (h : Poised env top held n) :
    Ends (fun e => Poised env top held e.2) (Poised env top held)
      (n.onStore (n.applyInSession env fuel skip b)) := by
  have hrun := @Store.Stands.applyInSession env fuel skip b n.toStore top held h.store
  cases hcase : n.applyInSession env fuel skip b with
  | ok s => exact ⟨h.closed, hrun.of_ok hcase⟩
  | error e => exact ⟨h.closed, hrun.of_error hcase⟩

/-- One block is popped, and with it the head of the fork database. -/
theorem popBlock (h : Poised env top held n) :
    Ends (fun e => ∃ top held, Poised env top held e.2)
      (fun n' => ∃ t p, top = some t ∧ t.num = p.num + 1 ∧ Poised env (some p) held n')
      (n.popBlock env) := by
  unfold Node.popBlock
  rw [resetPendingSession_of_closed h.closed]
  refine h.lift.bind fun head _ => ?_
  refine h.lift.bind fun f hf => ?_
  have hheld : f.held = held := by
    have hsame := h.store.held
    simp only [ForkDb.popBlock, bind_eq_ok, pure_eq_ok] at hf
    obtain ⟨t, -, p, -, rfl⟩ := hf
    exact hsame
  obtain ⟨hwired, t, p, ht, hp, hnum⟩ := h.store.fork.popBlock hf
  refine ⟨t, p, h.store.head.symm.trans ht, hnum, h.closed, ?_⟩
  exact Store.Stands.undone ⟨⟨hwired, h.store.db, h.store.undo⟩, hp, hheld⟩

/-- **Popping** lowers the head of the fork database. -/
theorem popTo (target : BlockId) (k : Nat) (h : Poised env top held n) :
    Ends (fun e => ∃ top held, Poised env top held e.2)
      (fun n' => ∃ top', Poised env top' held n' ∧ n'.db.dgp.headBlockId = target ∧
        ∀ t, top = some t → ∃ p, top' = some p ∧ p.num ≤ t.num ∧
          (n.db.dgp.headBlockId ≠ target → p.num < t.num))
      (Node.popTo env target k n) := by
  induction k generalizing n top with
  | zero => exact ⟨top, held, h⟩
  | succ k ih =>
    unfold Node.popTo
    split
    · refine h.popBlock.bind fun n₁ h₁ => ?_
      obtain ⟨t, p, rfl, hnum, h₁⟩ := h₁
      have hrest := ih h₁
      cases hcase : Node.popTo env target k n₁ with
      | error e => exact hrest.of_error hcase
      | ok n' =>
        obtain ⟨top', hpoised, hhead, hlow⟩ := hrest.of_ok hcase
        refine ⟨top', hpoised, hhead, fun t' ht' => ?_⟩
        cases ht'
        obtain ⟨q, hq, hle, -⟩ := hlow p rfl
        exact ⟨q, hq, by omega, fun _ => by omega⟩
    · rename_i hsame
      exact ⟨top, h, not_not.1 hsame, fun t ht => ⟨t, ht, le_rfl, fun hne => absurd hne hsame⟩⟩

theorem applyBranch (items : List ForkItem) (h : Poised env top held n) :
    Ends (fun e => Poised env top held e.2.1) (Poised env top held)
      (Node.applyBranch env fuel skip items n) := by
  induction items generalizing n with
  | nil => exact h
  | cons item rest ih =>
    have hblock := @apply env fuel skip n item.data top held h
    unfold Node.applyBranch
    split
    · rename_i n' hn'
      exact ih (hblock.of_ok hn')
    · rename_i e n' hn'
      exact hblock.of_error hn'

/-- The old branch comes back from what is held of it. -/
theorem restoreBranch {second failed : List ForkItem} (hsecond : ∀ i ∈ second, i ∈ held)
    (base : BlockId) (h : Poised env top held n) :
    Ends (fun e => ∃ top held, Poised env top held e.2) (fun n' => ∃ top held, Poised env top held n')
      (n.restoreBranch env fuel skip second failed base) := by
  have hwired : (n.forkDb.discard (failed.map (·.id)) second.head?).Wired env := by
    refine h.store.fork.discard fun i hi => ?_
    refine ForkDb.mem_items.2 (.inr (.inr ?_))
    rw [h.store.held]
    exact hsecond i (List.mem_of_mem_head? hi)
  unfold Node.restoreBranch
  refine ((h.fork hwired).popTo base _).bind fun n₁ h₁ => ?_
  obtain ⟨top', h₁, -⟩ := h₁
  have hbranch := @applyBranch env fuel skip n₁ _ _ second.reverse h₁
  split
  · rename_i n₂ hn₂
    exact ⟨_, _, hbranch.of_ok hn₂⟩
  · rename_i e n₂ rest hn₂
    exact ⟨_, _, hbranch.of_error hn₂⟩

/-- **A switch** to a higher block leaves the head of the fork database below that of the chain. -/
theorem switchForks {x : ForkItem} (h : Poised env (some x) held n)
    (hhigh : n.db.dgp.headBlockNumber < x.num) :
    Ends (fun e => ∃ top held, Poised env top held e.2)
      (fun n' => ∃ p held', Poised env (some p) held' n' ∧ p.num < x.num ∧
        n'.db.dgp.headBlockId = x.id)
      (n.switchForks env fuel skip x) := by
  have hx : x ∈ n.forkDb.items := ForkDb.mem_items_of_head h.store.head
  have hxnum : x.num < 2 ^ 32 := by
    rw [(h.store.fork.named x hx).2]
    exact ForkDb.Tree.blockNum_lt x.data
  unfold Node.switchForks
  refine h.lift.bind fun branches hbranches => ?_
  obtain ⟨first, second⟩ := branches
  obtain ⟨halive, ⟨a, ha, hida, hfirst⟩, y, hy, hidy, -, hlow⟩ :=
    h.store.fork.fetchBranchFrom hbranches
  refine h.lift.bind fun last hlast => ?_
  rw [getOrThrow_eq_ok] at hlast
  have hmem : last ∈ second := List.mem_of_getLast? hlast
  -- the branch of the head ends below the head, so that at least one block is popped
  have hne : n.db.dgp.headBlockId ≠ last.data.previous := by
    intro heq
    have hle := hlow last hmem
    have hlastNum := (h.store.fork.named last (halive last (List.mem_append_right _ hmem))).2
    have hnum : last.data.blockNum = (last.data.previous.num + 1) % 2 ^ 32 := rfl
    have hynum := h.store.fork.id_num hy
    have hknown : n.db.dgp.headBlockNumber = n.db.dgp.headBlockId.num := h.store.db
    rw [← heq] at hnum
    rw [hidy] at hynum
    omega
  have hstart : Poised env (some x) (first ++ second)
      { n with forkDb := n.forkDb.hold (first ++ second) } := by
    have hfork := h.fork (h.store.fork.hold halive)
    exact ⟨hfork.closed, ⟨hfork.store.toUpright, h.store.head, rfl⟩⟩
  refine (hstart.popTo last.data.previous _).bind fun n₁ h₁ => ?_
  obtain ⟨top', h₁, -, hlower⟩ := h₁
  obtain ⟨p, rfl, -, hlt⟩ := hlower x rfl
  have hbranch := @applyBranch env fuel skip n₁ _ _ first.reverse h₁
  split
  · rename_i n₂ hn₂
    refine ⟨p, first ++ second, hbranch.of_ok hn₂, hlt hne, ?_⟩
    obtain ⟨olds, htrail⟩ := Node.applyBranch_trail first.reverse Trail.nil hn₂
    cases first with
    | nil => cases hfirst
    | cons i first =>
      obtain rfl : i = a := Option.some.inj hfirst
      rw [List.nil_append, List.reverse_cons, List.map_append] at htrail
      have hhead : n₂.db.dgp.headBlockId = Db.blockId env i.data :=
        congrArg Prod.snd htrail.headMark
      rw [hhead, ← hida]
      exact (h.store.fork.named i ha).1.symm
  · rename_i e n₂ failed hn₂
    have h₂ : Poised env (some p) (first ++ second) n₂ := hbranch.of_error hn₂
    exact (h₂.restoreBranch (fun i hi => List.mem_append_right _ hi) _).bind fun n₃ h₃ => h₃

theorem release (h : Poised env top held n) :
    Poised env top [] { n with forkDb := n.forkDb.hold [] } := by
  have hfork := h.fork (h.store.fork.hold fun i hi => absurd hi List.not_mem_nil)
  exact ⟨hfork.closed, ⟨hfork.store.toUpright, h.store.head, rfl⟩⟩

/-- A block that is appended was built on the head, and is the head afterwards. -/
theorem appendBlock (h : Poised env top held n) :
    Ends (fun e => ∃ top held, Poised env top held e.2)
      (fun n' => Poised env top held n' ∧ n.db.dgp.headBlockId = b.previous ∧
        n'.db.dgp.headBlockId = Db.blockId env b)
      (n.appendBlock env fuel skip b) := by
  have hblock := @apply env fuel skip n b top held h
  unfold Node.appendBlock
  split
  · rename_i n' hn'
    refine ⟨hblock.of_ok hn', ?_⟩
    cases hcase : n.applyInSession env fuel skip b with
    | error e =>
      rw [hcase] at hn'
      cases hn'
    | ok s =>
      rw [hcase] at hn'
      cases hn'
      exact ⟨Store.applyInSession_previous hcase,
        congrArg Prod.snd (Store.applyInSession_headMark hcase)⟩
  · rename_i e n' hn'
    have hthrown : Poised env top held n' := hblock.of_error hn'
    exact ⟨_, _, hthrown.fork (hthrown.store.fork.discard fun i hi => nomatch hi)⟩

end Poised

/-- The block extends the head, or is not higher than it. -/
def Stays (skip : Skip) (n : Node) (b : SignedBlock) : Prop :=
  skip.forkDb = false ∧
    (b.previous = n.db.dgp.headBlockId ∨ b.blockNum ≤ n.db.dgp.headBlockNumber)

/-- The heads agree, and after a switch they are the pushed block. -/
def HeadsFollow (env : Env) (b : SignedBlock) (r : Node × Bool) : Prop :=
  r.1.HeadsAgree ∧ (r.2 = true → r.1.db.dgp.headBlockId = Db.blockId env b)

theorem blockNum_ne (b : SignedBlock) : b.blockNum ≠ b.previous.num := by
  have hnum : b.blockNum = (b.previous.num + 1) % 2 ^ 32 := rfl
  omega

/-- **What `_push_block` does to the two heads.** -/
theorem pushBlockCore_poised (h : Poised env top held n) :
    Ends (fun e => ∃ top held, Poised env top held e.2)
      (fun r => (∃ top held, Poised env top held r.1) ∧
        (n.HeadsAgree → (HeadsFollow env b r ↔ n.Stays skip b)))
      (n.pushBlockCore env fuel skip b) := by
  unfold pushBlockCore
  split
  · rename_i hskip
    refine h.appendBlock.bind fun n' hn' => ?_
    obtain ⟨hpoised, hprevious, hhead⟩ := hn'
    refine ⟨⟨_, _, hpoised⟩, fun hagree => ?_⟩
    constructor
    · intro hfollow
      have hagree' : n'.forkDb.head.map (·.id) = some n'.db.dgp.headBlockId := hfollow.1
      unfold HeadsAgree at hagree
      rw [hpoised.store.head, ← h.store.head, hagree, hhead, hprevious] at hagree'
      have hnum := congrArg BlockId.num (Option.some.inj hagree')
      exact absurd hnum.symm (blockNum_ne b)
    · intro hstays
      rw [hstays.1] at hskip
      cases hskip
  · rename_i hskip
    have hplain : skip.forkDb = false := Bool.not_eq_true _ ▸ hskip
    refine h.lift.bind fun f hf => ?_
    obtain ⟨hwired, x, hxid, hxnum, hxdata, hx⟩ := h.store.fork.pushBlock hf
    have hpushed := h.fork hwired
    refine hpushed.lift.bind fun newHead hnewHead => ?_
    rw [getOrThrow_eq_ok] at hnewHead
    have hname := hwired.named newHead (ForkDb.mem_items_of_head hnewHead)
    have hknown : n.db.dgp.headBlockNumber = n.db.dgp.headBlockId.num := h.store.db
    -- where the heads agree, the new head is the pushed block if this is higher
    have hchoice : n.HeadsAgree → 0 < b.blockNum ∧
        ((newHead = x ∧ n.db.dgp.headBlockNumber < b.blockNum) ∨
          newHead.id = n.db.dgp.headBlockId ∧ b.blockNum ≤ n.db.dgp.headBlockNumber) := by
      intro hagree
      obtain ⟨t, ht, hid⟩ := Option.map_eq_some_iff.1 hagree
      obtain ⟨hpositive, hhead⟩ := hx t ht
      have htnum := h.store.fork.id_num (ForkDb.mem_items_of_head ht)
      rw [hid, ← hknown] at htnum
      rw [hnewHead, Option.some.injEq] at hhead
      refine ⟨hpositive, ?_⟩
      split at hhead
      · exact .inl ⟨hhead, by omega⟩
      · exact .inr ⟨by rw [hhead, hid], by omega⟩
    split
    · rename_i hextends
      refine hpushed.appendBlock.bind fun n' hn' => ?_
      obtain ⟨hpoised, hprevious, hhead⟩ := hn'
      refine ⟨⟨_, _, hpoised⟩, fun hagree => ?_⟩
      have hbase : n.db.dgp.headBlockId = b.previous := hprevious
      have hstays : n.Stays skip b := ⟨hplain, .inl hbase.symm⟩
      refine ⟨fun _ => hstays, fun _ => ⟨?_, fun hswitched => nomatch hswitched⟩⟩
      obtain ⟨hpositive, ⟨hsame, -⟩ | ⟨hsame, hlow⟩⟩ := hchoice hagree
      · show n'.forkDb.head.map (·.id) = some n'.db.dgp.headBlockId
        rw [hpoised.store.head, hnewHead, hhead, hsame, ← hxid]
        rfl
      · have hnum : b.blockNum = (b.previous.num + 1) % 2 ^ 32 := rfl
        have hbound := ForkDb.Tree.blockNum_lt newHead.data
        have hnewNum := hwired.id_num (ForkDb.mem_items_of_head hnewHead)
        rw [← hbase] at hnum
        rw [hsame, hname.2] at hnewNum
        omega
    · rename_i hother
      split
      · rename_i hhigh
        have htop : Poised env (some newHead) f.held { n with forkDb := f } :=
          ⟨hpushed.closed, ⟨hpushed.store.toUpright, hnewHead, rfl⟩⟩
        have hswitch := @Poised.switchForks env fuel skip { n with forkDb := f } f.held newHead htop
          (by rw [hname.2]; exact hhigh)
        refine Ends.bind (Q := fun n' : Node => ∃ p held', Poised env (some p) held' n' ∧
          p.num < newHead.num ∧ n'.db.dgp.headBlockId = newHead.id) ?_ fun n' hn' => ?_
        · unfold releasing
          split
          · rename_i n' hn'
            obtain ⟨p, held', hp, hlow, hid⟩ := hswitch.of_ok hn'
            exact ⟨p, [], hp.release, hlow, hid⟩
          · rename_i e n' hn'
            obtain ⟨t, held', ht⟩ := hswitch.of_error hn'
            exact ⟨t, [], Poised.release ht⟩
        · obtain ⟨p, held', hp, hlow, hid⟩ := hn'
          refine ⟨⟨_, _, hp⟩, fun hagree => ?_⟩
          constructor
          · intro hfollow
            have hagree' : n'.forkDb.head.map (·.id) = some n'.db.dgp.headBlockId := hfollow.1
            rw [hp.store.head, hid] at hagree'
            have hpnum := hp.store.fork.id_num (ForkDb.mem_items_of_head hp.store.head)
            have hnum := hwired.id_num (ForkDb.mem_items_of_head hnewHead)
            have hpid : p.id = newHead.id := Option.some.inj hagree'
            rw [hpid] at hpnum
            omega
          · intro hstays
            obtain ⟨-, ⟨hsame, hbelow⟩ | ⟨hsame, -⟩⟩ := hchoice hagree
            · rcases hstays.2 with hextends | hlow
              · refine absurd ?_ hother
                rw [hsame, hxdata]
                exact hextends
              · omega
            · have hnum := hwired.id_num (ForkDb.mem_items_of_head hnewHead)
              rw [hsame] at hnum
              have hhigh' : n.db.dgp.headBlockNumber < newHead.data.blockNum := hhigh
              omega
      · rename_i hlow
        refine ⟨⟨_, _, hpushed⟩, fun hagree => ?_⟩
        have hlow' : ¬ n.db.dgp.headBlockNumber < newHead.data.blockNum := hlow
        obtain ⟨-, ⟨hsame, hbelow⟩ | ⟨hsame, hle⟩⟩ := hchoice hagree
        · rw [hsame, hxdata] at hlow'
          exact absurd hbelow hlow'
        · have hstays : n.Stays skip b := ⟨hplain, .inr hle⟩
          refine ⟨fun _ => hstays, fun _ => ⟨?_, fun hswitched => nomatch hswitched⟩⟩
          show f.head.map (·.id) = some n.db.dgp.headBlockId
          rw [hnewHead, ← hsame]
          rfl

/-! ## Calls -/

variable {base : Store} {l : List SignedTransaction}

theorem Reapplied.headMark {db d : Db} (h : Reapplied env fuel db l d) :
    d.headMark = db.headMark := by
  induction h with
  | nil => rfl
  | @snoc l d d' trx producing clock skip h run ih =>
    have hframe := Db.applyTransaction_framed
      (Db.headMark_framed { env with producing := producing, clock := clock } db.headMark) fuel skip
      trx ih
    exact hframe 0 (fun _ _ => trivial) d' run

/-- Pending transactions move no head. -/
theorem Over.heads (h : Over env fuel base l n) :
    n.forkDb = base.forkDb ∧ n.db.headMark = base.db.headMark := by
  have hmark := h.reapplied.headMark
  cases hsession : n.pendingSession with
  | false => exact ⟨congrArg Store.forkDb (h.closed hsession).1, hmark⟩
  | true =>
    have hfork : n.forkDb = base.forkDb := by
      rw [(h.opened hsession).1]
      rfl
    exact ⟨hfork, hmark⟩

theorem heads_congr {m : Node} (hfork : n.forkDb = m.forkDb)
    (hmark : n.db.headMark = m.db.headMark) :
    (n.HeadsAgree ↔ m.HeadsAgree) ∧ (n.Stays skip b ↔ m.Stays skip b) ∧
      ∀ switched, HeadsFollow env b (n, switched) ↔ HeadsFollow env b (m, switched) := by
  have hid : n.db.dgp.headBlockId = m.db.dgp.headBlockId := congrArg Prod.snd hmark
  have hnum : n.db.dgp.headBlockNumber = m.db.dgp.headBlockNumber := congrArg Prod.fst hmark
  unfold HeadsFollow HeadsAgree Stays
  dsimp only
  rw [hfork, hid, hnum]
  exact ⟨Iff.rfl, Iff.rfl, fun _ => Iff.rfl⟩

/-- Below the pending transactions is a store that stands upright. -/
def Standing (env : Env) (fuel : Nat) (n : Node) : Prop :=
  ∃ base l, Over env fuel base l n ∧ base.Upright env

theorem standing_of_closed (hclosed : n.pendingSession = false) (h : n.toStore.Upright env) :
    n.Standing env fuel :=
  ⟨n.toStore, [], .of_closed hclosed, h⟩

theorem Poised.standing (h : Poised env top held n) : n.Standing env fuel :=
  standing_of_closed h.closed h.store.toUpright

/-- The transactions are restored over the new head. -/
theorem restorePending_over {budget : Nat} {pending : List SignedTransaction}
    (hclosed : n.pendingSession = false) (htx : n.pendingTx = []) :
    ∃ l, Over env fuel n.toStore l (n.restorePending env fuel skip budget pending) := by
  obtain ⟨fates, -, hrestored⟩ := @restoreAll_restored env fuel skip n n.toStore []
    ((n.poppedTx ++ pending).take budget) (.of_closed hclosed) htx
  exact ⟨_, hrestored.session.closed, hrestored.session.opened⟩

/-- **What `push_block` does to the two heads**, and what it leaves behind when it throws. -/
theorem pushBlock_standing {budget : Nat} (h : n.Standing env fuel) :
    (left (n.pushBlock env fuel skip budget b)).Standing env fuel ∧
      ∀ n' switched, n.pushBlock env fuel skip budget b = .ok (n', switched) → n.HeadsAgree →
        (HeadsFollow env b (n', switched) ↔ n.Stays skip b) := by
  obtain ⟨base, l, hover, hbase⟩ := h
  have hreset : n.clearPending.toStore = base := hover.reset
  have hpoised : Poised env base.forkDb.head base.forkDb.held n.clearPending := by
    refine ⟨n.clearPending_closed, ?_⟩
    rw [hreset]
    exact ⟨hbase, rfl, rfl⟩
  have hcore := @pushBlockCore_poised env fuel skip n.clearPending b _ _ hpoised
  obtain ⟨hclosed, htx⟩ := @pushed_closed env fuel skip n b
  rw [left_pushBlock]
  obtain ⟨l', hrestored⟩ := @restorePending_over env fuel skip (n.pushed env fuel skip b) budget
    n.pendingTx hclosed htx
  obtain ⟨hfork, hmark⟩ := hrestored.heads
  cases hrun : n.clearPending.pushBlockCore env fuel skip b with
  | error e =>
    obtain ⟨t, held, ht⟩ := hcore.of_error hrun
    have hpushed : n.pushed env fuel skip b = e.2 := by
      unfold pushed
      rw [hrun]
      rfl
    refine ⟨⟨_, l', hrestored, ?_⟩, fun n' switched hok => ?_⟩
    · rw [hpushed]
      exact ht.store.toUpright
    · unfold pushBlock at hok
      rw [hrun] at hok
      cases hok
  | ok r =>
    obtain ⟨⟨t, held, ht⟩, hfollow⟩ := hcore.of_ok hrun
    have hpushed : n.pushed env fuel skip b = r.1 := by
      unfold pushed
      rw [hrun]
      rfl
    refine ⟨⟨_, l', hrestored, ?_⟩, fun n' switched hok hagree => ?_⟩
    · rw [hpushed]
      exact ht.store.toUpright
    · rw [hpushed] at hfork hmark
      unfold pushBlock at hok
      rw [hrun] at hok
      cases hok
      obtain ⟨hbaseFork, hbaseMark⟩ := hover.heads
      have hforkBefore : n.clearPending.forkDb = n.forkDb := by
        rw [hbaseFork]
        exact congrArg Store.forkDb hreset
      have hmarkBefore : n.clearPending.db.headMark = n.db.headMark := by
        rw [hbaseMark]
        exact congrArg (fun s : Store => s.db.headMark) hreset
      obtain ⟨hagreeBefore, hstaysBefore, -⟩ :=
        @heads_congr env skip n.clearPending b n hforkBefore hmarkBefore
      obtain ⟨-, -, hfollowAfter⟩ := @heads_congr env skip _ b r.1 hfork hmark
      exact (hfollowAfter r.2).trans ((hfollow (hagreeBefore.2 hagree)).trans hstaysBefore)

theorem pushTransaction_standing {trx : SignedTransaction} (h : n.Standing env fuel) :
    Ends (fun e => Standing env fuel e.2) (Standing env fuel)
      (n.pushTransaction env fuel skip trx) := by
  unfold pushTransaction
  refine (lift_ends (P := Standing env fuel) h _).bind fun _ _ => ?_
  obtain ⟨base, l, hover, hbase⟩ := h
  rcases @Over.pushTransactionCore env fuel skip n base l trx true env.clock hover with
    ⟨n', hrun, hover', -⟩ | ⟨e, n', d, hrun, hover', -⟩
  · have hrun' : n.pushTransactionCore { env with producing := true } fuel skip trx = .ok n' := hrun
    rw [hrun']
    exact ⟨base, _, hover', hbase⟩
  · have hrun' : n.pushTransactionCore { env with producing := true } fuel skip trx =
      .error (e, n') := hrun
    rw [hrun']
    exact ⟨base, _, hover', hbase⟩

theorem generateBlock_standing {budget headerSize : Nat} {time : TimePointSec}
    {witnessOwner : AccountName} {key : SigningKey} (h : n.Standing env fuel) :
    (left (n.generateBlock env fuel skip budget headerSize time witnessOwner key)).Standing env
      fuel := by
  have hcollected : (n.collectPending env fuel skip time headerSize).1.Standing env fuel := by
    obtain ⟨base, l, hover, hbase⟩ := h
    obtain ⟨hstore, hclosed, -⟩ :=
      @collectPending_closed env fuel skip n base l time headerSize hover
    refine standing_of_closed hclosed ?_
    rw [hstore]
    exact hbase
  have hassemble : Ends (fun e => Standing env fuel e.2) (fun r => Standing env fuel r.1)
      (n.assembleBlock env fuel skip headerSize time witnessOwner key) := by
    unfold assembleBlock
    refine (lift_ends (P := Standing env fuel) h _).bind fun _ _ => ?_
    refine (lift_ends (P := Standing env fuel) h _).bind fun _ _ => ?_
    refine (lift_ends (P := Standing env fuel) h _).bind fun _ _ => ?_
    refine (lift_ends (P := Standing env fuel) h _).bind fun _ _ => ?_
    exact (lift_ends (P := Standing env fuel) hcollected _).bind fun _ _ => hcollected
  have hall : Ends (fun e => Standing env fuel e.2) (fun r => Standing env fuel r.1)
      (n.generateBlock env fuel skip budget headerSize time witnessOwner key) := by
    unfold generateBlock
    refine hassemble.bind fun r hr => ?_
    refine (lift_ends (P := Standing env fuel) hr _).bind fun _ _ => ?_
    have hpush := (@pushBlock_standing env fuel skip r.1 r.2 budget hr).1
    refine Ends.bind (Q := fun p : Node × Bool => p.1.Standing env fuel) ?_ fun p hp => hp
    cases hrun : r.1.pushBlock env fuel skip budget r.2 with
    | ok p =>
      rw [hrun] at hpush
      exact hpush
    | error e =>
      rw [hrun] at hpush
      exact hpush
  cases hrun : n.generateBlock env fuel skip budget headerSize time witnessOwner key with
  | ok r => exact hall.of_ok hrun
  | error e => exact hall.of_error hrun

theorem Standing.of_clock {clock : Nat → TimePointSec}
    (h : n.Standing { env with clock := clock } fuel) : n.Standing env fuel := by
  obtain ⟨base, l, hover, hbase⟩ := h
  refine ⟨base, l, hover.of_clock, ⟨⟨?_, ?_, ?_, ?_⟩, hbase.db, hbase.undo⟩⟩
  · exact hbase.fork.addrs
  · exact hbase.fork.fresh
  · exact hbase.fork.named
  · exact hbase.fork.prev

end Node

/-- **One call.** -/
theorem Call.runAt_standing {env : Env} {fuel : Nat} {n : Node} (h : n.Standing env fuel)
    (c : (Nat → TimePointSec) × Call) : (Call.runAt env fuel n c).Standing env fuel := by
  obtain ⟨clock, c⟩ := c
  have hstart : n.Standing { env with clock := clock } fuel :=
    @Node.Standing.of_clock { env with clock := clock } fuel n env.clock h
  refine @Node.Standing.of_clock env fuel _ clock ?_
  show (c.run { env with clock := clock } fuel n).Standing _ fuel
  cases c with
  | pushTransaction skip trx =>
    have hrun := @Node.pushTransaction_standing _ fuel skip n trx hstart
    show (Node.left ((fun m => (m, ())) <$> n.pushTransaction _ fuel skip trx)).Standing _ fuel
    cases hcase : n.pushTransaction { env with clock := clock } fuel skip trx with
    | ok m => exact hrun.of_ok hcase
    | error e => exact hrun.of_error hcase
  | pushBlock skip budget b => exact (Node.pushBlock_standing hstart).1
  | generateBlock skip budget headerSize time witnessOwner key =>
    exact Node.generateBlock_standing hstart

theorem Call.runAll_standing {env : Env} {fuel : Nat} {n : Node} (h : n.Standing env fuel)
    (calls : List ((Nat → TimePointSec) × Call)) : (Call.runAll env fuel n calls).Standing env fuel := by
  induction calls generalizing n with
  | nil => exact h
  | cons c calls ih => exact ih (Call.runAt_standing h c)

/-- **The two heads** in a run of calls.  Where they agree and `push_block` returns, they agree
again and are the pushed block after a switch, if and only if the block extends the head or is not
higher than it. -/
theorem pushBlock_heads_iff (env : Env) (fuel : Nat) (start n n' : Node)
    (hclosed : start.pendingSession = false) (hstart : start.toStore.Upright env)
    (calls : List ((Nat → TimePointSec) × Call)) (hn : Call.runAll env fuel start calls = n)
    (clock : Nat → TimePointSec) (skip : Skip) (budget : Nat) (b : SignedBlock) (switched : Bool)
    (hagree : n.HeadsAgree)
    (hrun : n.pushBlock { env with clock := clock } fuel skip budget b = .ok (n', switched)) :
    (n'.HeadsAgree ∧ (switched = true → n'.db.dgp.headBlockId = Db.blockId env b)) ↔
      skip.forkDb = false ∧
        (b.previous = n.db.dgp.headBlockId ∨ b.blockNum ≤ n.db.dgp.headBlockNumber) := by
  have hstanding : n.Standing env fuel := by
    rw [← hn]
    exact Call.runAll_standing (Node.standing_of_closed hclosed hstart) calls
  have hstart' : n.Standing { env with clock := clock } fuel :=
    @Node.Standing.of_clock { env with clock := clock } fuel n env.clock hstanding
  exact (Node.pushBlock_standing hstart').2 n' switched hrun hagree

theorem rootNode_upright : rootNode.toStore.Upright smallEnv :=
  ⟨(ForkDb.Wired.empty smallEnv).startBlock rootBlock, rfl, fun _ hu => nomatch hu⟩

theorem pushBlock_heads_append : ∃ n',
    rootNode.pushBlock smallEnv 3 { merkleCheck := true } 0 emptyBlock = .ok (n', false) ∧
      n'.HeadsAgree := by
  have hrun : returns (rootNode.pushBlock smallEnv 3 { merkleCheck := true } 0 emptyBlock)
      (fun r => !r.2) = true := by decide +kernel
  obtain ⟨⟨n', switched⟩, hn', hfalse⟩ := returns_eq_true hrun
  simp only [Bool.not_eq_true'] at hfalse
  subst hfalse
  have hiff := pushBlock_heads_iff smallEnv 3 rootNode rootNode n' rfl rootNode_upright [] rfl
    smallEnv.clock { merkleCheck := true } 0 emptyBlock false rfl hn'
  exact ⟨n', hn', (hiff.2 ⟨rfl, .inl rfl⟩).1⟩

/-- Another block after the head block of the small node. -/
def rivalBlock : SignedBlock := { emptyBlock with timestamp := 36 }

/-- The block after the rival one. -/
def rivalChild : SignedBlock :=
  { emptyBlock with previous := ⟨11, 36⟩, timestamp := 39 }

/-- After two blocks on top of the head block the second one gets a child, and the node switches to
it: the head of the fork database is the second block. -/
theorem switch_parts_heads :
    (Call.runAll smallEnv 3 rootNode [(fun _ => 33, .pushBlock { merkleCheck := true } 0 emptyBlock),
      (fun _ => 36, .pushBlock { merkleCheck := true } 0 rivalBlock)]).HeadsAgree ∧
    ∃ n', (Call.runAll smallEnv 3 rootNode
      [(fun _ => 33, .pushBlock { merkleCheck := true } 0 emptyBlock),
        (fun _ => 36, .pushBlock { merkleCheck := true } 0 rivalBlock)]).pushBlock smallEnv 3
      { merkleCheck := true } 0 rivalChild = .ok (n', true) ∧ ¬ n'.HeadsAgree := by
  refine ⟨by decide +kernel, ?_⟩
  have hrun : returns ((Call.runAll smallEnv 3 rootNode
      [(fun _ => 33, .pushBlock { merkleCheck := true } 0 emptyBlock),
        (fun _ => 36, .pushBlock { merkleCheck := true } 0 rivalBlock)]).pushBlock smallEnv 3
      { merkleCheck := true } 0 rivalChild) (fun r => r.2 && !decide r.1.HeadsAgree) = true := by
    decide +kernel
  obtain ⟨⟨n', switched⟩, hn', htest⟩ := returns_eq_true hrun
  simp only [Bool.and_eq_true, Bool.not_eq_true', decide_eq_false_iff_not] at htest
  obtain ⟨rfl, hparts⟩ := htest
  exact ⟨n', hn', hparts⟩

end VizCore.Chain
