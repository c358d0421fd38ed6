import VizCore.Lib.Walk
import VizCore.Chain.Push

/-!
# The tree of blocks in the fork database

Which uses of the fork database keep it a tree.

* `Tree`: what is kept, with the addresses of the items;
* `ForkOp.run_tree`: the uses that keep it;
* `fetchBranchFrom_eq_ok`: in a tree the branches of two blocks with a common ancestor are found;
* `fork_tree`: runs of such uses.
-/

namespace VizCore.Chain

open VizCore.Lib VizCore.Protocol

namespace ForkDb

variable {env : Env} {f : ForkDb} {i p : ForkItem}

/-- The item is above the lowest kept height. -/
def AboveLowest (f : ForkDb) (i : ForkItem) : Prop := ∃ j ∈ f.index, j.num < i.num

/-- Every item above the lowest kept height is linked to its previous block, and the head is in
the index. -/
structure Linked (f : ForkDb) : Prop where
  prev : ∀ i ∈ f.index, f.AboveLowest i →
    ∃ p ∈ f.index, f.lock i = some p ∧ p.id = i.data.previous ∧ i.num = p.num + 1
  head : ∀ h, f.head = some h → h ∈ f.index

/-- The items that are alive. -/
def items (f : ForkDb) : List ForkItem := f.index ++ f.head.toList ++ f.held

structure Tree (env : Env) (f : ForkDb) : Prop where
  ids : ∀ i ∈ f.index, ∀ j ∈ f.index, i.id = j.id → i = j
  addrs : ∀ i ∈ f.items, ∀ j ∈ f.items, i.addr = j.addr → i = j
  fresh : ∀ i ∈ f.items, i.addr < f.nextAddr
  named : ∀ i ∈ f.index, i.id = Db.blockId env i.data ∧ i.num = i.data.blockNum
  prev : ∀ i ∈ f.index, f.AboveLowest i → ∃ p ∈ f.index,
    i.prev = some p.addr ∧ p.addr < i.addr ∧ p.id = i.data.previous ∧ i.num = p.num + 1
  head : ∀ h, f.head = some h → h ∈ f.index
  start : f.head = none → f.index = []

theorem mem_items : i ∈ f.items ↔ i ∈ f.index ∨ f.head = some i ∨ i ∈ f.held := by
  unfold items
  rw [List.mem_append, List.mem_append, Option.mem_toList, or_assoc]

namespace Tree

theorem empty (env : Env) : Tree env {} where
  ids _ hi := absurd hi List.not_mem_nil
  addrs _ hi := absurd hi List.not_mem_nil
  fresh _ hi := absurd hi List.not_mem_nil
  named _ hi := absurd hi List.not_mem_nil
  prev _ hi := absurd hi List.not_mem_nil
  head _ hh := nomatch hh
  start _ := rfl

/-- The pointer to an item in the index leads to this item. -/
theorem lock_eq (hf : Tree env f) (hp : p ∈ f.index) (hprev : i.prev = some p.addr) :
    f.lock i = some p := by
  unfold lock
  rw [hprev]
  show f.items.find? (fun j => decide (j.addr = p.addr)) = some p
  have hmem : p ∈ f.items := mem_items.2 (.inl hp)
  cases hfind : f.items.find? (fun j => decide (j.addr = p.addr)) with
  | none => exact absurd (decide_eq_true rfl) (List.find?_eq_none.1 hfind p hmem)
  | some q =>
    have hfound := List.find?_some hfind
    have haddr : q.addr = p.addr := of_decide_eq_true hfound
    rw [hf.addrs q (List.mem_of_find?_eq_some hfind) p hmem haddr]

theorem linked (hf : Tree env f) : f.Linked where
  head := hf.head
  prev i hi habove := by
    obtain ⟨p, hp, hprev, -, hid, hnum⟩ := hf.prev i hi habove
    exact ⟨p, hp, hf.lock_eq hp hprev, hid, hnum⟩

/-- A smaller index, as long as no kept item loses its parent. -/
theorem shrink {g : ForkDb} (hf : Tree env f) (hnext : g.nextAddr = f.nextAddr)
    (hindex : ∀ i ∈ g.index, i ∈ f.index) (hheld : ∀ i ∈ g.held, i ∈ f.items)
    (hhead : ∀ h, g.head = some h → h ∈ g.index) (hstart : g.head = none → g.index = [])
    (hparent : ∀ i ∈ g.index, g.AboveLowest i → ∀ p ∈ f.index, p.id = i.data.previous →
      i.num = p.num + 1 → p ∈ g.index) : Tree env g := by
  have hitems : ∀ i ∈ g.items, i ∈ f.items := by
    intro i hi
    rcases mem_items.1 hi with hi | hi | hi
    · exact mem_items.2 (.inl (hindex i hi))
    · exact mem_items.2 (.inl (hindex i (hhead i hi)))
    · exact hheld i hi
  refine ⟨?_, ?_, ?_, ?_, ?_, hhead, hstart⟩
  · exact fun i hi j hj => hf.ids i (hindex i hi) j (hindex j hj)
  · exact fun i hi j hj => hf.addrs i (hitems i hi) j (hitems j hj)
  · intro i hi
    rw [hnext]
    exact hf.fresh i (hitems i hi)
  · exact fun i hi => hf.named i (hindex i hi)
  · intro i hi habove
    have habove' : f.AboveLowest i := by
      obtain ⟨j, hj, hlt⟩ := habove
      exact ⟨j, hindex j hj, hlt⟩
    obtain ⟨p, hp, hprev, haddr, hid, hnum⟩ := hf.prev i (hindex i hi) habove'
    exact ⟨p, hparent i hi habove p hp hid hnum, hprev, haddr, hid, hnum⟩

theorem setHead (hf : Tree env f) (hi : i ∈ f.index) : Tree env (f.setHead i) := by
  refine hf.shrink rfl (fun _ h => h) (fun j hj => mem_items.2 (.inr (.inr hj))) ?_ ?_
    (fun _ _ _ _ hp _ _ => hp)
  · intro h hh
    cases hh
    exact hi
  · intro hnone
    cases hnone

theorem hold {l : List ForkItem} (hf : Tree env f) (hl : ∀ i ∈ l, i ∈ f.index) :
    Tree env (f.hold l) :=
  hf.shrink rfl (fun _ h => h) (fun j hj => mem_items.2 (.inl (hl j hj))) hf.head hf.start
    (fun _ _ _ _ hp _ _ => hp)

theorem popBlock {g : ForkDb} (hf : Tree env f)
    (hheld : f.held = [] ∨ ∀ h, f.head = some h → f.AboveLowest h) (h : f.popBlock = .ok g) :
    Tree env g := by
  simp only [ForkDb.popBlock, bind_eq_ok, getOrThrow_eq_ok, pure_eq_ok] at h
  obtain ⟨top, htop, p, hp, rfl⟩ := h
  have hindex : p ∈ f.index := by
    rcases hheld with hheld | habove
    · have hmem : p ∈ f.items := by
        unfold lock at hp
        obtain ⟨addr, -, hfind⟩ := Option.bind_eq_some_iff.1 hp
        exact List.mem_of_find?_eq_some hfind
      rcases mem_items.1 hmem with hmem | hmem | hmem
      · exact hmem
      · exact hf.head p hmem
      · rw [hheld] at hmem
        exact absurd hmem List.not_mem_nil
    · obtain ⟨q, hq, hlock, -⟩ := hf.linked.prev top (hf.head top htop) (habove top htop)
      rw [hlock] at hp
      cases hp
      exact hq
  exact hf.setHead hindex

theorem setMaxSize (hf : Tree env f) (size : Nat) : Tree env (f.setMaxSize size) := by
  unfold ForkDb.setMaxSize
  split
  · exact hf.shrink rfl (fun _ h => h) (fun j hj => mem_items.2 (.inr (.inr hj))) hf.head hf.start
      (fun _ _ _ _ hp _ _ => hp)
  · rename_i top htop
    refine hf.shrink rfl (fun i hi => (List.mem_filter.1 hi).1)
      (fun j hj => mem_items.2 (.inr (.inr hj))) ?_ ?_ ?_
    · intro h hh
      have hsame : top = h := Option.some.inj (htop.symm.trans hh)
      subst hsame
      refine List.mem_filter.2 ⟨hf.head top htop, decide_eq_true ?_⟩
      omega
    · intro hnone
      exact nomatch htop.symm.trans hnone
    · intro i hi habove p hp hid hnum
      obtain ⟨j, hj, hlt⟩ := habove
      have hkept := of_decide_eq_true (List.mem_filter.1 hj).2
      refine List.mem_filter.2 ⟨hp, decide_eq_true ?_⟩
      omega

theorem foldl_remove (ids : List BlockId) (f : ForkDb) :
    ids.foldl remove f = { f with index := f.index.filter fun i => i.id ∉ ids } := by
  induction ids generalizing f with
  | nil => simp
  | cons id ids ih =>
    rw [List.foldl_cons, ih]
    unfold remove
    simp only [List.filter_filter, List.mem_cons, not_or, Bool.decide_and, ne_eq, Bool.and_comm]

/-- Failed blocks may go as long as no kept block builds on them and the head is kept. -/
theorem discard {ids : List BlockId} {head : Option ForkItem} (hf : Tree env f)
    (hhead : ∀ h, head.or f.head = some h → h ∈ f.index ∧ h.id ∉ ids)
    (hparent : ∀ i ∈ f.index, i.id ∉ ids → i.data.previous ∉ ids) :
    Tree env (f.discard ids head) := by
  have hdiscard : f.discard ids head =
      { f with index := f.index.filter (fun i => i.id ∉ ids), head := head.or f.head } := by
    unfold ForkDb.discard
    rw [foldl_remove]
    cases head with
    | none => rfl
    | some h => rfl
  rw [hdiscard]
  refine hf.shrink rfl (fun i hi => (List.mem_filter.1 hi).1)
    (fun j hj => mem_items.2 (.inr (.inr hj))) ?_ ?_ ?_
  · intro h hh
    obtain ⟨hmem, hkept⟩ := hhead h hh
    exact List.mem_filter.2 ⟨hmem, decide_eq_true hkept⟩
  · intro hnone
    have hold : f.head = none := (Option.or_eq_none_iff.1 hnone).2
    show f.index.filter _ = []
    rw [hf.start hold]
    rfl
  · intro i hi _ p hp hid _
    obtain ⟨hmem, hkept⟩ := List.mem_filter.1 hi
    refine List.mem_filter.2 ⟨hp, decide_eq_true ?_⟩
    rw [hid]
    exact hparent i hmem (of_decide_eq_true hkept)

/-- A new item has a parent in the index, or it is at the lowest height. -/
def Rooted (f : ForkDb) (x : ForkItem) : Prop :=
  (∃ p ∈ f.index, x.prev = some p.addr ∧ p.id = x.data.previous ∧ x.num = p.num + 1) ∨
    ¬ f.AboveLowest x ∧ ∀ i ∈ f.index, x.num < i.num → f.AboveLowest i

theorem extend {x : ForkItem} {head : Option ForkItem} (hf : Tree env f)
    (haddr : x.addr = f.nextAddr) (hid : f.fetchBlock x.id = none)
    (hnamed : x.id = Db.blockId env x.data ∧ x.num = x.data.blockNum) (hroot : Rooted f x)
    (hhead : head = some x ∨ head = f.head ∧ f.head ≠ none) :
    Tree env { f with nextAddr := f.nextAddr + 1, index := f.index ++ [x], head := head } := by
  have hnew : ∀ i ∈ f.index, i.id ≠ x.id := fun i hi h =>
    List.find?_eq_none.1 hid i hi (decide_eq_true h)
  generalize hg : ({ f with nextAddr := f.nextAddr + 1, index := f.index ++ [x], head := head } :
    ForkDb) = g
  have hindex : g.index = f.index ++ [x] := by rw [← hg]
  have hmem (i : ForkItem) : i ∈ g.index ↔ i ∈ f.index ∨ i = x := by
    rw [hindex, List.mem_append, List.mem_singleton]
  have hitems : ∀ i ∈ g.items, i ∈ f.items ∨ i = x := by
    intro i hi
    rcases mem_items.1 hi with hi | hi | hi
    · rcases (hmem i).1 hi with hi | hi
      · exact .inl (mem_items.2 (.inl hi))
      · exact .inr hi
    · rw [← hg] at hi
      rcases hhead with hhead | hhead
      · exact .inr (Option.some.inj (hi.symm.trans hhead))
      · exact .inl (mem_items.2 (.inr (.inl (hhead.1.symm.trans hi))))
    · rw [← hg] at hi
      exact .inl (mem_items.2 (.inr (.inr hi)))
  refine ⟨?_, ?_, ?_, ?_, ?_, ?_, ?_⟩
  · intro i hi j hj hij
    rcases (hmem i).1 hi with hi | rfl
    · rcases (hmem j).1 hj with hj | rfl
      · exact hf.ids i hi j hj hij
      · exact absurd hij (hnew i hi)
    · rcases (hmem j).1 hj with hj | rfl
      · exact absurd hij.symm (hnew j hj)
      · rfl
  · intro i hi j hj hij
    rcases hitems i hi with hi | rfl
    · rcases hitems j hj with hj | rfl
      · exact hf.addrs i hi j hj hij
      · have := hf.fresh i hi
        omega
    · rcases hitems j hj with hj | rfl
      · have := hf.fresh j hj
        omega
      · rfl
  · intro i hi
    rw [← hg]
    show i.addr < f.nextAddr + 1
    rcases hitems i hi with hi | rfl
    · have := hf.fresh i hi
      omega
    · omega
  · intro i hi
    rcases (hmem i).1 hi with hi | rfl
    · exact hf.named i hi
    · exact hnamed
  · intro i hi habove
    obtain ⟨j, hj, hlt⟩ := habove
    rcases (hmem i).1 hi with hi | rfl
    · have habove' : f.AboveLowest i := by
        rcases (hmem j).1 hj with hj | rfl
        · exact ⟨j, hj, hlt⟩
        · rcases hroot with ⟨p, hp, -, -, hnum⟩ | ⟨-, hroot⟩
          · exact ⟨p, hp, by omega⟩
          · exact hroot i hi hlt
      obtain ⟨p, hp, hrest⟩ := hf.prev i hi habove'
      exact ⟨p, (hmem p).2 (.inl hp), hrest⟩
    · rcases hroot with ⟨p, hp, hprev, hpid, hnum⟩ | ⟨hlow, -⟩
      · refine ⟨p, (hmem p).2 (.inl hp), hprev, ?_, hpid, hnum⟩
        rw [haddr]
        exact hf.fresh p (mem_items.2 (.inl hp))
      · rcases (hmem j).1 hj with hj | rfl
        · exact absurd ⟨j, hj, hlt⟩ hlow
        · omega
  · intro h hh
    rw [← hg] at hh
    rcases hhead with hhead | hhead
    · exact (hmem h).2 (.inr (Option.some.inj (hh.symm.trans hhead)))
    · exact (hmem h).2 (.inl (hf.head h (hhead.1.symm.trans hh)))
  · intro hnone
    rw [← hg] at hnone
    rcases hhead with hhead | hhead
    · exact nomatch hhead.symm.trans hnone
    · exact absurd (hhead.1.symm.trans hnone) hhead.2

theorem startBlock (hf : Tree env f) (hempty : f.index = []) (b : SignedBlock) :
    Tree env (f.startBlock env b) := by
  have hid (id : BlockId) : f.fetchBlock id = none := by
    unfold fetchBlock
    rw [hempty]
    rfl
  have hroot (x : ForkItem) : Rooted f x := by
    refine .inr ⟨?_, ?_⟩
    · rintro ⟨j, hj, -⟩
      rw [hempty] at hj
      exact absurd hj List.not_mem_nil
    · intro i hi
      rw [hempty] at hi
      exact absurd hi List.not_mem_nil
  unfold ForkDb.startBlock
  dsimp only
  rw [hid, Option.isNone_none, if_pos rfl]
  exact hf.extend rfl (hid _) ⟨rfl, rfl⟩ (hroot _) (.inl rfl)

/-- A block that is new, or not higher than the head, may be inserted. -/
theorem insert {x : ForkItem} (hf : Tree env f) (haddr : x.addr = f.nextAddr)
    (hnamed : x.id = Db.blockId env x.data ∧ x.num = x.data.blockNum) (hroot : Rooted f x)
    (hnew : f.fetchBlock x.id = none ∨ ∃ h, f.head = some h ∧ x.num ≤ h.num) :
    Tree env (f.insert x) := by
  unfold ForkDb.insert
  cases hfetch : f.fetchBlock x.id with
  | none =>
    rw [Option.isNone_none, if_pos rfl]
    refine hf.extend haddr hfetch hnamed hroot ?_
    split
    · exact .inl rfl
    · rename_i h hh
      split
      · exact .inl rfl
      · exact .inr ⟨hh.symm, fun hnone => nomatch hh.symm.trans hnone⟩
  | some y =>
    rw [Option.isNone_some, if_neg (by decide)]
    rcases hnew with hnew | ⟨h, hh, hle⟩
    · exact nomatch hnew.symm.trans hfetch
    · have hsame : Tree env { f with nextAddr := f.nextAddr + 1, head := some h } := by
        rw [← hh]
        exact ⟨hf.ids, hf.addrs, fun i hi => Nat.lt_succ_of_lt (hf.fresh i hi), hf.named, hf.prev,
          hf.head, hf.start⟩
      simp only [hh, if_neg (Nat.not_lt.2 hle)]
      exact hsame

/-- What a block needs to be pushed: it is new, or not higher than the head, and if it is the
first block of a chain, then the first block is still kept. -/
structure Pushable (env : Env) (f : ForkDb) (b : SignedBlock) : Prop where
  unknown : f.fetchBlock (Db.blockId env b) = none ∨ ∃ h, f.head = some h ∧ b.blockNum ≤ h.num
  first : b.previous = ⟨0, 0⟩ → f.index = [] ∨
    (∀ j ∈ f.index, b.blockNum ≤ j.num) ∧ ∃ j ∈ f.index, j.num ≤ b.blockNum

theorem blockNum_lt (b : SignedBlock) : b.blockNum < 2 ^ 32 := by
  unfold SignedBlockHeader.blockNum
  omega

theorem pushBlock {b : SignedBlock} {g : ForkDb} (hf : Tree env f) (hb : Pushable env f b)
    (h : f.pushBlock env b = .ok g) : Tree env g := by
  simp only [ForkDb.pushBlock, bind_eq_ok, pure_eq_ok] at h
  obtain ⟨prev, hlink, rfl⟩ := h
  refine hf.insert rfl ⟨rfl, rfl⟩ ?_ hb.unknown
  unfold linkTo at hlink
  split at hlink
  · rename_i hnone
    have hempty := hf.start hnone
    refine .inr ⟨?_, ?_⟩
    · rintro ⟨j, hj, -⟩
      rw [hempty] at hj
      exact absurd hj List.not_mem_nil
    · intro i hi
      rw [hempty] at hi
      exact absurd hi List.not_mem_nil
  · rename_i top htop
    rw [fcAssert_bind_eq_ok] at hlink
    obtain ⟨hrecent, hlink⟩ := hlink
    split at hlink
    · rename_i hzero
      rcases hb.first hzero with hempty | ⟨hlow, j, hj, hle⟩
      · have hmem := hf.head top htop
        rw [hempty] at hmem
        exact absurd hmem List.not_mem_nil
      · refine .inr ⟨?_, fun i _ hlt => ⟨j, hj, lt_of_le_of_lt hle hlt⟩⟩
        rintro ⟨i, hi, hlt⟩
        exact absurd hlt (Nat.not_lt.2 (hlow i hi))
    · simp only [bind_eq_ok, getOrThrow_eq_ok, pure_eq_ok] at hlink
      obtain ⟨p, hp, rfl⟩ := hlink
      have hmem : p ∈ f.index := List.mem_of_find?_eq_some hp
      have hfound := List.find?_some hp
      have hid : p.id = b.previous := of_decide_eq_true hfound
      refine .inl ⟨p, hmem, rfl, hid, ?_⟩
      obtain ⟨hpid, hpnum⟩ := hf.named p hmem
      have hprevious : b.previous.num = p.num := by
        rw [← hid, hpid, hpnum]
        rfl
      have hlt := blockNum_lt p.data
      have hpositive : 0 < b.blockNum := by omega
      show b.blockNum = p.num + 1
      have hnum : b.blockNum = (p.num + 1) % 2 ^ 32 := by
        rw [← hprevious]
        rfl
      omega

end Tree

/-! ## Branches -/

/-- `p` is the kept parent of `i`. -/
def Parent (f : ForkDb) (i p : ForkItem) : Prop :=
  p ∈ f.index ∧ p.id = i.data.previous ∧ p.num < i.num

/-- `c` is `a` or a kept ancestor of `a`. -/
def Descends (f : ForkDb) (a c : ForkItem) : Prop := Relation.ReflTransGen f.Parent a c

variable {a b c : ForkItem}

theorem Descends.num_le (h : f.Descends a c) : c.num ≤ a.num := by
  induction h with
  | refl => exact le_rfl
  | tail _ hparent ih => exact (Nat.le_of_lt hparent.2.2).trans ih

/-- An ancestor at the same height is the item itself; a lower one is an ancestor of the parent. -/
theorem Descends.eq_or_parent (h : f.Descends a c) :
    a = c ∨ ∃ p, f.Parent a p ∧ f.Descends p c := by
  rcases Relation.ReflTransGen.cases_head h with rfl | hstep
  · exact .inl rfl
  · exact .inr hstep

theorem Descends.parent_of_lt (h : f.Descends a c) (hlt : c.num < a.num) :
    ∃ p, f.Parent a p ∧ f.Descends p c := by
  rcases h.eq_or_parent with rfl | hparent
  · exact absurd hlt (lt_irrefl _)
  · exact hparent

theorem Descends.eq_of_num (h : f.Descends a c) (hnum : a.num = c.num) : a = c := by
  rcases h.eq_or_parent with heq | ⟨p, hparent, hp⟩
  · exact heq
  · have hle := hp.num_le
    have hlt := hparent.2.2
    omega

namespace Tree

/-- In a tree the pointer of an item leads to its parent. -/
theorem parent_eq (hf : Tree env f) (hi : i ∈ f.index) (hp : f.Parent i p) :
    f.parent i = .ok p ∧ i.num = p.num + 1 ∧ p.addr < i.addr := by
  obtain ⟨q, hq, hprev, haddr, hid, hnum⟩ := hf.prev i hi ⟨p, hp.1, hp.2.2⟩
  have hsame : q = p := hf.ids q hq p hp.1 (hid.trans hp.2.1.symm)
  subst hsame
  refine ⟨?_, hnum, haddr⟩
  unfold parent
  rw [hf.lock_eq hq hprev]
  rfl

/-- Climbing down to a height that the ancestor does not exceed. -/
theorem climbTo_eq_ok (hf : Tree env f) {num : Nat} (hnum : c.num ≤ num) (fuel : Nat) {a : ForkItem}
    (ha : a ∈ f.index) (hac : f.Descends a c) (hfuel : a.addr < fuel) :
    ∃ top last, f.climbTo num fuel a = .ok (top, last) ∧ last ∈ f.index ∧ f.Descends last c ∧
      last.num = min a.num num := by
  induction fuel generalizing a with
  | zero => exact absurd hfuel (Nat.not_lt_zero _)
  | succ fuel ih =>
    have hheight : a.data.blockNum = a.num := (hf.named a ha).2.symm
    unfold climbTo
    rw [hheight]
    by_cases hlt : num < a.num
    · obtain ⟨p, hparent, hpc⟩ := hac.parent_of_lt (lt_of_le_of_lt hnum hlt)
      obtain ⟨hp, hstep, haddr⟩ := hf.parent_eq ha hparent
      obtain ⟨top, last, hrun, hmem, hlast, hlastNum⟩ := ih hparent.1 hpc (by omega)
      refine ⟨a :: top, last, ?_, hmem, hlast, by omega⟩
      rw [if_pos hlt, hp]
      show (f.climbTo num fuel p >>= fun r => pure (a :: r.1, r.2)) = _
      rw [hrun]
      rfl
    · refine ⟨[], a, ?_, ha, hac, by omega⟩
      rw [if_neg hlt]
      rfl

/-- Climbing down both branches ends at the ancestor at the latest. -/
theorem climbBoth_eq_ok (hf : Tree env f) (fuel : Nat) {a b : ForkItem} (ha : a ∈ f.index)
    (hb : b ∈ f.index) (hac : f.Descends a c) (hbc : f.Descends b c) (hnum : a.num = b.num)
    (hfuel : a.addr < fuel) : ∃ r, f.climbBoth fuel a b = .ok r := by
  induction fuel generalizing a b with
  | zero => exact absurd hfuel (Nat.not_lt_zero _)
  | succ fuel ih =>
    unfold climbBoth
    by_cases hprevious : a.data.previous = b.data.previous
    · exact ⟨([a], [b]), by rw [if_neg (not_not.2 hprevious)]; rfl⟩
    · have hlt : c.num < a.num := by
        refine lt_of_le_of_ne hac.num_le fun heq => hprevious ?_
        rw [hac.eq_of_num heq.symm, hbc.eq_of_num (hnum.symm.trans heq.symm)]
      obtain ⟨p, hap, hpc⟩ := hac.parent_of_lt hlt
      obtain ⟨q, hbq, hqc⟩ := hbc.parent_of_lt (hnum ▸ hlt)
      obtain ⟨hp, hpnum, haddr⟩ := hf.parent_eq ha hap
      obtain ⟨hq, hqnum, -⟩ := hf.parent_eq hb hbq
      obtain ⟨r, hr⟩ := ih hap.1 hbq.1 hpc hqc (by omega) (by omega)
      refine ⟨(a :: r.1, b :: r.2), ?_⟩
      rw [if_pos hprevious, hp, hq]
      show (f.climbBoth fuel p q >>= fun r => pure (a :: r.1, b :: r.2)) = _
      rw [hr]
      rfl

theorem fetchBlock_eq (hf : Tree env f) (ha : a ∈ f.index) : f.fetchBlock a.id = some a := by
  unfold fetchBlock
  cases hfind : f.index.find? (fun j => decide (j.id = a.id)) with
  | none => exact absurd (decide_eq_true rfl) (List.find?_eq_none.1 hfind a ha)
  | some q =>
    have hfound := List.find?_some hfind
    rw [hf.ids q (List.mem_of_find?_eq_some hfind) a ha (of_decide_eq_true hfound)]

/-- **Branches** of two kept blocks with a common kept ancestor are found. -/
theorem fetchBranchFrom_eq_ok (hf : Tree env f) (ha : a ∈ f.index) (hb : b ∈ f.index)
    (hac : f.Descends a c) (hbc : f.Descends b c) :
    ∃ r, f.fetchBranchFrom a.id b.id = .ok r := by
  have hbnum : b.data.blockNum = b.num := (hf.named b hb).2.symm
  obtain ⟨topA, a', hclimbA, ha', hac', hnumA⟩ :=
    hf.climbTo_eq_ok hbc.num_le (a.addr + 1) ha hac (Nat.lt_succ_self _)
  have hanum : a'.data.blockNum = a'.num := (hf.named a' ha').2.symm
  obtain ⟨topB, b', hclimbB, hb', hbc', hnumB⟩ :=
    hf.climbTo_eq_ok hac'.num_le (b.addr + 1) hb hbc (Nat.lt_succ_self _)
  obtain ⟨r, hr⟩ := hf.climbBoth_eq_ok (a'.addr + 1) ha' hb' hac' hbc' (by omega)
    (Nat.lt_succ_self _)
  refine ⟨(topA ++ r.1, topB ++ r.2), ?_⟩
  unfold fetchBranchFrom
  simp only [bind_eq_ok, getOrThrow_eq_ok, pure_eq_ok]
  refine ⟨a, hf.fetchBlock_eq ha, b, hf.fetchBlock_eq hb, (topA, a'), ?_, (topB, b'), ?_, r, hr, rfl⟩
  · rw [hbnum]
    exact hclimbA
  · rw [hanum]
    exact hclimbB

end Tree

end ForkDb

/-! ## Runs -/

/-- The uses of the fork database. -/
inductive ForkOp
  | startBlock (b : SignedBlock)
  | pushBlock (b : SignedBlock)
  | popBlock
  | setHead (item : ForkItem)
  | setMaxSize (size : Nat)
  | discard (ids : List BlockId) (head : Option ForkItem)
  | hold (items : List ForkItem)

namespace ForkOp

/-- What is left after a use that may throw. -/
def orElse (f : ForkDb) : Result ForkDb → ForkDb
  | .ok g => g
  | .error _ => f

def run (env : Env) (f : ForkDb) : ForkOp → ForkDb
  | .startBlock b => f.startBlock env b
  | .pushBlock b => orElse f (f.pushBlock env b)
  | .popBlock => orElse f f.popBlock
  | .setHead item => f.setHead item
  | .setMaxSize size => f.setMaxSize size
  | .discard ids head => f.discard ids head
  | .hold items => f.hold items

/-- The uses that keep the tree. -/
def Proper (env : Env) (f : ForkDb) : ForkOp → Prop
  | .startBlock _ => f.index = []
  | .pushBlock b => ForkDb.Tree.Pushable env f b
  | .popBlock => f.held = [] ∨ ∀ h, f.head = some h → f.AboveLowest h
  | .setHead item => item ∈ f.index
  | .setMaxSize _ => True
  | .discard ids head => (∀ h, head.or f.head = some h → h ∈ f.index ∧ h.id ∉ ids) ∧
      ∀ i ∈ f.index, i.id ∉ ids → i.data.previous ∉ ids
  | .hold items => ∀ i ∈ items, i ∈ f.index

/-- **One use.** -/
theorem run_tree {env : Env} {f : ForkDb} {op : ForkOp} (hf : f.Tree env)
    (hop : op.Proper env f) : (op.run env f).Tree env := by
  cases op with
  | startBlock b => exact hf.startBlock hop b
  | pushBlock b =>
    show (orElse f (f.pushBlock env b)).Tree env
    cases hrun : f.pushBlock env b with
    | ok g => exact hf.pushBlock hop hrun
    | error e => exact hf
  | popBlock =>
    show (orElse f f.popBlock).Tree env
    cases hrun : f.popBlock with
    | ok g => exact hf.popBlock hop hrun
    | error e => exact hf
  | setHead item => exact hf.setHead hop
  | setMaxSize size => exact hf.setMaxSize size
  | discard ids head => exact hf.discard hop.1 hop.2
  | hold items => exact hf.hold hop

end ForkOp

/-- **The fork database is a tree** after every run of proper uses: every item above the lowest
kept height is linked to its previous block, the head is in the index, and the branches of two
blocks with a common kept ancestor are found. -/
theorem fork_tree (env : Env) (ops : List ForkOp)
    (hops : Guarded (ForkOp.run env) (ForkOp.Proper env) {} ops) (before : List ForkOp)
    (hbefore : before <+: ops) :
    (before.foldl (ForkOp.run env) {}).Linked ∧
      ∀ a ∈ (before.foldl (ForkOp.run env) {}).index,
        ∀ b ∈ (before.foldl (ForkOp.run env) {}).index,
        (∃ c, (before.foldl (ForkOp.run env) {}).Descends a c ∧
          (before.foldl (ForkOp.run env) {}).Descends b c) →
        ∃ r, (before.foldl (ForkOp.run env) {}).fetchBranchFrom a.id b.id = .ok r := by
  have htree := Guarded.invariant (ForkDb.Tree env) (fun _ _ hf hop => ForkOp.run_tree hf hop)
    (ForkDb.Tree.empty env) hops hbefore
  refine ⟨htree.linked, fun a ha b hb hcommon => ?_⟩
  obtain ⟨c, hac, hbc⟩ := hcommon
  exact htree.fetchBranchFrom_eq_ok ha hb hac hbc

/-- The head block of the small node. -/
def rootBlock : SignedBlock :=
  { previous := ⟨9, 27⟩, timestamp := 30, witness := "alice", transactionMerkleRoot := 0
    extensions := [], witnessSignature := 7, transactions := [] }

/-- The block after it, with no transactions. -/
def emptyBlock : SignedBlock := { smallBlock [] with transactions := [] }

/-- Two branches on the root block: the head of the longer one is popped, the other one is removed,
the head goes up again, and the root block is dropped. -/
def forkRun : List ForkOp :=
  [.startBlock rootBlock, .pushBlock emptyBlock, .pushBlock { emptyBlock with timestamp := 36 },
    .pushBlock { emptyBlock with previous := ⟨11, 36⟩, timestamp := 39 }, .popBlock,
    .discard [⟨11, 33⟩] none,
    .setHead ⟨3, some 2, 12, ⟨12, 39⟩,
      { emptyBlock with previous := ⟨11, 36⟩, timestamp := 39 }⟩,
    .setMaxSize 1]

theorem forkRun_guarded : Guarded (ForkOp.run smallEnv) (ForkOp.Proper smallEnv) {} forkRun := by
  refine ⟨rfl, ⟨.inl rfl, fun h => nomatch h⟩, ⟨.inl rfl, fun h => nomatch h⟩,
    ⟨.inl rfl, fun h => nomatch h⟩, .inl rfl, ⟨fun h hh => ?_, by decide +kernel⟩, ?_, trivial,
    trivial⟩
  · cases hh
    exact ⟨List.mem_cons_of_mem _ (List.mem_cons_of_mem _ List.mem_cons_self), by decide⟩
  · exact List.mem_cons_of_mem _ (List.mem_cons_of_mem _ List.mem_cons_self)

theorem fork_tree_forkRun :
    (forkRun.foldl (ForkOp.run smallEnv) {}).index.map (·.id) = [⟨11, 36⟩, ⟨12, 39⟩] ∧
      (forkRun.foldl (ForkOp.run smallEnv) {}).Linked :=
  ⟨by decide +kernel,
    (fork_tree smallEnv forkRun forkRun_guarded forkRun (List.prefix_refl forkRun)).1⟩

/-- The node has started its fork database with the head block. -/
def rootNode : Node :=
  { toStore := { smallStore [] with forkDb := ({} : ForkDb).startBlock smallEnv rootBlock } }

/-- A block that is not signed by its witness is removed, but it remains the head of the fork
database. -/
theorem forged_head : ¬ (Node.left (rootNode.pushBlock smallEnv 3 { merkleCheck := true } 0
    { emptyBlock with witnessSignature := 8 })).forkDb.Linked := by
  have hstate : (Node.left (rootNode.pushBlock smallEnv 3 { merkleCheck := true } 0
      { emptyBlock with witnessSignature := 8 })).forkDb.head.map (·.num) = some 11 ∧
      (Node.left (rootNode.pushBlock smallEnv 3 { merkleCheck := true } 0
        { emptyBlock with witnessSignature := 8 })).forkDb.index.map (·.num) = [10] := by
    decide +kernel
  intro h
  generalize (Node.left (rootNode.pushBlock smallEnv 3 { merkleCheck := true } 0
    { emptyBlock with witnessSignature := 8 })).forkDb = f at *
  obtain ⟨top, htop, hnum⟩ := Option.map_eq_some_iff.1 hstate.1
  have hmem := List.mem_map_of_mem (f := fun i : ForkItem => i.num) (h.head top htop)
  rw [hstate.2, hnum] at hmem
  exact absurd hmem (by decide)

end VizCore.Chain
