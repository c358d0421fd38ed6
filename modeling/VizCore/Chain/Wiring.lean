import VizCore.Chain.ForkTree

/-!
# The pointers of the fork database

Whatever is done to the fork database, an item is named after its block, and a pointer that can be
followed leads to the previous block.

* `Wired`: that property;
* `Wired.pushBlock`, `Wired.popBlock`, `Wired.setMaxSize`, `Wired.discard`, `Wired.hold`: every use
  keeps it;
* `Wired.fetchBranchFrom`: the two branches, without anything about their parents.
-/

namespace VizCore.Chain

open VizCore.Lib VizCore.Protocol

namespace ForkDb

variable {env : Env} {f g : ForkDb} {i p : ForkItem}

theorem mem_items_of_index (hi : i ∈ f.index) : i ∈ f.items := mem_items.2 (.inl hi)

theorem mem_items_of_head (hi : f.head = some i) : i ∈ f.items := mem_items.2 (.inr (.inl hi))

/-- Items are named after their blocks, and a pointer that can be followed leads to the previous
block. -/
structure Wired (env : Env) (f : ForkDb) : Prop where
  addrs : ∀ i ∈ f.items, ∀ j ∈ f.items, i.addr = j.addr → i = j
  fresh : ∀ i ∈ f.items, i.addr < f.nextAddr
  named : ∀ i ∈ f.items, i.id = Db.blockId env i.data ∧ i.num = i.data.blockNum
  prev : ∀ i ∈ f.items, ∀ a, i.prev = some a → a < i.addr ∧
    ∀ j ∈ f.items, j.addr = a → j.id = i.data.previous ∧ i.num = j.num + 1

namespace Wired

theorem id_num (hf : Wired env f) (hi : i ∈ f.items) : i.id.num = i.num := by
  obtain ⟨hid, hnum⟩ := hf.named i hi
  rw [hid, hnum]
  rfl

/-- What a pointer leads to is the previous block. -/
theorem of_lock (hf : Wired env f) (hi : i ∈ f.items) (h : f.lock i = some p) :
    p ∈ f.items ∧ i.prev = some p.addr ∧ p.id = i.data.previous ∧ i.num = p.num + 1 := by
  unfold lock at h
  obtain ⟨addr, hprev, hfind⟩ := Option.bind_eq_some_iff.1 h
  have hmem : p ∈ f.items := List.mem_of_find?_eq_some hfind
  have hfound := List.find?_some hfind
  have haddr : p.addr = addr := of_decide_eq_true hfound
  exact ⟨hmem, haddr ▸ hprev, (hf.prev i hi addr hprev).2 p hmem haddr⟩

/-- Items may go. -/
theorem sub (hf : Wired env f) (hnext : g.nextAddr = f.nextAddr)
    (hitems : ∀ i ∈ g.items, i ∈ f.items) : Wired env g where
  addrs i hi j hj := hf.addrs i (hitems i hi) j (hitems j hj)
  fresh i hi := by
    rw [hnext]
    exact hf.fresh i (hitems i hi)
  named i hi := hf.named i (hitems i hi)
  prev i hi a ha := by
    obtain ⟨hlt, hparent⟩ := hf.prev i (hitems i hi) a ha
    exact ⟨hlt, fun j hj => hparent j (hitems j hj)⟩

theorem setHead (hf : Wired env f) (hi : i ∈ f.items) : Wired env (f.setHead i) := by
  refine hf.sub rfl fun j hj => ?_
  rcases mem_items.1 hj with hj | hj | hj
  · exact mem_items.2 (.inl hj)
  · cases hj
    exact hi
  · exact mem_items.2 (.inr (.inr hj))

theorem hold {l : List ForkItem} (hf : Wired env f) (hl : ∀ i ∈ l, i ∈ f.items) :
    Wired env (f.hold l) := by
  refine hf.sub rfl fun j hj => ?_
  rcases mem_items.1 hj with hj | hj | hj
  · exact mem_items.2 (.inl hj)
  · exact mem_items.2 (.inr (.inl hj))
  · exact hl j hj

theorem setMaxSize (hf : Wired env f) (size : Nat) : Wired env (f.setMaxSize size) := by
  unfold ForkDb.setMaxSize
  split
  · exact hf.sub rfl fun j hj => hj
  · refine hf.sub rfl fun j hj => ?_
    rcases mem_items.1 hj with hj | hj | hj
    · exact mem_items.2 (.inl (List.mem_filter.1 hj).1)
    · exact mem_items.2 (.inr (.inl hj))
    · exact mem_items.2 (.inr (.inr hj))

theorem discard {ids : List BlockId} {head : Option ForkItem} (hf : Wired env f)
    (hhead : ∀ h, head = some h → h ∈ f.items) : Wired env (f.discard ids head) := by
  have hremove : Wired env (ids.foldl remove f) := by
    rw [Tree.foldl_remove]
    refine hf.sub rfl fun j hj => ?_
    rcases mem_items.1 hj with hj | hj | hj
    · exact mem_items.2 (.inl (List.mem_filter.1 hj).1)
    · exact mem_items.2 (.inr (.inl hj))
    · exact mem_items.2 (.inr (.inr hj))
  cases head with
  | none => exact hremove
  | some h =>
    have hmem := hhead h rfl
    refine hf.sub ?_ fun j hj => ?_
    · show (ids.foldl remove f).nextAddr = f.nextAddr
      rw [Tree.foldl_remove]
    · rcases mem_items.1 hj with hj | hj | hj
      · have hj' : j ∈ (ids.foldl remove f).index := hj
        rw [Tree.foldl_remove] at hj'
        exact mem_items.2 (.inl (List.mem_filter.1 hj').1)
      · cases hj
        exact hmem
      · have hj' : j ∈ (ids.foldl remove f).held := hj
        rw [Tree.foldl_remove] at hj'
        exact mem_items.2 (.inr (.inr hj'))

theorem popBlock (hf : Wired env f) (h : f.popBlock = .ok g) :
    Wired env g ∧ ∃ top p, f.head = some top ∧ g.head = some p ∧ top.num = p.num + 1 := by
  simp only [ForkDb.popBlock, bind_eq_ok, getOrThrow_eq_ok, pure_eq_ok] at h
  obtain ⟨top, htop, p, hp, rfl⟩ := h
  obtain ⟨hmem, -, -, hnum⟩ := hf.of_lock (mem_items_of_head htop) hp
  exact ⟨hf.setHead hmem, top, p, htop, rfl, hnum⟩

/-- The items after a new one has come. -/
theorem mem_insert {x : ForkItem} (hi : i ∈ (f.insert x).items) : i ∈ f.items ∨ i = x := by
  rcases mem_items.1 hi with hi | hi | hi
  · unfold ForkDb.insert at hi
    dsimp only at hi
    split at hi
    · rcases List.mem_append.1 hi with hi | hi
      · exact .inl (mem_items_of_index hi)
      · exact .inr (List.mem_singleton.1 hi)
    · exact .inl (mem_items_of_index hi)
  · unfold ForkDb.insert at hi
    dsimp only at hi
    split at hi
    · exact .inr (Option.some.inj hi).symm
    · rename_i h hh
      split at hi
      · exact .inr (Option.some.inj hi).symm
      · exact .inl (mem_items_of_head (hh.trans hi))
  · exact .inl (mem_items.2 (.inr (.inr hi)))

/-- An item may come at a new address. -/
theorem grow {x : ForkItem} (hf : Wired env f) (hnext : g.nextAddr = f.nextAddr + 1)
    (hitems : ∀ i ∈ g.items, i ∈ f.items ∨ i = x) (haddr : x.addr = f.nextAddr)
    (hnamed : x.id = Db.blockId env x.data ∧ x.num = x.data.blockNum)
    (hprev : ∀ a, x.prev = some a → ∃ p ∈ f.items, p.addr = a ∧ p.id = x.data.previous ∧
      x.num = p.num + 1) : Wired env g := by
  constructor
  · intro i hi j hj hij
    rcases hitems i hi with hold | rfl
    · rcases hitems j hj with hold' | rfl
      · exact hf.addrs i hold j hold' hij
      · have hlt := hf.fresh i hold
        omega
    · rcases hitems j hj with hold' | rfl
      · have hlt := hf.fresh j hold'
        omega
      · rfl
  · intro i hi
    rw [hnext]
    rcases hitems i hi with hi | rfl
    · exact Nat.lt_succ_of_lt (hf.fresh i hi)
    · rw [haddr]
      exact Nat.lt_succ_self _
  · intro i hi
    rcases hitems i hi with hi | rfl
    · exact hf.named i hi
    · exact hnamed
  · intro i hi a ha
    rcases hitems i hi with hold | rfl
    · obtain ⟨hlt, hparent⟩ := hf.prev i hold a ha
      refine ⟨hlt, fun j hj hja => ?_⟩
      rcases hitems j hj with hold' | rfl
      · exact hparent j hold' hja
      · have hbefore := hf.fresh i hold
        omega
    · obtain ⟨p, hp, rfl, hid, hnum⟩ := hprev a ha
      have hbefore := hf.fresh p hp
      refine ⟨by omega, fun j hj hja => ?_⟩
      rcases hitems j hj with hold' | rfl
      · rw [hf.addrs j hold' p hp hja]
        exact ⟨hid, hnum⟩
      · omega

theorem insert {x : ForkItem} (hf : Wired env f) (haddr : x.addr = f.nextAddr)
    (hnamed : x.id = Db.blockId env x.data ∧ x.num = x.data.blockNum)
    (hprev : ∀ a, x.prev = some a → ∃ p ∈ f.items, p.addr = a ∧ p.id = x.data.previous ∧
      x.num = p.num + 1) : Wired env (f.insert x) :=
  hf.grow rfl (fun _ => mem_insert) haddr hnamed hprev

theorem startBlock (hf : Wired env f) (b : SignedBlock) : Wired env (f.startBlock env b) := by
  refine hf.grow (x := ⟨f.nextAddr, none, b.blockNum, Db.blockId env b, b⟩) rfl (fun i hi => ?_) rfl
    ⟨rfl, rfl⟩ fun a ha => nomatch ha
  rcases mem_items.1 hi with hi | hi | hi
  · unfold ForkDb.startBlock at hi
    dsimp only at hi
    split at hi
    · rcases List.mem_append.1 hi with hi | hi
      · exact .inl (mem_items_of_index hi)
      · exact .inr (List.mem_singleton.1 hi)
    · exact .inl (mem_items_of_index hi)
  · exact .inr (Option.some.inj hi).symm
  · exact .inl (mem_items.2 (.inr (.inr hi)))

theorem empty (env : Env) : Wired env {} where
  addrs _ hi := absurd hi List.not_mem_nil
  fresh _ hi := absurd hi List.not_mem_nil
  named _ hi := absurd hi List.not_mem_nil
  prev _ hi := absurd hi List.not_mem_nil

/-- A pushed block is recent, and its pointer leads to the previous block.  It is the new head if
it is higher. -/
theorem pushBlock {b : SignedBlock} (hf : Wired env f) (h : f.pushBlock env b = .ok g) :
    Wired env g ∧ ∃ x, x.id = Db.blockId env b ∧ x.num = b.blockNum ∧ x.data = b ∧
      ∀ top, f.head = some top → 0 < b.blockNum ∧
        g.head = some (if top.num < x.num then x else top) := by
  simp only [ForkDb.pushBlock, bind_eq_ok, pure_eq_ok] at h
  obtain ⟨prev, hlink, rfl⟩ := h
  have hlow : ∀ top, f.head = some top → 0 < b.blockNum := by
    intro top htop
    unfold linkTo at hlink
    rw [htop] at hlink
    dsimp only at hlink
    rw [fcAssert_bind_eq_ok] at hlink
    obtain ⟨hrecent, -⟩ := hlink
    omega
  refine ⟨hf.insert rfl ⟨rfl, rfl⟩ fun a ha => ?_,
    ⟨f.nextAddr, prev, b.blockNum, Db.blockId env b, b⟩, rfl, rfl, rfl,
    fun top htop => ⟨hlow top htop, ?_⟩⟩
  · have hprev : prev = some a := ha
    subst hprev
    unfold linkTo at hlink
    split at hlink
    · cases hlink
    · rename_i top htop
      rw [fcAssert_bind_eq_ok] at hlink
      obtain ⟨-, hlink⟩ := hlink
      split at hlink
      · cases hlink
      · simp only [bind_eq_ok, getOrThrow_eq_ok, pure_eq_ok, Option.some.injEq] at hlink
        obtain ⟨p, hp, rfl⟩ := hlink
        have hmem : p ∈ f.items := mem_items_of_index (List.mem_of_find?_eq_some hp)
        have hfound := List.find?_some hp
        have hid : p.id = b.previous := of_decide_eq_true hfound
        have hprevious : b.previous.num = p.num := by
          rw [← hid]
          exact hf.id_num hmem
        have hlt := Tree.blockNum_lt p.data
        rw [← (hf.named p hmem).2] at hlt
        have hpositive := hlow top htop
        have hnum : b.blockNum = (p.num + 1) % 2 ^ 32 := by
          rw [← hprevious]
          rfl
        refine ⟨p, hmem, rfl, hid, ?_⟩
        show b.blockNum = p.num + 1
        omega
  · unfold ForkDb.insert
    dsimp only
    rw [htop]
    dsimp only
    split
    · rfl
    · rfl

/-! ## Branches -/

theorem parent_mem (hf : Wired env f) (hi : i ∈ f.items) (h : f.parent i = .ok p) :
    p ∈ f.items ∧ i.num = p.num + 1 := by
  unfold parent at h
  rw [getOrThrow_eq_ok] at h
  obtain ⟨hp, -, -, hnum⟩ := hf.of_lock hi h
  exact ⟨hp, hnum⟩

theorem climbTo (hf : Wired env f) {num fuel : Nat} {a last : ForkItem} {top : List ForkItem}
    (ha : a ∈ f.items) (h : f.climbTo num fuel a = .ok (top, last)) :
    (∀ i ∈ top, i ∈ f.items ∧ i.num ≤ a.num) ∧ last ∈ f.items ∧ last.num ≤ a.num ∧
      (top ++ [last]).head? = some a := by
  induction fuel generalizing a top with
  | zero => cases h
  | succ fuel ih =>
    unfold ForkDb.climbTo at h
    split at h
    · simp only [bind_eq_ok, pure_eq_ok, Prod.mk.injEq] at h
      obtain ⟨p, hp, ⟨rest, last'⟩, hrest, rfl, rfl⟩ := h
      obtain ⟨hmem, hnum⟩ := hf.parent_mem ha hp
      obtain ⟨htop, hlast, hle, -⟩ := ih hmem hrest
      refine ⟨fun i hi => ?_, hlast, by omega, rfl⟩
      cases hi with
      | head => exact ⟨ha, le_rfl⟩
      | tail _ hi =>
        obtain ⟨hi, hle⟩ := htop i hi
        exact ⟨hi, by omega⟩
    · simp only [pure_eq_ok, Prod.mk.injEq] at h
      obtain ⟨rfl, rfl⟩ := h
      exact ⟨fun i hi => absurd hi List.not_mem_nil, ha, le_rfl, rfl⟩

theorem climbBoth (hf : Wired env f) {fuel : Nat} {a b : ForkItem} {l l' : List ForkItem}
    (ha : a ∈ f.items) (hb : b ∈ f.items) (h : f.climbBoth fuel a b = .ok (l, l')) :
    (∀ i ∈ l, i ∈ f.items) ∧ (∀ i ∈ l', i ∈ f.items ∧ i.num ≤ b.num) ∧
      l.head? = some a ∧ l'.head? = some b := by
  induction fuel generalizing a b l l' with
  | zero => cases h
  | succ fuel ih =>
    unfold ForkDb.climbBoth at h
    split at h
    · simp only [bind_eq_ok, pure_eq_ok, Prod.mk.injEq] at h
      obtain ⟨p, hp, q, hq, ⟨m, m'⟩, hrest, rfl, rfl⟩ := h
      obtain ⟨hpmem, -⟩ := hf.parent_mem ha hp
      obtain ⟨hqmem, hnum⟩ := hf.parent_mem hb hq
      obtain ⟨hm, hm', -⟩ := ih hpmem hqmem hrest
      refine ⟨fun i hi => ?_, fun i hi => ?_, rfl, rfl⟩
      · cases hi with
        | head => exact ha
        | tail _ hi => exact hm i hi
      · cases hi with
        | head => exact ⟨hb, le_rfl⟩
        | tail _ hi =>
          obtain ⟨hi, hle⟩ := hm' i hi
          exact ⟨hi, by omega⟩
    · simp only [pure_eq_ok, Prod.mk.injEq] at h
      obtain ⟨rfl, rfl⟩ := h
      refine ⟨fun i hi => ?_, fun i hi => ?_, rfl, rfl⟩
      · rw [List.mem_singleton.1 hi]
        exact ha
      · rw [List.mem_singleton.1 hi]
        exact ⟨hb, le_rfl⟩

/-- Both branches are alive, each begins with its block, and nothing on the second one is higher
than its block. -/
theorem fetchBranchFrom (hf : Wired env f) {first second : BlockId} {l l' : List ForkItem}
    (h : f.fetchBranchFrom first second = .ok (l, l')) :
    (∀ i ∈ l ++ l', i ∈ f.items) ∧
      (∃ a, a ∈ f.items ∧ a.id = first ∧ l.head? = some a) ∧
      ∃ b, b ∈ f.items ∧ b.id = second ∧ l'.head? = some b ∧ ∀ i ∈ l', i.num ≤ b.num := by
  simp only [ForkDb.fetchBranchFrom, bind_eq_ok, getOrThrow_eq_ok, pure_eq_ok,
    Prod.mk.injEq] at h
  obtain ⟨a, ha, b, hb, ⟨topA, a'⟩, hclimbA, ⟨topB, b'⟩, hclimbB, ⟨restA, restB⟩, hboth, rfl, rfl⟩ :=
    h
  have hmemA : a ∈ f.items := mem_items_of_index (List.mem_of_find?_eq_some ha)
  have hmemB : b ∈ f.items := mem_items_of_index (List.mem_of_find?_eq_some hb)
  have hfoundA := List.find?_some ha
  have hfoundB := List.find?_some hb
  obtain ⟨htopA, ha', -, hheadA⟩ := hf.climbTo hmemA hclimbA
  obtain ⟨htopB, hb', hleB, hheadB⟩ := hf.climbTo hmemB hclimbB
  obtain ⟨hrestA, hrestB, hstartA, hstartB⟩ := hf.climbBoth ha' hb' hboth
  refine ⟨?_, ⟨a, hmemA, of_decide_eq_true hfoundA, ?_⟩, b, hmemB, of_decide_eq_true hfoundB, ?_, ?_⟩
  · intro i hi
    rcases List.mem_append.1 hi with hi | hi
    · rcases List.mem_append.1 hi with hi | hi
      · exact (htopA i hi).1
      · exact hrestA i hi
    · rcases List.mem_append.1 hi with hi | hi
      · exact (htopB i hi).1
      · exact (hrestB i hi).1
  · rw [List.head?_append] at hheadA ⊢
    rw [hstartA]
    exact hheadA
  · rw [List.head?_append] at hheadB ⊢
    rw [hstartB]
    exact hheadB
  · intro i hi
    rcases List.mem_append.1 hi with hi | hi
    · exact (htopB i hi).2
    · have hle := (hrestB i hi).2
      omega

end Wired

end ForkDb

end VizCore.Chain
