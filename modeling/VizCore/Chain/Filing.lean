import VizCore.Lib.Linked
import VizCore.Chain.Wiring

/-!
# The fork database next to a chain

What the fork database has to hold of a chain, so that the blocks of this chain are found in it.

* `Grown`: the items from a height on, with pointers that lead to parents;
* `Filed`: the blocks of the chain from this height on are in the index, nothing is higher than
  the chain, and the head stands on the chain or next to its end;
* `Filed.mainBranch`: the block of a height on the main branch is the block of the chain;
* `Filed.setMaxSize`, `Filed.append`, `Filed.store`, `Filed.switch`, `Filed.popBlock`,
  `Filed.removeTip`: the uses of the fork database.
-/

namespace VizCore.Chain

open VizCore.Lib VizCore.Protocol

/-- How blocks name each other. -/
def links (env : Env) : Links SignedBlock BlockId where
  id := Db.blockId env
  previous b := b.previous
  origin := ⟨0, 0⟩
  height i := i.num
  height_origin := rfl

namespace ForkDb

variable {env : Env} {low : Nat} {f g : ForkDb} {bs : List SignedBlock} {i : ForkItem}

/-- From the height `low` on the parents are kept, and pointers lead to parents. -/
structure Grown (env : Env) (low : Nat) (f : ForkDb) : Prop where
  nodup : (f.index.map (·.id)).Nodup
  addrs : ∀ i ∈ f.items, ∀ j ∈ f.items, i.addr = j.addr → i = j
  fresh : ∀ i ∈ f.items, i.addr < f.nextAddr
  named : ∀ i ∈ f.items, i.id = Db.blockId env i.data ∧ i.num = i.data.blockNum
  above : ∀ i ∈ f.index, low ≤ i.num
  prev : ∀ i ∈ f.items, low < i.num → ∃ p ∈ f.index, i.prev = some p.addr
  wired : ∀ i ∈ f.items, ∀ a, i.prev = some a → a < i.addr ∧
    ∀ j ∈ f.items, j.addr = a → j.id = i.data.previous ∧ i.num = j.num + 1

namespace Grown

theorem eq_of_id {i j : ForkItem} (hf : Grown env low f) (hi : i ∈ f.index) (hj : j ∈ f.index)
    (hid : i.id = j.id) : i = j :=
  List.inj_on_of_nodup_map hf.nodup hi hj hid

theorem eq_of_data {i j : ForkItem} (hf : Grown env low f) (hi : i ∈ f.index) (hj : j ∈ f.index)
    (hdata : i.data = j.data) : i = j := by
  refine hf.eq_of_id hi hj ?_
  rw [(hf.named i (mem_items_of_index hi)).1, (hf.named j (mem_items_of_index hj)).1, hdata]

/-- The pointer to an item that is alive leads to this item. -/
theorem lock_eq {p : ForkItem} (hf : Grown env low f) (hp : p ∈ f.items)
    (hprev : i.prev = some p.addr) : f.lock i = some p := by
  unfold lock
  rw [hprev]
  show f.items.find? (fun j => decide (j.addr = p.addr)) = some p
  cases hfind : f.items.find? (fun j => decide (j.addr = p.addr)) with
  | none => exact absurd (decide_eq_true rfl) (List.find?_eq_none.1 hfind p hp)
  | some q =>
    have hfound := List.find?_some hfind
    have haddr : q.addr = p.addr := of_decide_eq_true hfound
    rw [hf.addrs q (List.mem_of_find?_eq_some hfind) p hp haddr]

theorem pointers (hf : Grown env low f) : Wired env f := ⟨hf.addrs, hf.fresh, hf.named, hf.wired⟩

/-- Less is kept, but no parent above the new height goes. -/
theorem sub {low' : Nat} (hf : Grown env low f) (hnext : g.nextAddr = f.nextAddr)
    (hitems : ∀ i ∈ g.items, i ∈ f.items) (hindex : g.index.Sublist f.index) (hlow : low ≤ low')
    (habove : ∀ i ∈ g.index, low' ≤ i.num)
    (hparent : ∀ i ∈ g.items, low' < i.num → ∀ p ∈ f.index, i.prev = some p.addr →
      p ∈ g.index) : Grown env low' g := by
  obtain ⟨haddrs, hfresh, hnamed, hwired⟩ := hf.pointers.sub hnext hitems
  refine ⟨hf.nodup.sublist (hindex.map _), haddrs, hfresh, hnamed, habove, fun i hi hlt => ?_, hwired⟩
  obtain ⟨p, hp, hprev⟩ := hf.prev i (hitems i hi) (lt_of_le_of_lt hlow hlt)
  exact ⟨p, hparent i hi hlt p hp hprev, hprev⟩

/-- What a new item needs: a parent in the index, or no parent at the lowest height. -/
def Rooted (low : Nat) (f : ForkDb) (x : ForkItem) : Prop :=
  (∃ p ∈ f.index, x.prev = some p.addr ∧ p.id = x.data.previous ∧ x.num = p.num + 1) ∨
    x.prev = none ∧ x.num = low

/-- A new item that nothing points to. -/
theorem insert {x : ForkItem} (hf : Grown env low f) (haddr : x.addr = f.nextAddr)
    (hnamed : x.id = Db.blockId env x.data ∧ x.num = x.data.blockNum) (hroot : Rooted low f x) :
    Grown env low (f.insert x) := by
  have hkept : ∀ i ∈ f.index, i ∈ (f.insert x).index := by
    intro i hi
    unfold ForkDb.insert
    dsimp only
    split
    · exact List.mem_append_left _ hi
    · exact hi
  have hparent : ∀ a, x.prev = some a → ∃ p ∈ f.items, p.addr = a ∧ p.id = x.data.previous ∧
      x.num = p.num + 1 := by
    intro a ha
    rcases hroot with ⟨p, hp, hprev, hid, hnum⟩ | ⟨hprev, -⟩
    · exact ⟨p, mem_items_of_index hp, Option.some.inj (hprev.symm.trans ha), hid, hnum⟩
    · exact nomatch hprev.symm.trans ha
  obtain ⟨haddrs, hfresh, hnamed', hwired⟩ := hf.pointers.insert haddr hnamed hparent
  refine ⟨?_, haddrs, hfresh, hnamed', ?_, ?_, hwired⟩
  · unfold ForkDb.insert
    dsimp only
    split
    · rename_i hunknown
      rw [List.map_append, List.nodup_append]
      refine ⟨hf.nodup, List.nodup_singleton _, ?_⟩
      intro a ha b hb hab
      obtain ⟨i, hi, rfl⟩ := List.mem_map.1 ha
      rw [List.map_singleton, List.mem_singleton] at hb
      have hnone := Option.isNone_iff_eq_none.1 hunknown
      exact List.find?_eq_none.1 hnone i hi (decide_eq_true (hab.trans hb))
    · exact hf.nodup
  · intro i hi
    unfold ForkDb.insert at hi
    dsimp only at hi
    split at hi
    · rcases List.mem_append.1 hi with hi | hi
      · exact hf.above i hi
      · rw [List.mem_singleton.1 hi]
        rcases hroot with ⟨p, hp, -, -, hnum⟩ | ⟨-, hnum⟩
        · have hle := hf.above p hp
          omega
        · exact hnum.ge
    · exact hf.above i hi
  · intro i hi hlt
    rcases Wired.mem_insert hi with hold | rfl
    · obtain ⟨p, hp, hprev⟩ := hf.prev i hold hlt
      exact ⟨p, hkept p hp, hprev⟩
    · rcases hroot with ⟨p, hp, hprev, -, -⟩ | ⟨-, hnum⟩
      · exact ⟨p, hkept p hp, hprev⟩
      · exact absurd hnum.symm (Nat.ne_of_lt hlt)

end Grown

/-- A head next to the end of the chain: nothing but the chain is kept at its height. -/
structure Stray (env : Env) (bs : List SignedBlock) (f : ForkDb) (h : ForkItem) : Prop where
  previous : h.data.previous = (links env).tip (bs.take (h.num - 1))
  low : bs.length ≤ h.num
  high : h.num ≤ bs.length + 1
  alone : ∀ i ∈ f.index, i.num = h.num → i.data ∈ bs

/-- The blocks of the chain are kept from the height `low` on. -/
structure Kept (env : Env) (bs : List SignedBlock) (low : Nat) (f : ForkDb) : Prop where
  linked : (links env).Linked bs
  grown : Grown env low f
  low_pos : 0 < low
  low_le : low ≤ max 1 bs.length
  main : ∀ b ∈ bs, low ≤ b.blockNum → ∃ i ∈ f.index, i.data = b

/-- Nothing is higher than the chain, and the head stands on the chain or next to its end. -/
structure Filed (env : Env) (bs : List SignedBlock) (low : Nat) (f : ForkDb) : Prop
    extends Kept env bs low f where
  top : ∀ i ∈ f.index, i.num ≤ bs.length
  start : f.head = none → f.index = []
  head : ∀ h, f.head = some h → h ∈ f.index ∧ h.data ∈ bs ∨ Stray env bs f h

/-- A block of a linked chain and its number. -/
theorem get_of_mem {b : SignedBlock} (h : (links env).Linked bs) (hb : b ∈ bs) :
    0 < b.blockNum ∧ b.blockNum ≤ bs.length ∧ bs[b.blockNum - 1]? = some b :=
  h.get hb

namespace Kept

theorem num_eq (hf : Kept env bs low f) (hi : i ∈ f.items) : i.num = i.data.blockNum :=
  (hf.grown.named i hi).2

/-- The item of the chain at a height that is kept. -/
theorem item (hf : Kept env bs low f) {k : Nat} (hlow : low ≤ k) (hk : k ≤ bs.length) :
    ∃ i ∈ f.index, i.data ∈ bs ∧ i.num = k ∧ bs[k - 1]? = some i.data := by
  have hpos := hf.low_pos
  obtain ⟨b, hb⟩ : ∃ b, bs[k - 1]? = some b := ⟨_, List.getElem?_eq_getElem (by omega)⟩
  have hmem : b ∈ bs := List.mem_of_getElem? hb
  have hnum : b.blockNum = k - 1 + 1 := hf.linked.height_of_get hb
  obtain ⟨i, hi, rfl⟩ := hf.main b hmem (by omega)
  refine ⟨i, hi, hmem, ?_, hb⟩
  rw [hf.num_eq (mem_items_of_index hi)]
  omega

/-- The kept parent of an item that builds on the chain is an item of the chain. -/
theorem parent (hf : Kept env bs low f) (hi : i ∈ f.items) (hlow : low < i.num)
    (hhigh : i.num ≤ bs.length + 1)
    (hprevious : i.data.previous = (links env).tip (bs.take (i.num - 1))) :
    ∃ p ∈ f.index, f.lock i = some p ∧ p.data ∈ bs ∧ p.num + 1 = i.num := by
  have hpos := hf.low_pos
  obtain ⟨p, hp, hprev⟩ := hf.grown.prev i hi hlow
  have hlock := hf.grown.lock_eq (mem_items_of_index hp) hprev
  obtain ⟨-, -, hid, hnum⟩ := hf.grown.pointers.of_lock hi hlock
  obtain ⟨q, hq, hqc, hqnum, hget⟩ := @item env low f bs hf p.num (hf.grown.above p hp) (by omega)
  have hqid : q.id = p.id := by
    rw [hid, hprevious, (hf.grown.named q (mem_items_of_index hq)).1]
    have htip := Links.tip_take_succ (L := links env) hget
    rw [show p.num - 1 + 1 = i.num - 1 by have := hf.grown.above p hp; omega] at htip
    exact htip.symm
  obtain rfl := hf.grown.eq_of_id hq hp hqid
  exact ⟨q, hp, hlock, hqc, hnum.symm⟩

/-- A block of the chain builds on the chain. -/
theorem previous_eq (hf : Kept env bs low f) (hi : i ∈ f.items) (hdata : i.data ∈ bs) :
    i.data.previous = (links env).tip (bs.take (i.num - 1)) := by
  rw [hf.num_eq hi]
  exact hf.linked.previous_of_mem hdata

theorem num_le (hf : Kept env bs low f) (hi : i ∈ f.items) (hdata : i.data ∈ bs) :
    0 < i.num ∧ i.num ≤ bs.length := by
  rw [hf.num_eq hi]
  exact ⟨(get_of_mem hf.linked hdata).1, (get_of_mem hf.linked hdata).2.1⟩

/-- Walking down from an item of the chain stays on the chain. -/
theorem walkDown (hf : Kept env bs low f) {num : Nat} (hlow : low ≤ num) (fuel : Nat)
    {i j : ForkItem} (hi : i ∈ f.index) (hdata : i.data ∈ bs) (hnum : num ≤ i.num)
    (h : f.walkDown num fuel i = some j) : j ∈ f.index ∧ j.data ∈ bs ∧ j.num = num := by
  induction fuel generalizing i with
  | zero => cases h
  | succ fuel ih =>
    unfold ForkDb.walkDown at h
    have hitems := mem_items_of_index hi
    split at h
    · rename_i hlt
      have hhigh := (hf.num_le hitems hdata).2
      obtain ⟨p, hp, hlock, hpc, hpnum⟩ :=
        hf.parent hitems (by omega) (by omega) (hf.previous_eq hitems hdata)
      rw [hlock] at h
      exact ih hp hpc (by omega) h
    · obtain rfl := Option.some.inj h
      exact ⟨hi, hdata, by omega⟩

end Kept

namespace Filed

theorem head_num (hf : Filed env bs low f) {h : ForkItem} (hh : f.head = some h) :
    h.num ≤ bs.length + 1 := by
  rcases hf.head h hh with ⟨-, hdata⟩ | hstray
  · have hle := (hf.num_le (mem_items_of_head hh) hdata).2
    omega
  · exact hstray.high

/-- **The main branch** is the chain. -/
theorem mainBranch (hf : Filed env bs low f) {num : Nat} {i : ForkItem}
    (h : f.fetchBlockOnMainBranchByNumber num = some i) :
    i ∈ f.index ∧ i.data ∈ bs ∧ i.num = num := by
  have hmem (j : ForkItem) : j ∈ f.fetchBlockByNumber num ↔ j ∈ f.index ∧ j.num = num := by
    unfold fetchBlockByNumber
    rw [List.mem_filter, decide_eq_true_eq]
  have hnodup : (f.fetchBlockByNumber num).Nodup :=
    (List.Nodup.of_map _ hf.grown.nodup).filter _
  unfold fetchBlockOnMainBranchByNumber at h
  split at h
  · cases h
  · rename_i item hitem
    obtain rfl := Option.some.inj h
    rw [hitem] at hmem
    obtain ⟨hindex, hnum⟩ := (hmem item).1 List.mem_cons_self
    refine ⟨hindex, ?_, hnum⟩
    obtain ⟨j, hj, hdata, hjnum, -⟩ :=
      hf.item (hnum ▸ hf.grown.above item hindex) (hnum ▸ hf.top item hindex)
    rw [← List.mem_singleton.1 ((hmem j).2 ⟨hj, hjnum⟩)]
    exact hdata
  · rename_i hnone hmany
    unfold walkMainBranchToNum at h
    obtain ⟨top, htop, h⟩ := Option.bind_eq_some_iff.1 h
    split at h
    · cases h
    · rename_i hreach
      obtain ⟨j, hj⟩ := List.exists_mem_of_ne_nil _ hnone
      obtain ⟨hjindex, hjnum⟩ := (hmem j).1 hj
      have hlow : low ≤ num := hjnum ▸ hf.grown.above j hjindex
      have hitems := mem_items_of_head htop
      rcases hf.head top htop with ⟨hindex, hdata⟩ | hstray
      · exact hf.walkDown hlow _ hindex hdata (by omega) h
      · unfold ForkDb.walkDown at h
        split at h
        · obtain ⟨p, hp, hlock, hpc, hpnum⟩ :=
            hf.parent hitems (by omega) hstray.high hstray.previous
          rw [hlock] at h
          exact hf.walkDown hlow _ hp hpc (by omega) h
        · -- at the height of a stray head there is one item only
          have hsame : ∀ a ∈ f.fetchBlockByNumber num, a = j := by
            intro a ha
            obtain ⟨haindex, hanum⟩ := (hmem a).1 ha
            have hac := hstray.alone a haindex (by omega)
            have hjc := hstray.alone j hjindex (by omega)
            refine hf.grown.eq_of_data haindex hjindex (hf.linked.eq_of_height hac hjc ?_)
            show a.data.blockNum = j.data.blockNum
            rw [← hf.num_eq (mem_items_of_index haindex), ← hf.num_eq (mem_items_of_index hjindex),
              hanum, hjnum]
          refine absurd ?_ (hmany j)
          generalize f.fetchBlockByNumber num = l at *
          cases l with
          | nil => exact absurd hj List.not_mem_nil
          | cons a l =>
            cases l with
            | nil => rw [hsame a List.mem_cons_self]
            | cons b l =>
              rw [hsame a List.mem_cons_self, hsame b (List.mem_cons_of_mem _ List.mem_cons_self)]
                at hnodup
              exact absurd List.mem_cons_self (List.nodup_cons.1 hnodup).1

/-! ## What is dropped -/

/-- Some items are dropped, but none of the chain above the new height. -/
theorem less {low' : Nat} (hf : Filed env bs low f) (hnext : g.nextAddr = f.nextAddr)
    (hhead : g.head = f.head) (hheld : g.held = f.held) (hindex : g.index.Sublist f.index)
    (hlow : low ≤ low') (hlow' : low' ≤ max 1 bs.length) (habove : ∀ i ∈ g.index, low' ≤ i.num)
    (hkept : ∀ i ∈ f.index, low' ≤ i.num → i ∈ g.index)
    (hstays : ∀ h, f.head = some h → h ∈ f.index → h ∈ g.index) : Filed env bs low' g where
  linked := hf.linked
  grown := by
    have hitems : ∀ i ∈ g.items, i ∈ f.items := by
      intro i hi
      rcases mem_items.1 hi with hi | hi | hi
      · exact mem_items_of_index (hindex.subset hi)
      · exact mem_items_of_head (hhead ▸ hi)
      · exact mem_items.2 (.inr (.inr (hheld ▸ hi)))
    refine hf.grown.sub hnext hitems hindex hlow habove ?_
    intro i hi hlt p hp hprev
    obtain ⟨-, hparent⟩ := hf.grown.wired i (hitems i hi) p.addr hprev
    obtain ⟨-, hnum⟩ := hparent p (mem_items_of_index hp) rfl
    exact hkept p hp (by omega)
  low_pos := hf.low_pos.trans_le hlow
  low_le := hlow'
  top i hi := hf.top i (hindex.subset hi)
  main b hb hle := by
    obtain ⟨i, hi, rfl⟩ := hf.main b hb (hlow.trans hle)
    refine ⟨i, hkept i hi ?_, rfl⟩
    rw [hf.num_eq (mem_items_of_index hi)]
    exact hle
  start hnone := by
    have hempty := hf.start (hhead ▸ hnone)
    rw [hempty] at hindex
    exact List.sublist_nil.1 hindex
  head h hh := by
    rw [hhead] at hh
    rcases hf.head h hh with ⟨hmem, hdata⟩ | hstray
    · exact .inl ⟨hstays h hh hmem, hdata⟩
    · exact .inr ⟨hstray.previous, hstray.low, hstray.high,
        fun i hi => hstray.alone i (hindex.subset hi)⟩

theorem setMaxSize (hf : Filed env bs low f) {size bound : Nat}
    (hcut : ∀ h, f.head = some h → h.num - size ≤ bound) (hbound : bound ≤ max 1 bs.length) :
    ∃ low', low' ≤ max low bound ∧ Filed env bs low' (f.setMaxSize size) := by
  unfold ForkDb.setMaxSize
  split
  · refine ⟨low, le_max_left _ _, ?_⟩
    exact hf.less rfl rfl rfl (List.Sublist.refl _) le_rfl hf.low_le hf.grown.above
      (fun _ hi _ => hi) (fun _ _ hi => hi)
  · rename_i h hh
    have hle := hcut h hh
    refine ⟨max low (h.num - size), max_le_max le_rfl hle, ?_⟩
    refine hf.less rfl rfl rfl List.filter_sublist (le_max_left _ _)
      (max_le hf.low_le (hle.trans hbound)) ?_ ?_ ?_
    · intro i hi
      obtain ⟨hmem, hkept⟩ := List.mem_filter.1 hi
      have hcut := of_decide_eq_true hkept
      have habove := hf.grown.above i hmem
      omega
    · intro i hi hle
      refine List.mem_filter.2 ⟨hi, decide_eq_true ?_⟩
      omega
    · intro t ht hmem
      obtain rfl := Option.some.inj (hh.symm.trans ht)
      refine List.mem_filter.2 ⟨hmem, decide_eq_true ?_⟩
      omega

/-- The block at the end of the chain is removed; it may remain the head. -/
theorem removeTip {b : SignedBlock} (hf : Filed env (bs ++ [b]) low f) (hheld : f.held = [])
    (hlow : low ≤ max 1 bs.length) (hcrown : ∀ i ∈ f.index, i.num = bs.length + 1 → i.data = b)
    (hhead : ∀ h, f.head = some h →
      h.data.previous = (links env).tip bs ∧ h.num = bs.length + 1) :
    Filed env bs low (f.remove (Db.blockId env b)) := by
  have hlength : (bs ++ [b]).length = bs.length + 1 := by rw [List.length_append]; rfl
  have hlinked : (links env).Linked bs := hf.linked.of_prefix (List.prefix_append _ _)
  have hb : b ∈ bs ++ [b] := List.mem_append_right _ List.mem_cons_self
  have hbnum : b.blockNum = bs.length + 1 :=
    hf.linked.height_of_get (List.getElem?_concat_length (l := bs) (a := b))
  have hkept : ∀ i ∈ (f.remove (Db.blockId env b)).index, i ∈ f.index ∧ i.num ≤ bs.length := by
    intro i hi
    obtain ⟨hmem, hother⟩ := List.mem_filter.1 hi
    have htop := hf.top i hmem
    rw [hlength] at htop
    refine ⟨hmem, ?_⟩
    by_contra hlt
    have hdata := hcrown i hmem (by omega)
    refine of_decide_eq_true hother ?_
    rw [(hf.grown.named i (mem_items_of_index hmem)).1, hdata]
  have hstays : ∀ i ∈ f.index, i.num ≤ bs.length → i ∈ (f.remove (Db.blockId env b)).index := by
    intro i hi hle
    refine List.mem_filter.2 ⟨hi, decide_eq_true fun hid => ?_⟩
    have hnum : i.num = b.blockNum := by
      obtain ⟨hname, hnum⟩ := hf.grown.named i (mem_items_of_index hi)
      rw [hnum]
      exact congrArg BlockId.num (hname.symm.trans hid)
    omega
  refine ⟨⟨hlinked, ?_, hf.low_pos, hlow, ?_⟩, fun i hi => (hkept i hi).2, ?_, ?_⟩
  · refine hf.grown.sub rfl ?_ List.filter_sublist le_rfl (fun i hi => hf.grown.above i (hkept i hi).1)
      ?_
    · intro i hi
      rcases mem_items.1 hi with hi | hi | hi
      · exact mem_items_of_index (hkept i hi).1
      · exact mem_items_of_head hi
      · exact mem_items.2 (.inr (.inr hi))
    · intro i hi hlt p hp hprev
      have hparent : i ∈ f.items ∧ i.num ≤ bs.length + 1 := by
        rcases mem_items.1 hi with hi | hi | hi
        · exact ⟨mem_items_of_index (hkept i hi).1, Nat.le_succ_of_le (hkept i hi).2⟩
        · exact ⟨mem_items_of_head hi, (hhead i hi).2.le⟩
        · change i ∈ f.held at hi
          rw [hheld] at hi
          exact absurd hi List.not_mem_nil
      obtain ⟨-, hnum⟩ := (hf.grown.wired i hparent.1 p.addr hprev).2 p (mem_items_of_index hp) rfl
      exact hstays p hp (by omega)
  · intro a ha hle
    obtain ⟨i, hi, rfl⟩ := hf.main a (List.mem_append_left _ ha) hle
    refine ⟨i, hstays i hi ?_, rfl⟩
    rw [hf.num_eq (mem_items_of_index hi)]
    exact (get_of_mem hlinked ha).2.1
  · intro hnone
    have hempty := hf.start hnone
    show f.index.filter _ = []
    rw [hempty]
    rfl
  · intro h hh
    obtain ⟨hprevious, hnum⟩ := hhead h hh
    refine .inr ⟨?_, by omega, by omega, ?_⟩
    · rw [hnum, Nat.add_sub_cancel, List.take_length]
      exact hprevious
    · intro i hi hsame
      have hle := (hkept i hi).2
      omega

/-! ## What is pushed -/

theorem length_lt (hf : Filed env bs low f) : bs.length < 2 ^ 32 := by
  rcases Nat.eq_zero_or_pos bs.length with hzero | hpos
  · omega
  · obtain ⟨b, hb⟩ : ∃ b, bs[bs.length - 1]? = some b := ⟨_, List.getElem?_eq_getElem (by omega)⟩
    have hnum : b.blockNum = bs.length - 1 + 1 := hf.linked.height_of_get hb
    have hlt := Tree.blockNum_lt b
    omega

/-- Without a head there is no chain. -/
theorem chain_nil (hf : Filed env bs low f) (hnone : f.head = none) : bs = [] := by
  by_contra hne
  have hlength := List.length_pos_iff.2 hne
  have hle := hf.low_le
  obtain ⟨i, hi, -⟩ := hf.item (k := bs.length) (by omega) le_rfl
  rw [hf.start hnone] at hi
  exact absurd hi List.not_mem_nil

/-- The item of a block that is linked. -/
theorem rooted (hf : Filed env bs low f) {b : SignedBlock} {prev : Option Nat}
    (hzero : b.previous = ⟨0, 0⟩ → low = 1) (hstart : f.head = none → b.previous = ⟨0, 0⟩)
    (h : f.linkTo b = .ok prev) :
    Grown.Rooted low f ⟨f.nextAddr, prev, b.blockNum, Db.blockId env b, b⟩ ∧
      0 < b.blockNum ∧ b.blockNum ≤ bs.length + 1 := by
  have hfirst : b.previous = ⟨0, 0⟩ → b.blockNum = 1 := by
    intro hprevious
    show (b.previous.num + 1) % 2 ^ 32 = 1
    rw [hprevious]
    rfl
  unfold linkTo at h
  split at h
  · rename_i hnone
    obtain rfl : none = prev := (pure_eq_ok _ _).1 h
    have hnum := hfirst (hstart hnone)
    exact ⟨.inr ⟨rfl, hnum.trans (hzero (hstart hnone)).symm⟩, by omega, by omega⟩
  · rename_i top htop
    rw [fcAssert_bind_eq_ok] at h
    obtain ⟨hrecent, h⟩ := h
    split at h
    · rename_i hprevious
      obtain rfl := (pure_eq_ok _ _).1 h
      have hnum := hfirst hprevious
      exact ⟨.inr ⟨rfl, hnum.trans (hzero hprevious).symm⟩, by omega, by omega⟩
    · simp only [bind_eq_ok, getOrThrow_eq_ok, pure_eq_ok] at h
      obtain ⟨p, hp, rfl⟩ := h
      have hmem : p ∈ f.index := List.mem_of_find?_eq_some hp
      have hfound := List.find?_some hp
      have hid : p.id = b.previous := of_decide_eq_true hfound
      obtain ⟨hname, hpnum⟩ := hf.grown.named p (mem_items_of_index hmem)
      have hprevious : b.previous.num = p.num := by
        rw [← hid, hname, hpnum]
        rfl
      have hnum : b.blockNum = (p.num + 1) % 2 ^ 32 := by
        rw [← hprevious]
        rfl
      have hle := hf.top p hmem
      have hlength := hf.length_lt
      have hsucc : b.blockNum = p.num + 1 := by omega
      exact ⟨.inl ⟨p, hmem, rfl, hid, hsucc⟩, by omega, by omega⟩

theorem unknown_of_lt (hf : Filed env bs low f) {b : SignedBlock} (hlt : bs.length < b.blockNum) :
    f.fetchBlock (Db.blockId env b) = none := by
  refine List.find?_eq_none.2 fun i hi hid => ?_
  have hle := hf.top i hi
  obtain ⟨hname, hnum⟩ := hf.grown.named i (mem_items_of_index hi)
  have hsame : i.num = b.blockNum := by
    rw [hnum]
    exact congrArg BlockId.num (hname.symm.trans (of_decide_eq_true hid))
  omega

theorem pushBlock_eq_ok {b : SignedBlock} (h : f.pushBlock env b = .ok g) :
    ∃ prev, f.linkTo b = .ok prev ∧
      g = f.insert ⟨f.nextAddr, prev, b.blockNum, Db.blockId env b, b⟩ := by
  simp only [ForkDb.pushBlock, bind_eq_ok, pure_eq_ok] at h
  obtain ⟨prev, hlink, rfl⟩ := h
  exact ⟨prev, hlink, rfl⟩

/-- **A block on top of the chain.**  It is in the index, and the head builds on the chain. -/
theorem append (hf : Filed env bs low f) {b : SignedBlock}
    (hprevious : b.previous = (links env).tip bs) (h : f.pushBlock env b = .ok g) :
    Filed env (bs ++ [b]) low g ∧ (∀ i ∈ g.index, i.num = bs.length + 1 → i.data = b) ∧
      (∃ h, g.head = some h ∧ h.data.previous = (links env).tip bs ∧ h.num = bs.length + 1) ∧
      g.held = f.held := by
  obtain ⟨prev, hlink, rfl⟩ := pushBlock_eq_ok h
  have htip : b.previous.num = bs.length := by
    rw [hprevious]
    exact hf.linked.height_tip
  have hnil : bs = [] → low = 1 := by
    intro hempty
    have hle := hf.low_le
    have hpos := hf.low_pos
    rw [hempty] at hle
    exact le_antisymm hle hpos
  have hzero : b.previous = ⟨0, 0⟩ → low = 1 := by
    intro hzero
    rw [hzero] at htip
    exact hnil (List.length_eq_zero_iff.1 htip.symm)
  have hstart : f.head = none → b.previous = ⟨0, 0⟩ := by
    intro hnone
    rw [hprevious, hf.chain_nil hnone]
    rfl
  obtain ⟨hroot, hpositive, -⟩ := hf.rooted hzero hstart hlink
  have hnum : b.blockNum = bs.length + 1 := by
    have hsucc : b.blockNum = (bs.length + 1) % 2 ^ 32 := by
      rw [← htip]
      rfl
    have hlength := hf.length_lt
    omega
  have hunknown : f.fetchBlock (Db.blockId env b) = none := hf.unknown_of_lt (by omega)
  have hgrown := hf.grown.insert rfl ⟨rfl, rfl⟩ hroot
  generalize hx : (⟨f.nextAddr, prev, b.blockNum, Db.blockId env b, b⟩ : ForkItem) = x at *
  have hxdata : x.data = b := by rw [← hx]
  have hxnum : x.num = bs.length + 1 := by rw [← hx]; exact hnum
  have hxid : x.id = Db.blockId env b := by rw [← hx]
  have hlength : (bs ++ [b]).length = bs.length + 1 := by rw [List.length_append]; rfl
  have hindex : (f.insert x).index = f.index ++ [x] := by
    unfold ForkDb.insert
    rw [hxid, hunknown]
    rfl
  have hcrown : ∀ i ∈ (f.insert x).index, i.num = bs.length + 1 → i.data = b := by
    intro i hi hsame
    rw [hindex] at hi
    rcases List.mem_append.1 hi with hi | hi
    · have hle := hf.top i hi
      omega
    · rw [List.mem_singleton.1 hi]
      exact hxdata
  have hlinked : (links env).Linked (bs ++ [b]) := hf.linked.snoc hprevious hnum
  -- the head is the new item, or a stray head of the same height
  obtain ⟨top, htop, htopPrevious, htopNum, hwhich⟩ : ∃ h, (f.insert x).head = some h ∧
      h.data.previous = (links env).tip bs ∧ h.num = bs.length + 1 ∧ (h = x ∨ Stray env bs f h) := by
    unfold ForkDb.insert
    dsimp only
    split
    · exact ⟨x, rfl, hxdata ▸ hprevious, hxnum, .inl rfl⟩
    · rename_i t ht
      split
      · exact ⟨x, rfl, hxdata ▸ hprevious, hxnum, .inl rfl⟩
      · rename_i hge
        rcases hf.head t ht with ⟨-, hdata⟩ | hstray
        · have hle := (hf.num_le (mem_items_of_head ht) hdata).2
          omega
        · have hhigh := hstray.high
          have htnum : t.num = bs.length + 1 := by omega
          refine ⟨t, rfl, ?_, htnum, .inr hstray⟩
          rw [hstray.previous, htnum, Nat.add_sub_cancel, List.take_length]
  refine ⟨⟨⟨hlinked, hgrown, hf.low_pos, ?_, ?_⟩, ?_, ?_, ?_⟩, hcrown,
    ⟨top, htop, htopPrevious, htopNum⟩, rfl⟩
  · have hle := hf.low_le
    omega
  · intro a ha hle
    rw [hindex]
    rcases List.mem_append.1 ha with ha | ha
    · obtain ⟨i, hi, hdata⟩ := hf.main a ha hle
      exact ⟨i, List.mem_append_left _ hi, hdata⟩
    · exact ⟨x, List.mem_append_right _ List.mem_cons_self, hxdata.trans (List.mem_singleton.1 ha).symm⟩
  · intro i hi
    rw [hindex] at hi
    rcases List.mem_append.1 hi with hi | hi
    · have hle := hf.top i hi
      omega
    · rw [List.mem_singleton.1 hi]
      omega
  · intro hnone
    exact nomatch htop.symm.trans hnone
  · intro t ht
    obtain rfl := Option.some.inj (htop.symm.trans ht)
    rcases hwhich with rfl | hstray
    · refine .inl ⟨?_, ?_⟩
      · rw [hindex]
        exact List.mem_append_right _ List.mem_cons_self
      · rw [hxdata]
        exact List.mem_append_right _ List.mem_cons_self
    · refine .inr ⟨?_, by omega, by omega, ?_⟩
      · rw [htopNum, Nat.add_sub_cancel, List.take_left' rfl]
        exact htopPrevious
      · intro i hi hsame
        rw [hcrown i hi (hsame.trans htopNum)]
        exact List.mem_append_right _ List.mem_cons_self

/-- The head of the fork database does not follow the end of the chain, unless it is higher. -/
theorem head_previous (hf : Filed env bs low f) {top : ForkItem} (htop : f.head = some top)
    (hle : top.num ≤ bs.length) : top.data.previous ≠ (links env).tip bs := by
  intro hprevious
  have hitems := mem_items_of_head htop
  have hheight : top.data.previous.num = bs.length := by
    rw [hprevious]
    exact hf.linked.height_tip
  have hnum := (hf.grown.named top hitems).2
  have hne : top.data.blockNum = (top.data.previous.num + 1) % 2 ^ 32 := rfl
  rcases hf.head top htop with ⟨-, hdata⟩ | hstray
  · have htip := hf.previous_eq hitems hdata
    have hpos := (hf.num_le hitems hdata).1
    have hbelow : ((links env).tip (bs.take (top.num - 1))).num = (bs.take (top.num - 1)).length :=
      (hf.linked.take _).height_tip
    rw [← htip, List.length_take] at hbelow
    omega
  · have hlow := hstray.low
    omega

/-- A block that is not the first one is linked to an item. -/
theorem low_le_of_pushBlock (hf : Filed env bs low f) {b : SignedBlock} {top : ForkItem}
    (htop : f.head = some top) (hfirst : b.previous ≠ ⟨0, 0⟩) (h : f.pushBlock env b = .ok g) :
    low ≤ bs.length := by
  obtain ⟨prev, hlink, -⟩ := pushBlock_eq_ok h
  unfold linkTo at hlink
  rw [htop] at hlink
  simp only [if_neg hfirst, bind_eq_ok, getOrThrow_eq_ok] at hlink
  obtain ⟨_, -, p, hp, -⟩ := hlink
  have hmem : p ∈ f.index := List.mem_of_find?_eq_some hp
  exact (hf.grown.above p hmem).trans (hf.top p hmem)

/-- **A block that is stored** on a branch that is not higher than the head. -/
theorem store (hf : Filed env bs low f) {b : SignedBlock} {top : ForkItem}
    (htop : f.head = some top) (hlow : top.num ≤ bs.length)
    (hle : b.blockNum < top.num ∨ b.blockNum = top.num ∧ top ∈ f.index)
    (hfirst : b.previous ≠ ⟨0, 0⟩) (h : f.pushBlock env b = .ok g) :
    Filed env bs low g ∧ g.head = some top ∧ g.held = f.held := by
  obtain ⟨prev, hlink, rfl⟩ := pushBlock_eq_ok h
  have hstart : f.head = none → b.previous = ⟨0, 0⟩ := by
    intro hnone
    exact nomatch htop.symm.trans hnone
  obtain ⟨hroot, -, -⟩ := hf.rooted (fun hzero => absurd hzero hfirst) hstart hlink
  have hgrown := hf.grown.insert rfl ⟨rfl, rfl⟩ hroot
  generalize hx : (⟨f.nextAddr, prev, b.blockNum, Db.blockId env b, b⟩ : ForkItem) = x at *
  have hput : x.num < top.num ∨ x.num = top.num ∧ top ∈ f.index := by rw [← hx]; exact hle
  have hxnum : x.num ≤ top.num := hput.elim le_of_lt fun heq => heq.1.le
  have hhead : (f.insert x).head = some top := by
    unfold ForkDb.insert
    dsimp only
    rw [htop]
    dsimp only
    rw [if_neg (Nat.not_lt.2 hxnum)]
  have hmono : ∀ i ∈ f.index, i ∈ (f.insert x).index := by
    intro i hi
    unfold ForkDb.insert
    dsimp only
    split
    · exact List.mem_append_left _ hi
    · exact hi
  have hcase : ∀ i ∈ (f.insert x).index, i ∈ f.index ∨ i = x := by
    intro i hi
    unfold ForkDb.insert at hi
    dsimp only at hi
    split at hi
    · rcases List.mem_append.1 hi with hi | hi
      · exact .inl hi
      · exact .inr (List.mem_singleton.1 hi)
    · exact .inl hi
  refine ⟨⟨⟨hf.linked, hgrown, hf.low_pos, hf.low_le, ?_⟩, ?_, ?_, ?_⟩, hhead, rfl⟩
  · intro a ha hle
    obtain ⟨i, hi, hdata⟩ := hf.main a ha hle
    exact ⟨i, hmono i hi, hdata⟩
  · intro i hi
    rcases hcase i hi with hi | rfl
    · exact hf.top i hi
    · exact hxnum.trans hlow
  · intro hnone
    exact nomatch hhead.symm.trans hnone
  · intro t ht
    obtain rfl := Option.some.inj (hhead.symm.trans ht)
    rcases hf.head top htop with ⟨hmem, hdata⟩ | hstray
    · exact .inl ⟨hmono top hmem, hdata⟩
    · rcases hput with hbelow | ⟨-, hmem⟩
      · -- the head is stray, and nothing has come to its height
        refine .inr ⟨hstray.previous, hstray.low, hstray.high, fun i hi hsame => ?_⟩
        rcases hcase i hi with hi | rfl
        · exact hstray.alone i hi hsame
        · omega
      · exact .inl ⟨hmono top hmem, hstray.alone top hmem rfl⟩

/-- **A block under a stray head** that is taken out again. -/
theorem withdraw (hf : Filed env bs low f) {b : SignedBlock} {top : ForkItem}
    (htop : f.head = some top) (hhigh : bs.length < top.num) (hfirst : b.previous ≠ ⟨0, 0⟩)
    (hunknown : f.fetchBlock (Db.blockId env b) = none) (h : f.pushBlock env b = .ok g) :
    g.head = some top ∧ top.data.previous = (links env).tip bs ∧ g.held = f.held ∧
      Filed env bs low (g.remove (Db.blockId env b)) := by
  obtain ⟨prev, hlink, rfl⟩ := pushBlock_eq_ok h
  have hstart : f.head = none → b.previous = ⟨0, 0⟩ := by
    intro hnone
    exact nomatch htop.symm.trans hnone
  obtain ⟨-, -, hnum⟩ := hf.rooted (fun hzero => absurd hzero hfirst) hstart hlink
  have hstray : Stray env bs f top := by
    rcases hf.head top htop with ⟨-, hdata⟩ | hstray
    · have hle := (hf.num_le (mem_items_of_head htop) hdata).2
      omega
    · exact hstray
  have htopnum : top.num = bs.length + 1 := le_antisymm hstray.high hhigh
  have hhead : (f.insert ⟨f.nextAddr, prev, b.blockNum, Db.blockId env b, b⟩).head = some top := by
    unfold ForkDb.insert
    dsimp only
    rw [htop]
    dsimp only
    rw [if_neg (by omega)]
  have hindex : ((f.insert ⟨f.nextAddr, prev, b.blockNum, Db.blockId env b, b⟩).remove
      (Db.blockId env b)).index = f.index := by
    unfold ForkDb.insert ForkDb.remove
    dsimp only
    rw [hunknown, Option.isNone_none, if_pos rfl, List.filter_append, List.filter_singleton,
      decide_eq_false (not_not.2 rfl), cond_false, List.append_nil]
    refine List.filter_eq_self.2 fun i hi => decide_eq_true fun hid => ?_
    exact List.find?_eq_none.1 hunknown i hi (decide_eq_true hid)
  have hsame : (f.insert ⟨f.nextAddr, prev, b.blockNum, Db.blockId env b, b⟩).remove
      (Db.blockId env b) = { f with nextAddr := f.nextAddr + 1 } := by
    have hrest : ∀ u v : ForkDb, u.nextAddr = v.nextAddr → u.index = v.index → u.head = v.head →
        u.maxSize = v.maxSize → u.held = v.held → u = v := by
      rintro ⟨⟩ ⟨⟩ rfl rfl rfl rfl rfl
      rfl
    exact hrest _ _ rfl hindex (hhead.trans htop.symm) rfl rfl
  refine ⟨hhead, ?_, rfl, ?_⟩
  · have hprevious := hstray.previous
    rw [htopnum, Nat.add_sub_cancel, List.take_length] at hprevious
    exact hprevious
  · rw [hsame]
    obtain ⟨hlinked, hgrown, hpos, hle, hmain⟩ := hf.toKept
    refine ⟨⟨hlinked, ⟨hgrown.nodup, hgrown.addrs, fun i hi => ?_, hgrown.named, hgrown.above,
      hgrown.prev, hgrown.wired⟩, hpos, hle, hmain⟩, hf.top, hf.start, fun x hx => ?_⟩
    · exact Nat.lt_succ_of_lt (hgrown.fresh i hi)
    · rcases hf.head x hx with hon | hstray
      · exact .inl hon
      · exact .inr ⟨hstray.previous, hstray.low, hstray.high, hstray.alone⟩

/-- The head moves to its parent. -/
theorem popBlock (hf : Filed env bs low f) {top : ForkItem} (htop : f.head = some top)
    (hmem : top ∈ f.index) (hheld : ∀ i ∈ f.held, i ∈ f.index) (h : f.popBlock = .ok g) :
    Filed env bs low g ∧ (∃ p ∈ f.index, g.head = some p ∧ p.num + 1 = top.num) ∧
      g.index = f.index ∧ g.held = f.held := by
  simp only [ForkDb.popBlock, bind_eq_ok, getOrThrow_eq_ok, pure_eq_ok] at h
  obtain ⟨t, ht, p, hp, rfl⟩ := h
  obtain rfl := Option.some.inj (htop.symm.trans ht)
  have hitems := mem_items_of_head htop
  have hdata : top.data ∈ bs := by
    rcases hf.head top htop with ⟨-, hdata⟩ | hstray
    · exact hdata
    · exact hstray.alone top hmem rfl
  obtain ⟨hpitems, hprev, -, hnum⟩ := hf.grown.pointers.of_lock hitems hp
  have hpindex : p ∈ f.index := by
    rcases mem_items.1 hpitems with hp | hp | hp
    · exact hp
    · obtain rfl := Option.some.inj (htop.symm.trans hp)
      exact hmem
    · exact hheld p hp
  have habove := hf.grown.above p hpindex
  obtain ⟨q, hq, hlock, hqdata, -⟩ :=
    hf.parent hitems (by omega) (hf.head_num htop) (hf.previous_eq hitems hdata)
  obtain rfl := Option.some.inj (hp.symm.trans hlock)
  have hsub : ∀ i ∈ ({ f with head := some p } : ForkDb).items, i ∈ f.items := by
    intro i hi
    rcases mem_items.1 hi with hi | hi | hi
    · exact mem_items_of_index hi
    · exact Option.some.inj hi ▸ hpitems
    · exact mem_items.2 (.inr (.inr hi))
  refine ⟨⟨⟨hf.linked, ?_, hf.low_pos, hf.low_le, hf.main⟩, hf.top, ?_, ?_⟩,
    ⟨p, hpindex, rfl, hnum.symm⟩, rfl, rfl⟩
  · exact hf.grown.sub rfl hsub (List.Sublist.refl _) le_rfl hf.grown.above
      (fun _ _ _ _ hp _ => hp)
  · intro hnone
    cases hnone
  · intro t ht
    cases ht
    exact .inl ⟨hpindex, hqdata⟩

theorem hold {l : List ForkItem} (hf : Filed env bs low f) (hl : ∀ i ∈ l, i ∈ f.index) :
    Filed env bs low (f.hold l) where
  linked := hf.linked
  grown := by
    refine hf.grown.sub rfl ?_ (List.Sublist.refl _) le_rfl hf.grown.above (fun _ _ _ _ hp _ => hp)
    intro i hi
    rcases mem_items.1 hi with hi | hi | hi
    · exact mem_items_of_index hi
    · exact mem_items_of_head hi
    · exact mem_items_of_index (hl i hi)
  low_pos := hf.low_pos
  low_le := hf.low_le
  top := hf.top
  main := hf.main
  start := hf.start
  head h hh := by
    rcases hf.head h hh with hon | hstray
    · exact .inl hon
    · exact .inr ⟨hstray.previous, hstray.low, hstray.high, hstray.alone⟩

end Filed

/-! ## Branches -/

/-- The list goes down from `a` to `z`, every item followed by its parent. -/
inductive Climb (f : ForkDb) : ForkItem → List ForkItem → ForkItem → Prop
  | one {a : ForkItem} : a ∈ f.index → Climb f a [a] a
  | cons {a p z : ForkItem} {l : List ForkItem} : a ∈ f.index → f.lock a = some p →
      Climb f p l z → Climb f a (a :: l) z

namespace Climb

variable {a z : ForkItem} {l : List ForkItem}

theorem mem (h : Climb f a l z) : ∀ i ∈ l, i ∈ f.index := by
  induction h with
  | one ha =>
    intro i hi
    rw [List.mem_singleton.1 hi]
    exact ha
  | cons ha hlock hrest ih =>
    intro i hi
    rcases List.mem_cons.1 hi with rfl | hi
    · exact ha
    · exact ih i hi

theorem last_mem (h : Climb f a l z) : z ∈ l ∧ l.getLast? = some z := by
  induction h with
  | one ha => exact ⟨List.mem_cons_self, rfl⟩
  | @cons a p z l ha hlock hrest ih =>
    refine ⟨List.mem_cons_of_mem _ ih.1, ?_⟩
    rw [List.getLast?_cons, ih.2]
    rfl

theorem first_mem (h : Climb f a l z) : a ∈ l := by
  cases h with
  | one ha => exact List.mem_cons_self
  | cons ha hlock hrest => exact List.mem_cons_self

theorem length (hf : Grown env low f) (h : Climb f a l z) : a.num + 1 = z.num + l.length := by
  induction h with
  | one ha => rfl
  | @cons a p z l ha hlock hrest ih =>
    obtain ⟨-, -, -, hnum⟩ := hf.pointers.of_lock (mem_items_of_index ha) hlock
    rw [List.length_cons]
    omega

/-- From an item of the chain the list stays on the chain. -/
theorem onChain (hf : Kept env bs low f) (h : Climb f a l z) (ha : a.data ∈ bs) :
    ∀ i ∈ l, i.data ∈ bs := by
  induction h with
  | one hindex =>
    intro i hi
    rw [List.mem_singleton.1 hi]
    exact ha
  | @cons a p z l hindex hlock hrest ih =>
    intro i hi
    have hitems := mem_items_of_index hindex
    have habove := hf.grown.above p (hrest.mem p hrest.first_mem)
    obtain ⟨-, -, -, hnum⟩ := hf.grown.pointers.of_lock hitems hlock
    have hhigh := (hf.num_le hitems ha).2
    obtain ⟨q, -, hqlock, hqdata, -⟩ :=
      hf.parent hitems (by omega) (by omega) (hf.previous_eq hitems ha)
    obtain rfl := Option.some.inj (hlock.symm.trans hqlock)
    rcases List.mem_cons.1 hi with rfl | hi
    · exact ha
    · exact ih hqdata i hi

/-- On top of a chain that the lowest item builds on, the list is a chain. -/
theorem linked (hf : Grown env low f) (h : Climb f a l z) (hc : (links env).Linked bs)
    (hprevious : z.data.previous = (links env).tip bs) (hnum : z.num = bs.length + 1) :
    (links env).Linked (bs ++ (l.map (·.data)).reverse) ∧
      (links env).tip (bs ++ (l.map (·.data)).reverse) = a.id := by
  have hbottom (i : ForkItem) (hi : i ∈ f.items) {d : List SignedBlock} (hd : (links env).Linked d)
      (hprev : i.data.previous = (links env).tip d) (hlen : i.num = d.length + 1) :
      (links env).Linked (d ++ [i.data]) ∧ (links env).tip (d ++ [i.data]) = i.id := by
    obtain ⟨hname, hheight⟩ := hf.named i hi
    refine ⟨hd.snoc hprev (hheight.symm.trans hlen), ?_⟩
    rw [Links.tip_snoc]
    exact hname.symm
  induction h with
  | one ha => exact hbottom _ (mem_items_of_index ha) hc hprevious hnum
  | @cons a p z l ha hlock hrest ih =>
    obtain ⟨hlinked, htip⟩ := ih hprevious hnum
    obtain ⟨-, -, hid, hstep⟩ := hf.pointers.of_lock (mem_items_of_index ha) hlock
    rw [List.map_cons, List.reverse_cons, ← List.append_assoc]
    refine hbottom a (mem_items_of_index ha) hlinked (hid.symm.trans htip.symm) ?_
    have hlength := hrest.length hf
    rw [List.length_append, List.length_reverse, List.length_map]
    omega

end Climb

/-- The parents of what is in the index are in the index. -/
def Indexed (f : ForkDb) : Prop := ∀ i ∈ f.index, ∀ p, f.lock i = some p → p ∈ f.index

theorem parent_eq_ok {p : ForkItem} (h : f.parent i = .ok p) : f.lock i = some p := by
  unfold parent at h
  exact (getOrThrow_eq_ok _ _ _).1 h

theorem climbTo_climb (hf : Grown env low f) (hindexed : f.Indexed) {num : Nat} (fuel : Nat)
    {a last : ForkItem} {top : List ForkItem} (ha : a ∈ f.index)
    (h : f.climbTo num fuel a = .ok (top, last)) :
    last ∈ f.index ∧ ∀ l z, Climb f last l z → Climb f a (top ++ l) z := by
  induction fuel generalizing a top with
  | zero => cases h
  | succ fuel ih =>
    unfold climbTo at h
    split at h
    · simp only [bind_eq_ok, pure_eq_ok, Prod.mk.injEq] at h
      obtain ⟨p, hp, ⟨rest, last'⟩, hrest, rfl, rfl⟩ := h
      have hlock := parent_eq_ok hp
      have hpmem := hindexed a ha p hlock
      obtain ⟨hlast, hclimb⟩ := ih hpmem hrest
      exact ⟨hlast, fun l z hl => .cons ha hlock (hclimb l z hl)⟩
    · rw [pure_eq_ok, Prod.mk.injEq] at h
      obtain ⟨rfl, rfl⟩ := h
      exact ⟨ha, fun l z hl => hl⟩

theorem climbBoth_climb (hf : Grown env low f) (hindexed : f.Indexed) (fuel : Nat)
    {a b : ForkItem} {ra rb : List ForkItem} (ha : a ∈ f.index) (hb : b ∈ f.index)
    (h : f.climbBoth fuel a b = .ok (ra, rb)) :
    ∃ y z, Climb f a ra y ∧ Climb f b rb z ∧ y.data.previous = z.data.previous := by
  induction fuel generalizing a b ra rb with
  | zero => cases h
  | succ fuel ih =>
    unfold climbBoth at h
    split at h
    · simp only [bind_eq_ok, pure_eq_ok, Prod.mk.injEq] at h
      obtain ⟨p, hp, q, hq, ⟨restA, restB⟩, hrest, rfl, rfl⟩ := h
      have hlockA := parent_eq_ok hp
      have hlockB := parent_eq_ok hq
      have hpmem := hindexed a ha p hlockA
      have hqmem := hindexed b hb q hlockB
      obtain ⟨y, z, hy, hz, hsame⟩ := ih hpmem hqmem hrest
      exact ⟨y, z, .cons ha hlockA hy, .cons hb hlockB hz, hsame⟩
    · rename_i hsame
      rw [pure_eq_ok, Prod.mk.injEq] at h
      obtain ⟨rfl, rfl⟩ := h
      exact ⟨a, b, .one ha, .one hb, not_not.1 hsame⟩

/-- **Two branches** lead down to children of one block. -/
theorem fetchBranchFrom_climb (hf : Grown env low f) (hindexed : f.Indexed) {first second : BlockId}
    {l l' : List ForkItem} (h : f.fetchBranchFrom first second = .ok (l, l')) :
    ∃ a ∈ f.index, ∃ b ∈ f.index, a.id = first ∧ b.id = second ∧
      ∃ y z, Climb f a l y ∧ Climb f b l' z ∧ y.data.previous = z.data.previous := by
  simp only [fetchBranchFrom, bind_eq_ok, getOrThrow_eq_ok, pure_eq_ok, Prod.mk.injEq] at h
  obtain ⟨a, ha, b, hb, ⟨topA, a'⟩, hclimbA, ⟨topB, b'⟩, hclimbB, ⟨ra, rb⟩, hboth, rfl, rfl⟩ := h
  have hamem : a ∈ f.index := List.mem_of_find?_eq_some ha
  have hbmem : b ∈ f.index := List.mem_of_find?_eq_some hb
  have hafound := List.find?_some ha
  have hbfound := List.find?_some hb
  obtain ⟨ha', hdownA⟩ := climbTo_climb hf hindexed _ hamem hclimbA
  obtain ⟨hb', hdownB⟩ := climbTo_climb hf hindexed _ hbmem hclimbB
  obtain ⟨y, z, hy, hz, hsame⟩ := climbBoth_climb hf hindexed _ ha' hb' hboth
  exact ⟨a, hamem, b, hbmem, of_decide_eq_true hafound, of_decide_eq_true hbfound, y, z,
    hdownA _ _ hy, hdownB _ _ hz, hsame⟩

/-- A stray head is nobody's parent. -/
theorem Filed.indexed (hf : Filed env bs low f) (hheld : f.held = []) : f.Indexed := by
  intro i hi p hlock
  have hitems := mem_items_of_index hi
  obtain ⟨hp, -, -, hnum⟩ := hf.grown.pointers.of_lock hitems hlock
  rcases mem_items.1 hp with hp | hp | hp
  · exact hp
  · rcases hf.head p hp with ⟨hindex, -⟩ | hstray
    · exact hindex
    · have htop := hf.top i hi
      have hlow := hstray.low
      omega
  · rw [hheld] at hp
    exact absurd hp List.not_mem_nil

/-- **Where a branch and the chain part**, the branch goes on as a chain. -/
theorem Kept.parting (hf : Kept env bs low g) (hindexed : g.Indexed) (hlow : low ≤ bs.length)
    {x : ForkItem} (hx : x ∈ g.index) {first second : List ForkItem}
    (h : g.fetchBranchFrom x.id ((links env).tip bs) = .ok (first, second)) :
    ∃ k z, second.getLast? = some z ∧ z.data.previous = (links env).tip (bs.take k) ∧
      k < bs.length ∧ k + first.length = x.num ∧ (∀ i ∈ first ++ second, i ∈ g.index) ∧ x ∈ first ∧
      (links env).Linked (bs.take k ++ (first.map (·.data)).reverse) := by
  obtain ⟨a, ha, t, ht, haid, htid, y, z, hy, hz, hsame⟩ :=
    fetchBranchFrom_climb hf.grown hindexed h
  obtain rfl := hf.grown.eq_of_id ha hx haid
  have hpos := hf.low_pos
  -- the other branch starts at the tip of the chain
  have htdata : t.data ∈ bs := by
    obtain ⟨m, hm, hmdata, -, hmget⟩ := hf.item hlow le_rfl
    have hmid : m.id = (links env).tip bs := by
      rw [(hf.grown.named m (mem_items_of_index hm)).1]
      exact (Links.tip_of_length (L := links env) hmget (by omega)).symm
    rw [← hf.grown.eq_of_id hm ht (hmid.trans htid.symm)]
    exact hmdata
  have hzdata : z.data ∈ bs := hz.onChain hf htdata z hz.last_mem.1
  have hzitems := mem_items_of_index (hz.mem z hz.last_mem.1)
  have hyitems := mem_items_of_index (hy.mem y hy.last_mem.1)
  obtain ⟨hzpos, hzle⟩ := hf.num_le hzitems hzdata
  have hzprevious := hf.previous_eq hzitems hzdata
  have hynum : y.num = z.num := by
    rw [hf.num_eq hyitems, hf.num_eq hzitems]
    show (y.data.previous.num + 1) % 2 ^ 32 = (z.data.previous.num + 1) % 2 ^ 32
    rw [hsame]
  have hbase : (bs.take (z.num - 1)).length = z.num - 1 := by
    rw [List.length_take]
    omega
  have hlength := hy.length hf.grown
  obtain ⟨hlinked, -⟩ := hy.linked hf.grown (hf.linked.take (z.num - 1))
    (hsame.trans hzprevious) (by omega)
  refine ⟨z.num - 1, z, hz.last_mem.2, hzprevious, by omega, by omega, ?_, hy.first_mem, hlinked⟩
  intro i hi
  rcases List.mem_append.1 hi with hi | hi
  · exact hy.mem i hi
  · exact hz.mem i hi

/-- A block above the chain becomes the head; the chain is still kept. -/
theorem Filed.topped (hf : Filed env bs low f) {b : SignedBlock} {top : ForkItem}
    (htop : f.head = some top) (htopnum : top.num ≤ bs.length) (hheld : f.held = [])
    (hfirst : b.previous ≠ ⟨0, 0⟩) (hlt : bs.length < b.blockNum)
    (h : f.pushBlock env b = .ok g) :
    ∃ x, g.index = f.index ++ [x] ∧ g.head = some x ∧ x.data = b ∧ x.num = bs.length + 1 ∧
      Kept env bs low g ∧ g.Indexed := by
  obtain ⟨prev, hlink, rfl⟩ := pushBlock_eq_ok h
  have hstart : f.head = none → b.previous = ⟨0, 0⟩ := by
    intro hnone
    exact nomatch htop.symm.trans hnone
  obtain ⟨hroot, -, hle⟩ := hf.rooted (fun hzero => absurd hzero hfirst) hstart hlink
  have hunknown : f.fetchBlock (Db.blockId env b) = none := hf.unknown_of_lt hlt
  have hgrown := hf.grown.insert rfl ⟨rfl, rfl⟩ hroot
  generalize hx : (⟨f.nextAddr, prev, b.blockNum, Db.blockId env b, b⟩ : ForkItem) = x at *
  have hxdata : x.data = b := by rw [← hx]
  have hxnum : x.num = bs.length + 1 := by
    rw [← hx]
    exact le_antisymm hle hlt
  have hxid : x.id = Db.blockId env b := by rw [← hx]
  have hindex : (f.insert x).index = f.index ++ [x] := by
    unfold ForkDb.insert
    rw [hxid, hunknown]
    rfl
  have hhead : (f.insert x).head = some x := by
    unfold ForkDb.insert
    dsimp only
    rw [htop]
    dsimp only
    rw [if_pos (by omega)]
  have hxmem : x ∈ (f.insert x).index := by
    rw [hindex]
    exact List.mem_append_right _ List.mem_cons_self
  refine ⟨x, hindex, hhead, hxdata, hxnum, ?_, ?_⟩
  · refine ⟨hf.linked, hgrown, hf.low_pos, hf.low_le, fun a ha hle => ?_⟩
    obtain ⟨i, hi, hdata⟩ := hf.main a ha hle
    rw [hindex]
    exact ⟨i, List.mem_append_left _ hi, hdata⟩
  · intro j hj i hlock
    have hi := (hgrown.pointers.of_lock (mem_items_of_index hj) hlock).1
    rcases mem_items.1 hi with hi | hi | hi
    · exact hi
    · rw [hhead] at hi
      exact Option.some.inj hi ▸ hxmem
    · change i ∈ f.held at hi
      rw [hheld] at hi
      exact absurd hi List.not_mem_nil

/-- **A block on a branch that gets higher than the chain.**  Where its branch and the chain
part, the branch goes on as a chain that is filed. -/
theorem Filed.switch (hf : Filed env bs low f) {b : SignedBlock} {top : ForkItem}
    (htop : f.head = some top) (htopnum : top.num ≤ bs.length) (hheld : f.held = [])
    (hfirst : b.previous ≠ ⟨0, 0⟩) (hlt : bs.length < b.blockNum)
    (h : f.pushBlock env b = .ok g) :
    ∃ x ∈ g.index, g.head = some x ∧ x.data = b ∧ x.num = bs.length + 1 ∧
      ∀ first second, g.fetchBranchFrom x.id ((links env).tip bs) = .ok (first, second) →
        ∃ k z, second.getLast? = some z ∧ z.data.previous = (links env).tip (bs.take k) ∧
          k < bs.length ∧ k + first.length = bs.length + 1 ∧ (∀ i ∈ first ++ second, i ∈ g.index) ∧
          Filed env (bs.take k ++ (first.map (·.data)).reverse) low (g.hold (first ++ second)) := by
  have hlow := hf.low_le_of_pushBlock htop hfirst h
  obtain ⟨x, hindex, hhead, hxdata, hxnum, hkept, hindexed⟩ :=
    hf.topped htop htopnum hheld hfirst hlt h
  have hxmem : x ∈ g.index := by
    rw [hindex]
    exact List.mem_append_right _ List.mem_cons_self
  refine ⟨x, hxmem, hhead, hxdata, hxnum, fun first second hbranch => ?_⟩
  obtain ⟨k, z, hlast, hprevious, hk, hlength, hboth, hxfirst, hlinked⟩ :=
    hkept.parting hindexed hlow hxmem hbranch
  have htarget : (bs.take k ++ (first.map (·.data)).reverse).length = bs.length + 1 := by
    rw [List.length_append, List.length_take, List.length_reverse, List.length_map]
    omega
  refine ⟨k, z, hlast, hprevious, hk, by omega, hboth, ?_⟩
  refine Filed.hold ⟨⟨hlinked, hkept.grown, hf.low_pos, ?_, ?_⟩, ?_, ?_, ?_⟩ hboth
  · have hle := hf.low_le
    omega
  · intro d hd hle
    rcases List.mem_append.1 hd with hd | hd
    · exact hkept.main d (List.mem_of_mem_take hd) hle
    · obtain ⟨i, hi, rfl⟩ := List.mem_map.1 (List.mem_reverse.1 hd)
      exact ⟨i, hboth i (List.mem_append_left _ hi), rfl⟩
  · intro i hi
    rw [hindex] at hi
    rcases List.mem_append.1 hi with hi | hi
    · have hle := hf.top i hi
      omega
    · rw [List.mem_singleton.1 hi]
      omega
  · intro hnone
    exact nomatch hhead.symm.trans hnone
  · intro t ht
    obtain rfl := Option.some.inj (hhead.symm.trans ht)
    refine .inl ⟨hxmem, List.mem_append_right _ (List.mem_reverse.2 ?_)⟩
    exact List.mem_map_of_mem hxfirst

end ForkDb

end VizCore.Chain
