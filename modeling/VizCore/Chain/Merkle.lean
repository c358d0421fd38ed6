import VizCore.Chain.Store

/-!
# The Merkle root of a block

The root is computed in place: every level of the tree is written over the one that it is made
from, and the digest without a partner is copied behind the pairs.

* `calculateMerkleRootLoop_eq`: the loop computes the root of the tree;
* `digests_of_root_eq`: equal roots come from equal digests, unless two different pairs that were
  hashed have the same hash;
* `calculateMerkleRootLoop_huge`: with 2^32 transactions the loop does not end.
-/

namespace VizCore.Chain

open VizCore.Lib VizCore.Protocol

/-! ## The loop -/

/-- Counters of the loop are `uint32_t`. -/
def uint32 (n : Nat) : Nat := n % 2 ^ 32

def writeAt (ids : List Nat) (k : Nat) (x : Nat) : Option (List Nat) :=
  if k < ids.length then some (ids.set k x) else none

/-- `ids[i] = transactions[i].merkle_digest()`, from `i` on. -/
def fillIds (digests : List Nat) : Nat → Nat → List Nat → Option (List Nat)
  | 0, _, _ => none
  | fuel + 1, i, ids =>
    if i < digests.length then do
      let x ← digests[i]?
      let ids ← writeAt ids i x
      fillIds digests fuel (uint32 (i + 1)) ids
    else some ids

/-- `ids[k++] = digest_type::hash(std::make_pair(ids[i], ids[i + 1]))`, from `i` up to `iMax`. -/
def hashPairs (hashPair : Nat → Nat → Nat) (iMax : Nat) :
    Nat → Nat → Nat → List Nat → Option (Nat × List Nat)
  | 0, _, _, _ => none
  | fuel + 1, i, k, ids =>
    if i < iMax then do
      let x ← ids[i]?
      let y ← ids[uint32 (i + 1)]?
      let ids ← writeAt ids k (hashPair x y)
      hashPairs hashPair iMax fuel (uint32 (i + 2)) (uint32 (k + 1)) ids
    else some (k, ids)

/-- `while (current_number_of_hashes > 1)` -/
def reduceIds (hashPair : Nat → Nat → Nat) : Nat → Nat → List Nat → Option (List Nat)
  | 0, _, _ => none
  | fuel + 1, currentNumberOfHashes, ids =>
    if 1 < currentNumberOfHashes then do
      let iMax := uint32 (currentNumberOfHashes - currentNumberOfHashes % 2)
      let (k, ids) ← hashPairs hashPair iMax fuel 0 0 ids
      if currentNumberOfHashes % 2 = 1 then do
        let x ← ids[iMax]?
        let ids ← writeAt ids k x
        reduceIds hashPair fuel (uint32 (k + 1)) ids
      else reduceIds hashPair fuel k ids
    else some ids

/-- `calculate_merkle_root` as it is written.  There is no result when a loop does not end within
the fuel. -/
def calculateMerkleRootLoop (env : Env) (fuel : Nat) (b : SignedBlock) : Option Nat :=
  if b.transactions.length = 0 then some 0
  else do
    let digests := b.transactions.map env.merkleDigest
    let ids ← fillIds digests fuel 0 (List.replicate digests.length 0)
    let ids ← reduceIds env.hashPair fuel ids.length ids
    let root ← ids[0]?
    pure (env.checksum root)

/-! ## The levels of the tree -/

section Levels

variable (hashPair : Nat → Nat → Nat)

/-- The digest without a partner. -/
def carried : List Nat → List Nat
  | _ :: _ :: rest => carried rest
  | l => l

/-- The hashes of the pairs. -/
def fullPairs : List Nat → List Nat
  | x :: y :: rest => hashPair x y :: fullPairs rest
  | _ => []

theorem pairDigests_eq (l : List Nat) : pairDigests hashPair l = fullPairs hashPair l ++ carried l := by
  induction l using pairDigests.induct with
  | case1 => rfl
  | case2 x => rfl
  | case3 x y rest ih =>
    rw [pairDigests, ih]
    rfl

theorem length_fullPairs (l : List Nat) : (fullPairs hashPair l).length = l.length / 2 := by
  induction l using pairDigests.induct with
  | case1 => rfl
  | case2 x =>
    rw [List.length_singleton]
    rfl
  | case3 x y rest ih =>
    rw [fullPairs, List.length_cons, ih]
    simp only [List.length_cons]
    omega

theorem length_carried (l : List Nat) : (carried l).length = l.length % 2 := by
  induction l using pairDigests.induct with
  | case1 => rfl
  | case2 x => rfl
  | case3 x y rest ih =>
    rw [carried, ih]
    simp only [List.length_cons]
    omega

theorem merkleFold_level {l : List Nat} (h : 1 < l.length) :
    merkleFold hashPair l = merkleFold hashPair (pairDigests hashPair l) := by
  cases l with
  | nil => exact absurd h (by simp)
  | cons x l =>
    cases l with
    | nil => exact absurd h (by simp)
    | cons y rest => rw [merkleFold, pairDigests]

end Levels

/-! ## What the loop computes -/

theorem uint32_of_lt {n : Nat} (h : n < 2 ^ 32) : uint32 n = n := Nat.mod_eq_of_lt h

theorem writeAt_append {done : List Nat} {a : Nat} {rest : List Nat} (x : Nat) :
    writeAt (done ++ a :: rest) done.length x = some (done ++ x :: rest) := by
  unfold writeAt
  rw [if_pos (by simp), List.set_append_right _ _ (Nat.le_refl _), Nat.sub_self, List.set_cons_zero]

theorem getElem?_append_length (done : List Nat) (a : Nat) (rest : List Nat) :
    (done ++ a :: rest)[done.length]? = some a := by
  rw [List.getElem?_append_right (Nat.le_refl _), Nat.sub_self, List.getElem?_cons_zero]

/-- The first loop copies the digests. -/
theorem fillIds_eq (fuel : Nat) (todo done old : List Nat)
    (hfuel : todo.length < fuel) (hold : old.length = todo.length)
    (hsize : done.length + todo.length < 2 ^ 32) :
    fillIds (done ++ todo) fuel done.length (done ++ old) = some (done ++ todo) := by
  induction todo generalizing fuel done old with
  | nil =>
    obtain rfl := List.length_eq_zero_iff.1 hold
    cases fuel with
    | zero => exact absurd hfuel (Nat.lt_irrefl 0)
    | succ fuel =>
      unfold fillIds
      rw [List.append_nil, if_neg (Nat.lt_irrefl _)]
  | cons x todo ih =>
    cases fuel with
    | zero => exact absurd hfuel (Nat.not_lt_zero _)
    | succ fuel =>
      cases old with
      | nil => cases hold
      | cons a old =>
        rw [List.length_cons] at hfuel hsize
        rw [List.length_cons, List.length_cons, Nat.add_right_cancel_iff] at hold
        have hnext := ih fuel (done ++ [x]) old (Nat.lt_of_succ_lt_succ hfuel) hold
          (by rw [List.length_append, List.length_singleton]; omega)
        rw [List.length_append, List.length_singleton, List.append_assoc, List.append_assoc,
          List.singleton_append, List.singleton_append] at hnext
        unfold fillIds
        rw [if_pos (by simp), getElem?_append_length, Option.bind_eq_bind, Option.bind_some,
          writeAt_append, Option.bind_eq_bind, Option.bind_some,
          uint32_of_lt (by omega), hnext]

/-- The inner loop writes the hashes of the pairs behind those that it has written, over digests
that it has read. -/
theorem hashPairs_eq (hashPair : Nat → Nat → Nat) (fuel iMax : Nat) (todo done read old : List Nat)
    (hfuel : todo.length / 2 < fuel)
    (hmax : iMax = done.length + read.length + 2 * (todo.length / 2))
    (hsize : done.length + read.length + todo.length < 2 ^ 32) :
    ∃ read', hashPairs hashPair iMax fuel (done.length + read.length) done.length
        (done ++ (read ++ (todo ++ old))) =
      some (done.length + todo.length / 2,
        done ++ fullPairs hashPair todo ++ (read' ++ (carried todo ++ old))) ∧
      done.length + todo.length / 2 + read'.length = iMax := by
  have hlast : ∀ (fuel : Nat) (todo done read : List Nat), 0 < fuel →
      todo.length / 2 = 0 → iMax = done.length + read.length + 2 * (todo.length / 2) →
      hashPairs hashPair iMax fuel (done.length + read.length) done.length
        (done ++ (read ++ (todo ++ old))) =
      some (done.length, done ++ (read ++ (todo ++ old))) := by
    intro fuel todo done read hpos hzero hend
    obtain ⟨steps, rfl⟩ := Nat.exists_eq_succ_of_ne_zero hpos.ne'
    unfold hashPairs
    rw [if_neg (by omega)]
  induction todo using pairDigests.induct generalizing fuel done read with
  | case1 =>
    have hrun := hlast fuel [] done read (by omega) rfl hmax
    refine ⟨read, ?_, ?_⟩
    · rw [hrun]
      simp [fullPairs, carried]
    · rw [hmax]
      rfl
  | case2 x =>
    have hrun := hlast fuel [x] done read (by omega) (by simp) hmax
    refine ⟨read, ?_, ?_⟩
    · rw [hrun]
      simp [fullPairs, carried]
    · rw [hmax]
      simp
  | case3 x y rest ih =>
    simp only [List.length_cons] at hfuel hmax hsize
    cases fuel with
    | zero => exact absurd hfuel (Nat.not_lt_zero _)
    | succ fuel =>
      -- the entry at `k` is the oldest one that has been read, or `x` itself
      obtain ⟨a, rest', hfirst⟩ : ∃ a rest', read ++ [x, y] = a :: rest' := by
        cases read with
        | nil => exact ⟨x, [y], rfl⟩
        | cons a read => exact ⟨a, read ++ [x, y], rfl⟩
      have hlength : rest'.length = read.length + 1 := by
        have hcount := congrArg List.length hfirst
        simp only [List.length_append, List.length_cons, List.length_nil] at hcount
        omega
      have hlist : read ++ (x :: y :: rest ++ old) = a :: (rest' ++ (rest ++ old)) := by
        rw [← List.cons_append, ← hfirst, List.append_assoc]
        rfl
      have hx : (done ++ (read ++ (x :: y :: rest ++ old)))[done.length + read.length]? =
          some x := by
        rw [← List.append_assoc, ← List.length_append]
        exact getElem?_append_length _ _ _
      have hy : (done ++ (read ++ (x :: y :: rest ++ old)))[done.length + read.length + 1]? =
          some y := by
        have hsplit : done ++ (read ++ (x :: y :: rest ++ old)) =
            (done ++ read ++ [x]) ++ y :: (rest ++ old) := by
          simp
        have hpos : done.length + read.length + 1 = (done ++ read ++ [x]).length := by
          simp only [List.length_append, List.length_singleton]
        rw [hsplit, hpos]
        exact getElem?_append_length _ _ _
      obtain ⟨read', hrest, hread'⟩ := ih fuel (done ++ [hashPair x y]) rest' (by omega)
        (by simp only [List.length_append, List.length_singleton]; omega)
        (by simp only [List.length_append, List.length_singleton]; omega)
      have hnext : done.length + read.length + 2 =
          (done ++ [hashPair x y]).length + rest'.length := by
        rw [List.length_append, List.length_singleton, hlength]
        omega
      have hdone : done.length + 1 = (done ++ [hashPair x y]).length := by
        rw [List.length_append, List.length_singleton]
      have hids : done ++ hashPair x y :: (rest' ++ (rest ++ old)) =
          (done ++ [hashPair x y]) ++ (rest' ++ (rest ++ old)) := by
        rw [List.append_assoc, List.singleton_append]
      refine ⟨read', ?_, ?_⟩
      · unfold hashPairs
        rw [if_pos (by omega)]
        simp only [Option.bind_eq_bind]
        rw [hx, Option.bind_some, uint32_of_lt (by omega), hy, Option.bind_some, hlist,
          writeAt_append, Option.bind_some, uint32_of_lt (by omega), uint32_of_lt (by omega),
          hnext, hdone, hids, hrest, fullPairs, carried]
        simp only [List.length_append, List.length_cons, List.length_nil, List.append_assoc,
          List.nil_append, List.cons_append, Option.some.injEq, Prod.mk.injEq, and_true]
        omega
      · simp only [List.length_append, List.length_cons, List.length_nil] at hread' ⊢
        omega

/-- A level of the tree takes the place of the one below it. -/
theorem reduceIds_level (hashPair : Nat → Nat → Nat) {fuel : Nat} {level : List Nat}
    (old : List Nat) (hone : 1 < level.length) (hfuel : level.length ≤ fuel)
    (hsize : level.length < 2 ^ 32) :
    ∃ old', reduceIds hashPair (fuel + 1) level.length (level ++ old) =
      reduceIds hashPair fuel (pairDigests hashPair level).length
        (pairDigests hashPair level ++ old') := by
  have hmax : uint32 (level.length - level.length % 2) = 2 * (level.length / 2) := by
    rw [uint32_of_lt (by omega)]
    omega
  obtain ⟨read, hrun, hread⟩ := hashPairs_eq hashPair fuel (2 * (level.length / 2))
    level [] [] old (by omega) (by simp) (by simpa using hsize)
  simp only [List.length_nil, List.nil_append, Nat.zero_add] at hrun hread
  conv =>
    enter [1, old', 1]
    unfold reduceIds
  rw [if_pos hone]
  simp only [hmax, Option.bind_eq_bind]
  rw [hrun]
  simp only [Option.bind_some]
  rw [pairDigests_eq, List.length_append, length_fullPairs, length_carried]
  split
  · rename_i hodd
    obtain ⟨x, hx⟩ := List.length_eq_one_iff.1 ((length_carried level).trans hodd)
    obtain ⟨a, rest, hfirst⟩ : ∃ a rest, read ++ x :: old = a :: rest := by
      cases read with
      | nil => exact ⟨x, old, rfl⟩
      | cons a read => exact ⟨a, read ++ x :: old, rfl⟩
    have hget : (fullPairs hashPair level ++ (read ++ ([x] ++ old)))[2 * (level.length / 2)]? =
        some x := by
      have hpos : 2 * (level.length / 2) = (fullPairs hashPair level ++ read).length := by
        rw [List.length_append, length_fullPairs, hread]
      rw [hpos, ← List.append_assoc]
      exact getElem?_append_length _ _ _
    have hwrite : writeAt (fullPairs hashPair level ++ (read ++ ([x] ++ old)))
        (level.length / 2) x = some (fullPairs hashPair level ++ x :: rest) := by
      rw [List.singleton_append, hfirst, ← length_fullPairs hashPair level]
      exact writeAt_append x
    refine ⟨rest, ?_⟩
    rw [hx, hget, Option.bind_some, hwrite, Option.bind_some, uint32_of_lt (by omega), hodd,
      List.append_assoc, List.singleton_append]
  · rename_i heven
    have hzero : level.length % 2 = 0 := by omega
    refine ⟨read ++ old, ?_⟩
    rw [List.length_eq_zero_iff.1 ((length_carried level).trans hzero), hzero, List.append_nil,
      List.nil_append, Nat.add_zero]

/-- **The outer loop** leaves the root of the tree in front. -/
theorem reduceIds_eq (hashPair : Nat → Nat → Nat) (fuel : Nat) (level old : List Nat)
    (hne : level ≠ []) (hfuel : level.length < fuel) (hsize : level.length < 2 ^ 32) :
    ∃ old', reduceIds hashPair fuel level.length (level ++ old) =
      some (merkleFold hashPair level :: old') := by
  induction fuel generalizing level old with
  | zero => exact absurd hfuel (Nat.not_lt_zero _)
  | succ fuel ih =>
    have hpos : 0 < level.length := List.length_pos_iff.2 hne
    by_cases hone : 1 < level.length
    · obtain ⟨old', hlevel⟩ := reduceIds_level hashPair old hone (Nat.le_of_lt_succ hfuel) hsize
      have hlength : (pairDigests hashPair level).length = level.length / 2 + level.length % 2 := by
        rw [pairDigests_eq, List.length_append, length_fullPairs, length_carried]
      have hne' : pairDigests hashPair level ≠ [] := by
        intro hnil
        rw [hnil, List.length_nil] at hlength
        omega
      rw [hlevel, merkleFold_level hashPair hone]
      exact ih _ old' hne' (by omega) (by omega)
    · obtain ⟨x, rfl⟩ := List.length_eq_one_iff.1 (show level.length = 1 by omega)
      refine ⟨old, ?_⟩
      unfold reduceIds
      rw [if_neg hone, merkleFold, List.singleton_append]

/-- **The loop** computes the root of the tree. -/
theorem calculateMerkleRootLoop_eq (env : Env) {fuel : Nat} {b : SignedBlock}
    (hsize : b.transactions.length < 2 ^ 32) (hfuel : b.transactions.length < fuel) :
    calculateMerkleRootLoop env fuel b = some (calculateMerkleRoot env b) := by
  unfold calculateMerkleRootLoop calculateMerkleRoot
  by_cases hnil : b.transactions = []
  · rw [if_pos (by rw [hnil]; rfl), if_pos hnil]
  · have hlength : (b.transactions.map env.merkleDigest).length = b.transactions.length :=
      List.length_map ..
    rw [if_neg fun h => hnil (List.length_eq_zero_iff.1 h), if_neg hnil]
    generalize b.transactions.map env.merkleDigest = digests at *
    have hne : digests ≠ [] := by
      rintro rfl
      exact hnil (List.length_eq_zero_iff.1 hlength.symm)
    have hfill := fillIds_eq fuel digests [] (List.replicate digests.length 0) (by omega)
      List.length_replicate (by simpa [hlength] using hsize)
    simp only [List.nil_append, List.length_nil] at hfill
    obtain ⟨old, hreduce⟩ := reduceIds_eq env.hashPair fuel digests [] hne (by omega) (by omega)
    rw [List.append_nil] at hreduce
    simp only [hfill, hreduce, Option.bind_eq_bind, Option.bind_some, List.getElem?_cons_zero,
      Option.pure_def]

/-- With 2^32 transactions the counter of the first loop starts over. -/
theorem calculateMerkleRootLoop_huge (env : Env) (fuel : Nat) {b : SignedBlock}
    (hsize : 2 ^ 32 ≤ b.transactions.length) : calculateMerkleRootLoop env fuel b = none := by
  have hfill : ∀ (digests ids : List Nat) (i : Nat), i < 2 ^ 32 → 2 ^ 32 ≤ digests.length →
      fillIds digests fuel i ids = none := by
    induction fuel with
    | zero =>
      intro digests ids i hi hdigests
      rfl
    | succ fuel ih =>
      intro digests ids i hi hdigests
      unfold fillIds
      rw [if_pos (by omega), List.getElem?_eq_getElem (by omega)]
      simp only [Option.bind_eq_bind, Option.bind_some]
      cases hwrite : writeAt ids i digests[i] with
      | none => rfl
      | some ids' => exact ih digests ids' _ (Nat.mod_lt _ (by decide)) hdigests
  unfold calculateMerkleRootLoop
  rw [if_neg (by omega)]
  simp only [Option.bind_eq_bind]
  rw [hfill _ _ 0 (by decide) (by rw [List.length_map]; exact hsize), Option.bind_none]

/-! ## Equal roots -/

/-- The pairs that are hashed for the next level. -/
def levelPairs : List Nat → List (Nat × Nat)
  | x :: y :: rest => (x, y) :: levelPairs rest
  | _ => []

/-- The pairs that are hashed for the root. -/
def hashedPairs (hashPair : Nat → Nat → Nat) : List Nat → List (Nat × Nat)
  | x :: y :: rest =>
    levelPairs (x :: y :: rest) ++ hashedPairs hashPair (hashPair x y :: pairDigests hashPair rest)
  | _ => []
termination_by l => l.length
decreasing_by
  have := length_pairDigests_le hashPair rest
  simp only [List.length_cons]
  omega

/-- No two different values that are hashed for the two roots have the same hash. -/
structure CollisionFree (env : Env) (digests digests' : List Nat) : Prop where
  pairs : ∀ p ∈ hashedPairs env.hashPair digests, ∀ q ∈ hashedPairs env.hashPair digests',
    env.hashPair p.1 p.2 = env.hashPair q.1 q.2 → p = q
  root : env.checksum (merkleFold env.hashPair digests) =
    env.checksum (merkleFold env.hashPair digests') →
      merkleFold env.hashPair digests = merkleFold env.hashPair digests'

theorem hashedPairs_level (hashPair : Nat → Nat → Nat) {l : List Nat} (h : 1 < l.length) :
    hashedPairs hashPair l = levelPairs l ++ hashedPairs hashPair (pairDigests hashPair l) := by
  cases l with
  | nil => exact absurd h (by simp)
  | cons x l =>
    cases l with
    | nil => exact absurd h (by simp)
    | cons y rest =>
      rw [hashedPairs]
      rfl

/-- Equal levels are made from equal levels. -/
theorem pairDigests_inj (hashPair : Nat → Nat → Nat) (l l' : List Nat)
    (hlength : l.length = l'.length)
    (hfree : ∀ p ∈ levelPairs l, ∀ q ∈ levelPairs l',
      hashPair p.1 p.2 = hashPair q.1 q.2 → p = q)
    (h : pairDigests hashPair l = pairDigests hashPair l') : l = l' := by
  induction l using pairDigests.induct generalizing l' with
  | case1 => exact (List.length_eq_zero_iff.1 hlength.symm).symm
  | case2 x =>
    obtain ⟨x', rfl⟩ := List.length_eq_one_iff.1 hlength.symm
    exact h
  | case3 x y rest ih =>
    cases l' with
    | nil => cases hlength
    | cons x' l' =>
      cases l' with
      | nil => cases hlength
      | cons y' rest' =>
        rw [pairDigests, pairDigests] at h
        obtain ⟨hhash, hrest⟩ := List.cons.inj h
        have hpair := hfree (x, y) List.mem_cons_self (x', y') List.mem_cons_self hhash
        have htail := ih rest' (by simpa using hlength)
          (fun p hp q hq => hfree p (List.mem_cons_of_mem _ hp) q (List.mem_cons_of_mem _ hq)) hrest
        cases hpair
        rw [htail]

/-- Equal roots of trees of one size come from equal leaves. -/
theorem merkleFold_inj (hashPair : Nat → Nat → Nat) (n : Nat) (l l' : List Nat)
    (hn : l.length = n) (hn' : l'.length = n)
    (hfree : ∀ p ∈ hashedPairs hashPair l, ∀ q ∈ hashedPairs hashPair l',
      hashPair p.1 p.2 = hashPair q.1 q.2 → p = q)
    (h : merkleFold hashPair l = merkleFold hashPair l') : l = l' := by
  induction n using Nat.strong_induction_on generalizing l l' with
  | _ n ih =>
    by_cases hone : 1 < n
    · have hlevel {m : List Nat} (hm : m.length = n) :
          (pairDigests hashPair m).length = n / 2 + n % 2 := by
        rw [pairDigests_eq, List.length_append, length_fullPairs, length_carried, hm]
      have hl : 1 < l.length := by omega
      have hl' : 1 < l'.length := by omega
      rw [merkleFold_level hashPair hl, merkleFold_level hashPair hl'] at h
      rw [hashedPairs_level hashPair hl, hashedPairs_level hashPair hl'] at hfree
      have hnext := ih (n / 2 + n % 2) (by omega) _ _ (hlevel hn) (hlevel hn')
        (fun p hp q hq => hfree p (List.mem_append_right _ hp) q (List.mem_append_right _ hq)) h
      exact pairDigests_inj hashPair l l' (hn.trans hn'.symm)
        (fun p hp q hq => hfree p (List.mem_append_left _ hp) q (List.mem_append_left _ hq)) hnext
    · cases n with
      | zero => rw [List.length_eq_zero_iff.1 hn, List.length_eq_zero_iff.1 hn']
      | succ n =>
        obtain ⟨x, rfl⟩ := List.length_eq_one_iff.1 (show l.length = 1 by omega)
        obtain ⟨x', rfl⟩ := List.length_eq_one_iff.1 (show l'.length = 1 by omega)
        rw [merkleFold, merkleFold] at h
        rw [h]

/-- **Equal roots** of blocks with as many transactions come from equal digests. -/
theorem digests_of_root_eq (env : Env) {b b' : SignedBlock}
    (hlength : b.transactions.length = b'.transactions.length)
    (hfree : CollisionFree env (b.transactions.map env.merkleDigest)
      (b'.transactions.map env.merkleDigest))
    (h : calculateMerkleRoot env b = calculateMerkleRoot env b') :
    b.transactions.map env.merkleDigest = b'.transactions.map env.merkleDigest := by
  unfold calculateMerkleRoot at h
  by_cases hnil : b.transactions = []
  · have hnil' : b'.transactions = [] := by
      rw [hnil] at hlength
      exact List.length_eq_zero_iff.1 hlength.symm
    rw [hnil, hnil']
  · have hnil' : b'.transactions ≠ [] := by
      intro heq
      rw [heq] at hlength
      exact hnil (List.length_eq_zero_iff.1 hlength)
    rw [if_neg hnil, if_neg hnil'] at h
    exact merkleFold_inj env.hashPair _ _ _ rfl
      (by rw [List.length_map, List.length_map, hlength]) hfree.pairs (hfree.root h)

/-! ## Roots of blocks -/

/-- **The loop computes the root of the tree**, and two blocks with as many transactions have
equal roots only if they have equal digests. -/
theorem merkleRoots_exact (env : Env) (b b' : SignedBlock) (fuel : Nat)
    (hsize : b.transactions.length < 2 ^ 32) (hfuel : b.transactions.length < fuel)
    (hlength : b.transactions.length = b'.transactions.length) :
    calculateMerkleRootLoop env fuel b = some (calculateMerkleRoot env b) ∧
    (CollisionFree env (b.transactions.map env.merkleDigest)
        (b'.transactions.map env.merkleDigest) →
      calculateMerkleRootLoop env fuel b = calculateMerkleRootLoop env fuel b' →
      b.transactions.map env.merkleDigest = b'.transactions.map env.merkleDigest) := by
  have hloop := calculateMerkleRootLoop_eq env hsize hfuel
  have hloop' := calculateMerkleRootLoop_eq env (hlength ▸ hsize) (hlength ▸ hfuel)
  constructor
  · exact hloop
  · intro hfree heq
    rw [hloop, hloop'] at heq
    exact digests_of_root_eq env hlength hfree (Option.some.inj heq)

/-- Digests of one number each. -/
def numberedEnv : Env :=
  { smallEnv with merkleDigest := fun t => t.expiration, hashPair := fun x y => 1000 * x + y }

def numberedBlock (witness : AccountName) (ns : List Nat) : SignedBlock :=
  { smallBlock [] with
    witness := witness, transactions := ns.map fun n => ⟨⟨10, 30, n, []⟩, [7]⟩ }

theorem merkleRoots_exact_three :
    calculateMerkleRootLoop numberedEnv 4 (numberedBlock "alice" [1, 2, 3]) = some 1002003 ∧
    (numberedBlock "alice" [1, 2, 3]).transactions.map numberedEnv.merkleDigest =
      (numberedBlock "bob" [1, 2, 3]).transactions.map numberedEnv.merkleDigest := by
  obtain ⟨hloop, hroots⟩ := merkleRoots_exact numberedEnv (numberedBlock "alice" [1, 2, 3])
    (numberedBlock "bob" [1, 2, 3]) 4 (by decide) (by decide) rfl
  have hroot : calculateMerkleRoot numberedEnv (numberedBlock "alice" [1, 2, 3]) = 1002003 := by
    show id (merkleFold numberedEnv.hashPair [1, 2, 3]) = 1002003
    simp only [merkleFold, pairDigests, numberedEnv]
    rfl
  have hpairs : hashedPairs numberedEnv.hashPair [1, 2, 3] = [(1, 2), (1002, 3)] := by
    simp only [hashedPairs, pairDigests, levelPairs, numberedEnv]
    rfl
  have hfree : CollisionFree numberedEnv [1, 2, 3] [1, 2, 3] := by
    constructor
    · rw [hpairs]
      decide
    · exact fun h => h
  exact ⟨hloop.trans (congrArg some hroot), hroots hfree rfl⟩

/-- **Nothing comes of too many transactions.** -/
theorem merkleRoot_overflow :
    ¬ ∃ fuel, calculateMerkleRootLoop numberedEnv fuel
        (numberedBlock "alice" (List.replicate (2 ^ 32) 1)) =
      some (calculateMerkleRoot numberedEnv (numberedBlock "alice" (List.replicate (2 ^ 32) 1))) := by
  rintro ⟨fuel, h⟩
  have hsize : 2 ^ 32 ≤
      (numberedBlock "alice" (List.replicate (2 ^ 32) 1)).transactions.length := by
    unfold numberedBlock
    rw [List.length_map, List.length_replicate]
  rw [calculateMerkleRootLoop_huge numberedEnv fuel hsize] at h
  cases h

end VizCore.Chain
