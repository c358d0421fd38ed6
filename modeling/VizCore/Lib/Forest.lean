import VizCore.Lib.Table

/-!
# Tallies along parents

The rows of a table hang below one another: a row may name the key of a parent.  Every row
carries amounts by level; level `0` is its own, and level `n + 1` is meant to be what the rows
`n + 1` steps below it own, up to a maximal depth.

* `tallied_iff`: the levels are right as soon as every level is the sum of the levels below it
  over the children;
* `Pending.move`: a change that has reached a row and not yet its parent moves up one step;
* `Consistent.detach`, `Pending.hang`: a row is cut from its parent and hung below another one;
* `Acyclic.relink`: it may be hung below any row whose parents do not lead back to it.
-/

namespace VizCore.Lib

structure Shape (α κ : Type) where
  key : α → κ
  parent : α → Option κ
  level : α → Nat → Int

namespace Shape

variable {α κ : Type} [DecidableEq κ] (S : Shape α κ)

def parentOf (t : Table α) (k : κ) : Option κ := (t.get S.key k).bind S.parent

/-- The key that is reached from `k` in `n` steps. -/
def climb (t : Table α) : Nat → κ → Option κ
  | 0, k => some k
  | n + 1, k => (climb t n k).bind (S.parentOf t)

/-- What the rows own from which `p` is reached in exactly `n` steps. -/
def reach (t : Table α) (n : Nat) (p : κ) : Int :=
  t.sum fun x => if S.climb t n (S.key x) = some p then S.level x 0 else 0

/-- Every level up to `depth` is what the rows at that distance own. -/
def Tallied (depth : Nat) (t : Table α) : Prop :=
  ∀ k x, t.get S.key k = some x → ∀ n < depth, S.level x (n + 1) = S.reach t (n + 1) k

/-- The sum of a level over the children of `p`; the row `skip` does not count. -/
def children (t : Table α) (skip : Option κ) (p : κ) (n : Nat) : Int :=
  t.sum fun x => if S.parent x = some p ∧ some (S.key x) ≠ skip then S.level x n else 0

/-- The levels are the sums over the children, but for a change `d` that is still to be made to
the row `target`. -/
def Pending (depth : Nat) (t : Table α) (skip target : Option κ) (d : Nat → Int) : Prop :=
  ∀ k x, t.get S.key k = some x → ∀ n < depth,
    S.level x (n + 1) + (if target = some k then d n else 0) = S.children t skip k n

def Consistent (depth : Nat) (t : Table α) : Prop := S.Pending depth t none none 0

variable {S} {depth : Nat} {t : Table α} {skip target : Option κ} {d : Nat → Int} {k : κ} {x : α}

/-! ## Levels and distances -/

theorem parentOf_of_get (h : t.get S.key k = some x) : S.parentOf t k = S.parent x := by
  unfold parentOf
  rw [h]
  rfl

theorem consistent_iff : S.Consistent depth t ↔
    ∀ k x, t.get S.key k = some x → ∀ n < depth,
      S.level x (n + 1) = S.children t none k n := by
  simp [Consistent, Pending]

/-- At distance zero there is the row itself. -/
theorem reach_zero (ht : t.Keyed S.key) (h : t.get S.key k = some x) :
    S.reach t 0 k = S.level x 0 := by
  have htotal := ht.total_eq_field (fun y => S.level y 0) k
  rw [Table.field_of_get h] at htotal
  rw [← htotal]
  refine Table.sum_congr fun y _ => ?_
  simp only [climb, Option.some.injEq]

/-- At most one row is the next one. -/
theorem sum_parent (ht : t.Keyed S.key) (c : Option κ) (p : κ) (v : Int) :
    (t.sum fun y => if c = some (S.key y) then if S.parent y = some p then v else 0 else 0) =
      if c.bind (S.parentOf t) = some p then v else 0 := by
  cases c with
  | none => simp [Table.sum]
  | some q =>
    have hq := ht.total_eq_field (fun y => if S.parent y = some p then v else 0) q
    have hsum : (t.sum fun y => if some q = some (S.key y) then
        if S.parent y = some p then v else 0 else 0) =
        t.total S.key (fun y => if S.parent y = some p then v else 0) q :=
      Table.sum_congr fun y _ => by simp only [Option.some.injEq, eq_comm]
    rw [hsum, hq, Option.bind_some]
    cases hget : t.get S.key q with
    | none => simp [parentOf, hget, Table.field_of_none hget]
    | some y => rw [parentOf_of_get hget, Table.field_of_get hget]

/-- One step more is one step from a child. -/
theorem reach_succ (ht : t.Keyed S.key) (n : Nat) (p : κ) :
    S.reach t (n + 1) p =
      t.sum fun y => if S.parent y = some p then S.reach t n (S.key y) else 0 := by
  have hinner (y : α) : (if S.parent y = some p then S.reach t n (S.key y) else 0) =
      t.sum fun z => if S.climb t n (S.key z) = some (S.key y) then
        if S.parent y = some p then S.level z 0 else 0 else 0 := by
    unfold reach
    split
    · rfl
    · simp [Table.sum]
  simp only [hinner]
  rw [Table.sum_comm]
  exact Table.sum_congr fun z _ => (sum_parent ht _ p _).symm

/-- **The tally by distance** is the tally by children. -/
theorem tallied_iff (ht : t.Keyed S.key) : S.Tallied depth t ↔ S.Consistent depth t := by
  rw [consistent_iff]
  -- both sides say the same of a level once the level below is right
  have hstep (n : Nat) (p : κ) (hn : ∀ k x, t.get S.key k = some x → S.level x n = S.reach t n k) :
      S.reach t (n + 1) p = S.children t none p n := by
    rw [reach_succ ht]
    refine Table.sum_congr fun y hy => ?_
    rw [← hn _ _ (ht.get hy)]
    simp
  constructor
  · intro h k x hx n hn
    rw [h k x hx n hn]
    refine hstep n k fun k' y hy => ?_
    cases n with
    | zero => exact (reach_zero ht hy).symm
    | succ n => exact h k' y hy n (by omega)
  · intro h
    have hlevel (n : Nat) (hn : n ≤ depth) :
        ∀ k x, t.get S.key k = some x → S.level x n = S.reach t n k := by
      induction n with
      | zero => exact fun k x hx => (reach_zero ht hx).symm
      | succ n ih =>
        intro k x hx
        rw [h k x hx n (by omega), hstep n k (ih (by omega))]
    exact fun k x hx n hn => hlevel (n + 1) hn k x hx

/-! ## Changes -/

/-- The whole change has been made. -/
theorem Pending.settle (h : S.Pending depth t skip target d)
    (hd : ∀ n < depth, target = none ∨ d n = 0) : S.Pending depth t skip none 0 := by
  intro k x hx n hn
  have hk := h k x hx n hn
  rcases hd n hn with htarget | hzero
  · rw [htarget] at hk
    simpa using hk
  · rw [hzero] at hk
    simpa using hk

theorem children_update {p : κ} {y : α} {f : α → α} (hp : t.get S.key p = some y)
    (hkey : S.key (f y) = S.key y) (hparent : S.parent (f y) = S.parent y) (hskip : some p ≠ skip)
    (q : κ) (n : Nat) :
    S.children (t.update S.key p f) skip q n = S.children t skip q n +
      if S.parent y = some q then S.level (f y) n - S.level y n else 0 := by
  unfold children
  rw [Table.sum_update t S.key p f _ hp, hkey, hparent, Table.get_key hp]
  by_cases hq : S.parent y = some q
  · simp [hq, hskip]
  · simp [hq]

/-- **One step of a walk**: the levels of `p` change by `e`, which makes up for what was pending
there, and now the parent of `p` has to follow. -/
theorem Pending.move {p : κ} {y : α} {f : α → α} {e : Nat → Int}
    (h : S.Pending depth t skip target d) (hp : t.get S.key p = some y) (hskip : some p ≠ skip)
    (htarget : ∀ q, target = some q → q = p) (hkey : ∀ x, S.key (f x) = S.key x)
    (hparent : S.parent (f y) = S.parent y)
    (hlevel : ∀ n ≤ depth, S.level (f y) n = S.level y n + e n)
    (he : ∀ n < depth, e (n + 1) = if target = some p then d n else 0) :
    S.Pending depth (t.update S.key p f) skip (S.parent y) e := by
  intro k x hx n hn
  rw [children_update hp (hkey y) hparent hskip k n, hlevel n hn.le, add_sub_cancel_left]
  by_cases hk : k = p
  · subst hk
    rw [Table.get_update_same t S.key k f hkey, hp, Option.map_some, Option.some.injEq] at hx
    subst hx
    have hy := h k y hp n hn
    rw [hlevel (n + 1) hn, he n hn, ← hy]
  · rw [Table.get_update_ne t S.key f hk hkey] at hx
    have hy := h k x hx n hn
    have hne : target ≠ some k := fun heq => hk (htarget k heq)
    rw [← hy, if_neg hne, add_zero]

/-! ## Hanging a row elsewhere -/

/-- What one row adds to the sums over children. -/
theorem children_skip {a : κ} {y : α} (ht : t.Keyed S.key) (ha : t.get S.key a = some y) (q : κ)
    (n : Nat) :
    S.children t none q n = S.children t (some a) q n +
      if S.parent y = some q then S.level y n else 0 := by
  have hrow := ht.total_eq_field (fun x => if S.parent x = some q then S.level x n else 0) a
  rw [Table.field_of_get ha] at hrow
  rw [← hrow]
  unfold children Table.total Table.sum
  rw [← List.sum_map_add]
  refine congrArg List.sum (List.map_congr_left fun x _ => ?_)
  by_cases hx : S.key x = a <;> by_cases hq : S.parent x = some q <;> simp [hx, hq]

/-- Cutting `a` off: its levels are to be taken away from its parent. -/
theorem Consistent.detach {a : κ} {y : α} (h : S.Consistent depth t) (ht : t.Keyed S.key)
    (ha : t.get S.key a = some y) :
    S.Pending depth t (some a) (S.parent y) fun n => -S.level y n := by
  intro k x hx n hn
  have hk := consistent_iff.1 h k x hx n hn
  rw [children_skip ht ha] at hk
  split <;> split at hk <;> simp_all

/-- Hanging `a` below another row, or below none. -/
theorem Pending.hang {a : κ} {y : α} {f : α → α} (h : S.Pending depth t (some a) none 0)
    (ht : t.Keyed S.key) (ha : t.get S.key a = some y) (hkey : ∀ x, S.key (f x) = S.key x)
    (hlevel : ∀ n, S.level (f y) n = S.level y n) :
    S.Pending depth (t.update S.key a f) none (S.parent (f y)) (S.level y) := by
  have ht' : (t.update S.key a f).Keyed S.key :=
    ht.of_keys (Table.updateRows_map S.key a f S.key hkey t.rows)
  have ha' : (t.update S.key a f).get S.key a = some (f y) := by
    rw [Table.get_update_same t S.key a f hkey, ha]
    rfl
  have hothers (q : κ) (n : Nat) :
      S.children (t.update S.key a f) (some a) q n = S.children t (some a) q n := by
    unfold children
    rw [Table.sum_update t S.key a f _ ha, hkey, Table.get_key ha]
    simp
  intro k x hx n hn
  rw [children_skip ht' ha', hothers, hlevel]
  have hk : S.level x (n + 1) = S.children t (some a) k n := by
    by_cases hka : k = a
    · subst hka
      rw [ha', Option.some.injEq] at hx
      rw [← hx, hlevel]
      simpa using h k y ha n hn
    · rw [Table.get_update_ne t S.key f hka hkey] at hx
      simpa using h k x hx n hn
  rw [hk]

/-- A new row that owns nothing and is nobody's parent. -/
theorem Consistent.create {mk : Nat → α} {k : κ} (h : S.Consistent depth t)
    (hnew : t.get S.key k = none) (hkey : S.key (mk t.nextId) = k)
    (hparent : S.parent (mk t.nextId) = none) (hlevel : ∀ n, S.level (mk t.nextId) n = 0)
    (hfree : ∀ x ∈ t.rows, S.parent x ≠ some k) : S.Consistent depth (t.create mk) := by
  have hchildren (q : κ) (n : Nat) : S.children (t.create mk) none q n = S.children t none q n := by
    unfold children
    rw [Table.sum_create, hparent]
    simp
  rw [consistent_iff] at h ⊢
  intro q x hx n hn
  rw [hchildren]
  by_cases hq : q = k
  · subst hq
    rw [Table.get_create_same hnew hkey, Option.some.injEq] at hx
    rw [← hx, hlevel]
    have hzero : S.children t none q n = t.sum fun _ => 0 :=
      Table.sum_congr fun y hy => if_neg fun hand => hfree y hy hand.1
    rw [hzero]
    simp [Table.sum]
  · rw [Table.get_create_ne t S.key (by rw [hkey]; exact Ne.symm hq)] at hx
    exact h q x hx n hn

/-! ## Cycles -/

def Step (S : Shape α κ) (t : Table α) (a b : κ) : Prop := S.parentOf t a = some b

def Acyclic (S : Shape α κ) (t : Table α) : Prop := ∀ k, ¬ Relation.TransGen (S.Step t) k k

theorem parentOf_update_of_same {p : κ} {f : α → α} (hkey : ∀ x, S.key (f x) = S.key x)
    (hparent : ∀ x, S.parent (f x) = S.parent x) (k : κ) :
    S.parentOf (t.update S.key p f) k = S.parentOf t k := by
  unfold parentOf
  by_cases hk : k = p
  · rw [hk, Table.get_update_same t S.key p f hkey]
    cases t.get S.key p with
    | none => rfl
    | some x => exact hparent x
  · rw [Table.get_update_ne t S.key f hk hkey]

theorem Acyclic.of_sub {t' : Table α} (h : S.Acyclic t)
    (hsub : ∀ a b, S.Step t' a b → S.Step t a b) : S.Acyclic t' :=
  fun k hloop => h k (Relation.TransGen.mono hsub k k hloop)

/-- **A new parent** that does not lead back closes no cycle. -/
theorem Acyclic.relink {t' : Table α} {a p : κ} (h : S.Acyclic t)
    (hsub : ∀ b c, S.Step t' b c → S.Step t b c ∨ b = a ∧ c = p)
    (hp : ¬ Relation.ReflTransGen (S.Step t) p a) : S.Acyclic t' := by
  -- a path either was there before or passes through `a`
  have hpath (b c : κ) (hbc : Relation.TransGen (S.Step t') b c) :
      Relation.TransGen (S.Step t) b c ∨
        Relation.ReflTransGen (S.Step t) b a ∧ Relation.ReflTransGen (S.Step t) p c := by
    induction hbc with
    | single hstep =>
      rcases hsub _ _ hstep with hold | ⟨rfl, rfl⟩
      · exact .inl (.single hold)
      · exact .inr ⟨.refl, .refl⟩
    | tail _ hstep ih =>
      rcases hsub _ _ hstep with hold | ⟨rfl, rfl⟩
      · rcases ih with hbc | ⟨hba, hpc⟩
        · exact .inl (hbc.tail hold)
        · exact .inr ⟨hba, hpc.tail hold⟩
      · rcases ih with hba | ⟨-, hpa⟩
        · exact .inr ⟨hba.to_reflTransGen, .refl⟩
        · exact absurd hpa hp
  intro k hloop
  rcases hpath k k hloop with hold | ⟨hka, hpk⟩
  · exact h k hold
  · exact hp (hpk.trans hka)

end Shape

end VizCore.Lib
