import VizCore.Lib.Decimal
import VizCore.Lib.Runs
import VizCore.Plugins.Follow

/-!
# The follow counters

`follow_evaluator` counts up and down by what the follow object said before and says now, in objects
that it creates when an account is met for the first time.

* `Counted.follow`: one operation keeps the counters in step with the follow objects;
* `applyCustom_counted`: so does a custom operation, however it ends;
* `applyCustom_once`: no custom operation is interpreted twice;
* `follow_counters`: the counters in the state after any run of operations and sessions.
-/

namespace VizCore.Plugins

open VizCore.Lib VizCore.Protocol VizCore.Chain

/-! ## What is counted -/

namespace FollowTables

/-- The number of follow objects with the blog bit on one side of which the account stands. -/
def tally (side : FollowObject → AccountName) (t : FollowTables) (account : AccountName) : Nat :=
  (t.follows.rows.filter fun f => side f = account ∧ f.what &&& 2 ≠ 0).length

/-- Whom the account follows. -/
def followings (t : FollowTables) (account : AccountName) : Nat := t.tally (·.follower) account

/-- Who follows the account. -/
def followers (t : FollowTables) (account : AccountName) : Nat := t.tally (·.following) account

/-- A field of the count object, zero where there is none. -/
def count (field : FollowCountObject → Nat) (t : FollowTables) (account : AccountName) : Nat :=
  (t.counts.get (·.account) account).elim 0 field

def followingCount (t : FollowTables) (account : AccountName) : Nat :=
  t.count (·.followingCount) account

def followerCount (t : FollowTables) (account : AccountName) : Nat :=
  t.count (·.followerCount) account

/-! ## The evaluator on its tables -/

/-- The follow object of the two accounts. -/
def find (o : FollowOperation) (t : FollowTables) : Option FollowObject :=
  t.follows.get (fun f => (f.follower, f.following)) (o.follower, o.following)

/-- The follow object of the operation says `what` from now on. -/
def setWhat (o : FollowOperation) (what : Nat) (t : FollowTables) : FollowTables :=
  match t.find o with
  | none => { t with
      follows := t.follows.create fun id => ⟨id, o.follower, o.following, what⟩ }
  | some f => { t with
      follows := t.follows.update (·.id) f.id fun f => { f with what := what } }

def countFor (account : AccountName) (was is : Bool)
    (change : (Nat → Nat) → FollowCountObject → FollowCountObject) (t : FollowTables) :
    FollowTables :=
  match t.counts.get (·.account) account with
  | none => { t with
      counts := t.counts.create fun id =>
        change (followed false is) { id := id, account := account } }
  | some c => { t with
      counts := t.counts.update (·.account) c.account (change (followed was is)) }

/-- There is a follow object with the blog bit. -/
def wasFollowed (o : FollowOperation) (t : FollowTables) : Bool :=
  (t.find o).any fun f => f.what &&& 2 ≠ 0

end FollowTables

/-- `what` of the operation -/
def FollowOperation.bits (o : FollowOperation) : Nat :=
  o.what.foldl (fun bits target => bits ||| (followType target).bit) 0

def FollowOperation.isFollowing (o : FollowOperation) : Bool :=
  o.what.any fun target => followType target = .blog

/-- A change of the one counter. -/
def countFollowing (g : Nat → Nat) (c : FollowCountObject) : FollowCountObject :=
  { c with followingCount := g c.followingCount }

/-- A change of the other. -/
def countFollower (g : Nat → Nat) (c : FollowCountObject) : FollowCountObject :=
  { c with followerCount := g c.followerCount }

theorem countFollowing_account (g : Nat → Nat) (c : FollowCountObject) :
    (countFollowing g c).account = c.account := rfl

theorem countFollower_account (g : Nat → Nat) (c : FollowCountObject) :
    (countFollower g c).account = c.account := rfl

/-- What the evaluator makes of its tables when it does not throw. -/
def FollowTables.follow (o : FollowOperation) (t : FollowTables) : FollowTables :=
  let was := t.wasFollowed o
  let t := t.setWhat o o.bits
  let t := t.countFor o.follower was o.isFollowing countFollowing
  t.countFor o.following was o.isFollowing countFollower

theorem countFollow_eq (account : AccountName) (was is : Bool)
    (change : (Nat → Nat) → FollowCountObject → FollowCountObject) (w : World) :
    countFollow account was is change w =
      .ok () { w with follow := w.follow.countFor account was is change } := by
  unfold countFollow FollowTables.countFor
  refine (bind_apply_of_ok (x := (get : Effect World)) (t := w) (a := w) rfl _).trans ?_
  cases w.follow.counts.get (·.account) account with
  | none => rfl
  | some c => rfl

theorem followEvaluator_eq (o : FollowOperation) (w : World) :
    followEvaluator o w =
      match fcAssert (o.bits &&& 4 = 0 ∨ o.bits &&& 2 = 0)
        "Cannot follow blog and ignore author at the same time" with
      | .error e => .error e w
      | .ok _ => .ok () { w with follow := w.follow.follow o } := by
  unfold followEvaluator FollowTables.follow FollowTables.wasFollowed FollowTables.setWhat
    FollowTables.find
  show (ofResult (fcAssert (o.bits &&& 4 = 0 ∨ o.bits &&& 2 = 0) _) >>= _) w = _
  cases fcAssert (o.bits &&& 4 = 0 ∨ o.bits &&& 2 = 0)
      "Cannot follow blog and ignore author at the same time" with
  | error e => rfl
  | ok u =>
    cases hold : w.follow.follows.get (fun f => (f.follower, f.following))
        (o.follower, o.following) with
    | none =>
      refine (bind_apply_of_ok (countFollow_eq _ _ _ _ _) _).trans ?_
      exact countFollow_eq _ _ _ _ _
    | some f =>
      refine (bind_apply_of_ok (countFollow_eq _ _ _ _ _) _).trans ?_
      exact countFollow_eq _ _ _ _ _

/-! ## Bits -/

theorem or_and_two (m n : Nat) : (m ||| n) &&& 2 ≠ 0 ↔ m &&& 2 ≠ 0 ∨ n &&& 2 ≠ 0 := by
  rw [Nat.and_or_distrib_right, Ne, Nat.or_eq_zero_iff]
  exact not_and_or

theorem followType_bit (target : String) :
    (followType target).bit &&& 2 ≠ 0 ↔ followType target = .blog := by
  cases followType target <;> decide

/-- The blog bit is set exactly when one of the targets is the blog. -/
theorem FollowOperation.bits_blog (o : FollowOperation) :
    decide (o.bits &&& 2 ≠ 0) = o.isFollowing := by
  have hfold : ∀ (l : List String) (bits : Nat),
      (l.foldl (fun bits target => bits ||| (followType target).bit) bits) &&& 2 ≠ 0 ↔
        bits &&& 2 ≠ 0 ∨ ∃ target ∈ l, followType target = .blog := by
    intro l
    induction l with
    | nil => simp
    | cons target l ih =>
      intro bits
      rw [List.foldl_cons, ih, or_and_two, followType_bit]
      simp only [List.mem_cons, exists_eq_or_imp]
      exact or_assoc
  unfold FollowOperation.bits FollowOperation.isFollowing
  rw [Bool.eq_iff_iff, decide_eq_true_eq, hfold, List.any_eq_true]
  simp

/-! ## Counting -/

namespace FollowTables

variable {t : FollowTables} {o : FollowOperation} {what : Nat} {account a : AccountName}

/-- One for a follow object with the blog bit. -/
def weight (f : FollowObject) : Int := if f.what &&& 2 ≠ 0 then 1 else 0

theorem tally_eq_total (side : FollowObject → AccountName) (t : FollowTables) (a : AccountName) :
    (t.tally side a : Int) = t.follows.total side weight a := by
  unfold tally Table.total Table.sum weight
  induction t.follows.rows with
  | nil => rfl
  | cons f rows ih =>
    rw [List.map_cons, List.sum_cons, ← ih, List.filter_cons]
    by_cases hside : side f = a
    · by_cases hbit : f.what &&& 2 = 0
      · simp [hside, hbit]
      · simp [hside, hbit]
        omega
    · simp [hside]

/-- The follow objects and the counters agree. -/
structure Counted (t : FollowTables) : Prop where
  numbered : t.follows.Numbered (·.id)
  known : ∀ f ∈ t.follows.rows, (t.counts.get (·.account) f.follower).isSome ∧
    (t.counts.get (·.account) f.following).isSome
  following : ∀ a, t.followingCount a = t.followings a % 2 ^ 32
  follower : ∀ a, t.followerCount a = t.followers a % 2 ^ 32

theorem find_spec {f : FollowObject} (h : t.find o = some f) :
    f ∈ t.follows.rows ∧ f.follower = o.follower ∧ f.following = o.following := by
  unfold find at h
  have hkey := Table.get_key h
  rw [Prod.mk.injEq] at hkey
  exact ⟨Table.get_mem h, hkey⟩

/-- What the operation does to the number of follow objects on a side where `k` stands. -/
theorem tally_setWhat (h : t.follows.Numbered (·.id)) {side : FollowObject → AccountName}
    {k : AccountName} (hside : ∀ f : FollowObject,
      f.follower = o.follower → f.following = o.following → side f = k)
    (hkept : ∀ f : FollowObject, side { f with what := what } = side f) (a : AccountName) :
    ((t.setWhat o what).tally side a : Int) = t.tally side a + if k = a then
      (if what &&& 2 ≠ 0 then 1 else 0) - (if t.wasFollowed o then 1 else 0) else 0 := by
  rw [tally_eq_total, tally_eq_total]
  unfold setWhat wasFollowed
  cases hold : t.find o with
  | none =>
    show (t.follows.create _).total side weight a = _
    rw [Table.total_create, hside _ rfl rfl]
    simp [weight]
  | some f =>
    obtain ⟨hmem, hfollower, hfollowing⟩ := find_spec hold
    show (t.follows.update (·.id) f.id _).total side weight a = _
    rw [Table.total_update (h.get hmem), hkept, hside f hfollower hfollowing]
    by_cases hk : k = a
    · simp [hk, weight]
    · simp [hk]

theorem setWhat_counts : (t.setWhat o what).counts = t.counts := by
  unfold setWhat
  split <;> rfl

theorem setWhat_numbered (h : t.follows.Numbered (·.id)) :
    (t.setWhat o what).follows.Numbered (·.id) := by
  unfold setWhat
  split
  · have hcreate : (t.follows.create fun id => (⟨id, o.follower, o.following, what⟩ :
        FollowObject)).Numbered (·.id) := h.create fun _ => rfl
    exact hcreate
  · exact h.update _ _ _ fun _ => rfl

theorem mem_setWhat {f : FollowObject} (h : f ∈ (t.setWhat o what).follows.rows) :
    f.follower = o.follower ∧ f.following = o.following ∨
      ∃ g ∈ t.follows.rows, f.follower = g.follower ∧ f.following = g.following := by
  unfold setWhat at h
  split at h
  · rcases List.mem_append.1 h with hold | hnew
    · exact .inr ⟨f, hold, rfl, rfl⟩
    · rw [List.mem_singleton.1 hnew]
      exact .inl ⟨rfl, rfl⟩
  · rcases Table.mem_update h with hold | ⟨g, hg, rfl⟩
    · exact .inr ⟨f, hold, rfl, rfl⟩
    · exact .inr ⟨g, Table.get_mem hg, rfl, rfl⟩

section CountFor

variable {was is : Bool} {change : (Nat → Nat) → FollowCountObject → FollowCountObject}

theorem countFor_follows : (t.countFor account was is change).follows = t.follows := by
  unfold countFor
  split <;> rfl

/-- What the operation does to a field of the count objects. -/
theorem count_countFor (haccount : ∀ g c, (change g c).account = c.account)
    (hwas : t.counts.get (·.account) account = none → was = false)
    {field : FollowCountObject → Nat} (hzero : ∀ id, field { id := id, account := account } = 0)
    {m : (Nat → Nat) → Nat → Nat} (hfield : ∀ g c, field (change g c) = m g (field c))
    (a : AccountName) :
    (t.countFor account was is change).count field a =
      if a = account then m (followed was is) (t.count field a) else t.count field a := by
  unfold countFor count
  cases hold : t.counts.get (·.account) account with
  | none =>
    by_cases ha : a = account
    · rw [if_pos ha, ha, hwas hold]
      show ((t.counts.create _).get (·.account) account).elim 0 field = _
      rw [Table.get_create_same hold (haccount _ _), hold]
      exact (hfield _ _).trans (by rw [hzero]; rfl)
    · rw [if_neg ha]
      show ((t.counts.create _).get (·.account) a).elim 0 field = _
      rw [Table.get_create_ne t.counts (·.account) (by rw [haccount]; exact Ne.symm ha)]
  | some c =>
    have hkey : c.account = account := Table.get_key hold
    show ((t.counts.update (·.account) c.account _).get (·.account) a).elim 0 field = _
    rw [hkey]
    by_cases ha : a = account
    · rw [if_pos ha, ha, Table.get_update_same _ _ _ _ (haccount _), hold]
      exact hfield _ _
    · rw [if_neg ha, Table.get_update_ne _ _ _ ha (haccount _)]

theorem countFor_known (haccount : ∀ g c, (change g c).account = c.account) (a : AccountName) :
    ((t.countFor account was is change).counts.get (·.account) a).isSome ↔
      a = account ∨ (t.counts.get (·.account) a).isSome := by
  unfold countFor
  cases hold : t.counts.get (·.account) account with
  | none =>
    by_cases ha : a = account
    · show ((t.counts.create _).get (·.account) a).isSome ↔ _
      rw [ha, Table.get_create_same hold (haccount _ _)]
      simp
    · show ((t.counts.create _).get (·.account) a).isSome ↔ _
      rw [Table.get_create_ne t.counts (·.account) (by rw [haccount]; exact Ne.symm ha)]
      simp [ha]
  | some c =>
    have hkey : c.account = account := Table.get_key hold
    show ((t.counts.update (·.account) c.account _).get (·.account) a).isSome ↔ _
    rw [hkey]
    by_cases ha : a = account
    · rw [ha, Table.get_update_same _ _ _ _ (haccount _), hold]
      simp
    · rw [Table.get_update_ne _ _ _ ha (haccount _)]
      simp [ha]

end CountFor

/-- A counter follows the number that it counts, in 32 bits. -/
theorem followed_mod {was is : Bool} {n n' : Nat}
    (h : (n' : Int) = n + ((if is then 1 else 0) - if was then 1 else 0)) :
    followed was is (n % 2 ^ 32) = n' % 2 ^ 32 := by
  unfold followed
  cases was with
  | false =>
    cases is with
    | false =>
      simp only [Bool.false_eq_true, if_false] at h ⊢
      omega
    | true =>
      simp only [Bool.false_eq_true, if_false, if_true] at h ⊢
      omega
  | true =>
    cases is with
    | false =>
      simp only [Bool.false_eq_true, if_false, if_true] at h ⊢
      omega
    | true =>
      simp only [if_true] at h ⊢
      omega

/-- Both count objects of a follow object are there. -/
theorem Counted.unknown (h : Counted t) (hnone : t.counts.get (·.account) o.follower = none ∨
    t.counts.get (·.account) o.following = none) : t.wasFollowed o = false := by
  unfold wasFollowed
  cases hold : t.find o with
  | none => rfl
  | some f =>
    obtain ⟨hmem, hfollower, hfollowing⟩ := find_spec hold
    obtain ⟨hfirst, hsecond⟩ := h.known f hmem
    rw [hfollower] at hfirst
    rw [hfollowing] at hsecond
    rcases hnone with hnone | hnone
    · rw [hnone] at hfirst
      cases hfirst
    · rw [hnone] at hsecond
      cases hsecond

theorem tally_congr {t' : FollowTables} (h : t'.follows = t.follows)
    (side : FollowObject → AccountName) (a : AccountName) : t'.tally side a = t.tally side a := by
  unfold tally
  rw [h]

/-- A counter that has followed the number of follow objects on its side so far still does when
the operation has been counted for the account on this side. -/
theorem counted_side (h : t.follows.Numbered (·.id)) {side : FollowObject → AccountName}
    {k : AccountName} (hside : ∀ f : FollowObject,
      f.follower = o.follower → f.following = o.following → side f = k)
    (hkept : ∀ f : FollowObject, side { f with what := o.bits } = side f) {a : AccountName}
    {n : Nat} (hn : n = t.tally side a % 2 ^ 32) :
    (if a = k then followed (t.wasFollowed o) o.isFollowing n else n) =
      (t.setWhat o o.bits).tally side a % 2 ^ 32 := by
  have htally : ((t.setWhat o o.bits).tally side a : Int) = t.tally side a + if k = a then
      (if o.bits &&& 2 ≠ 0 then 1 else 0) - (if t.wasFollowed o then 1 else 0) else 0 :=
    tally_setWhat h hside hkept a
  by_cases ha : a = k
  · rw [if_pos ha.symm] at htally
    rw [if_pos ha, hn, ← o.bits_blog]
    apply followed_mod
    rw [htally]
    simp
  · rw [if_neg (Ne.symm ha)] at htally
    rw [if_neg ha, hn]
    omega

/-- **One operation** keeps the counters in step with the follow objects. -/
theorem Counted.follow (h : Counted t) (o : FollowOperation) : Counted (t.follow o) := by
  unfold FollowTables.follow
  set t₁ := t.setWhat o o.bits
  set t₂ := t₁.countFor o.follower (t.wasFollowed o) o.isFollowing countFollowing
  set t₃ := t₂.countFor o.following (t.wasFollowed o) o.isFollowing countFollower
  have hcounts : t₁.counts = t.counts := setWhat_counts
  have hfollows : t₃.follows = t₁.follows := countFor_follows.trans countFor_follows
  have hknown₂ : ∀ a, (t₂.counts.get (·.account) a).isSome ↔
      a = o.follower ∨ (t.counts.get (·.account) a).isSome := by
    intro a
    rw [← hcounts]
    exact countFor_known countFollowing_account a
  have hknown₃ : ∀ a, (t₃.counts.get (·.account) a).isSome ↔
      a = o.following ∨ (t₂.counts.get (·.account) a).isSome :=
    fun a => countFor_known countFollower_account a
  have hunknown₁ : t₁.counts.get (·.account) o.follower = none → t.wasFollowed o = false := by
    intro hnone
    exact h.unknown (.inl (hcounts ▸ hnone))
  have hunknown₂ : t₂.counts.get (·.account) o.following = none → t.wasFollowed o = false := by
    intro hnone
    refine h.unknown (.inr (Option.not_isSome_iff_eq_none.1 ?_))
    intro hsome
    have hthere := (hknown₂ o.following).2 (.inr hsome)
    rw [hnone] at hthere
    cases hthere
  constructor
  · rw [hfollows]
    exact setWhat_numbered h.numbered
  · intro f hf
    rw [hfollows] at hf
    simp only [hknown₃, hknown₂]
    rcases mem_setWhat hf with ⟨hfollower, hfollowing⟩ | ⟨g, hg, hfollower, hfollowing⟩
    · exact ⟨.inr (.inl hfollower), .inl hfollowing⟩
    · have hold := h.known g hg
      rw [hfollower, hfollowing]
      exact ⟨.inr (.inr hold.1), .inr (.inr hold.2)⟩
  · intro a
    have hthird : t₃.followingCount a = t₂.followingCount a :=
      (count_countFor (m := fun _ n => n) countFollower_account hunknown₂ (fun _ => rfl)
        (fun _ _ => rfl) a).trans (ite_self _)
    have hsecond : t₂.followingCount a = if a = o.follower then
        followed (t.wasFollowed o) o.isFollowing (t₁.followingCount a) else t₁.followingCount a :=
      count_countFor (m := fun g n => g n) countFollowing_account hunknown₁ (fun _ => rfl)
        (fun _ _ => rfl) a
    have hfirst : t₁.followingCount a = t.followings a % 2 ^ 32 := by
      rw [← h.following a]
      unfold followingCount count
      rw [hcounts]
    rw [hthird, hsecond]
    refine (counted_side h.numbered (fun f hfollower _ => hfollower) (fun _ => rfl)
      hfirst).trans ?_
    exact congrArg (· % 2 ^ 32) (tally_congr hfollows _ a).symm
  · intro a
    have hthird : t₃.followerCount a = if a = o.following then
        followed (t.wasFollowed o) o.isFollowing (t₂.followerCount a) else t₂.followerCount a :=
      count_countFor (m := fun g n => g n) countFollower_account hunknown₂ (fun _ => rfl)
        (fun _ _ => rfl) a
    have hsecond : t₂.followerCount a = t₁.followerCount a :=
      (count_countFor (m := fun _ n => n) countFollowing_account hunknown₁ (fun _ => rfl)
        (fun _ _ => rfl) a).trans (ite_self _)
    have hfirst : t₂.followerCount a = t.followers a % 2 ^ 32 := by
      rw [hsecond, ← h.follower a]
      unfold followerCount count
      rw [hcounts]
    rw [hthird]
    refine (counted_side h.numbered (fun f _ hfollowing => hfollowing) (fun _ => rfl)
      hfirst).trans ?_
    exact congrArg (· % 2 ^ 32) (tally_congr hfollows _ a).symm

end FollowTables

/-! ## Custom operations -/

section Custom

variable {V : Type} {p : FollowPlugin V} {o : CustomOperation} {w w' : World}

open FollowTables

/-- The counters of the state. -/
def World.Counted (w : World) : Prop := w.follow.Counted

theorem followEvaluator_counted (o : FollowOperation) :
    Maintains World.Counted (followEvaluator o) := by
  intro w h
  unfold leaves
  rw [followEvaluator_eq]
  cases fcAssert (o.bits &&& 4 = 0 ∨ o.bits &&& 2 = 0)
      "Cannot follow blog and ignore author at the same time" with
  | error e => exact h
  | ok u => exact FollowTables.Counted.follow h o

theorem FollowTables.Counted.congr {t t' : FollowTables} (h : t.Counted)
    (hsame : (t'.follows, t'.counts) = (t.follows, t.counts)) : t'.Counted := by
  obtain ⟨hfollows, hcounts⟩ := Prod.mk.inj hsame
  constructor
  · rw [hfollows]
    exact h.numbered
  · rw [hfollows, hcounts]
    exact h.known
  · intro a
    have heq := h.following a
    unfold followingCount count followings tally at heq ⊢
    rw [hfollows, hcounts]
    exact heq
  · intro a
    have heq := h.follower a
    unfold followerCount count followers tally at heq ⊢
    rw [hfollows, hcounts]
    exact heq

theorem evaluate_counted (p : FollowPlugin V) (op : FollowPluginOperation) :
    Maintains World.Counted (p.evaluate op) := by
  cases op with
  | follow op => exact followEvaluator_counted op
  | reblog op =>
    intro w h
    have hblind : Blind fun w => (w.follow.follows, w.follow.counts) := by
      intro w t hfollows hcounts
      exact Prod.ext hfollows hcounts
    exact FollowTables.Counted.congr h (untouched_reblog hblind p.maxFeedSize op w)

theorem visitCustom_counted (p : FollowPlugin V) (o : CustomOperation) :
    Maintains World.Counted (p.visitCustom o) := by
  unfold FollowPlugin.visitCustom
  split
  · split
    · exact .pure ()
    · exact CustomOperations.interpret_maintains (evaluate_counted p) _
  · exact .pure ()

/-- **A custom operation** keeps the counters, however it ends. -/
theorem applyCustom_counted (cfg : NodeConfig V) (o : CustomOperation) :
    Maintains World.Counted (cfg.applyCustom o) := by
  unfold NodeConfig.applyCustom
  refine Maintains.bind ?_ fun _ => ?_
  · intro w h
    unfold leaves
    rw [customEvaluator_eq]
    cases w.consensus.db.custom o with
    | error e => exact h
    | ok db =>
      have hw : World.Counted { w with consensus := { w.consensus with db := db } } := h
      cases cfg.getCustomEvaluator o.id with
      | none => exact hw
      | some p =>
        have hinner : Maintains World.Counted (p.interpreter.interpret o) :=
          CustomOperations.interpret_maintains (evaluate_counted p) o
        exact hinner.catching (fun _ => !cfg.producing) _ hw
  · unfold NodeConfig.notifyPostApply
    split
    · cases cfg.follow with
      | none => exact .pure ()
      | some p => exact ((visitCustom_counted p o).catching _).catching _
    · exact .pure ()

/-! ## Counted once -/

/-- The operations of the plugin that a text stands for, in the newer or in the older format. -/
inductive FollowPlugin.Reads (p : FollowPlugin V) (json : String) :
    List FollowPluginOperation → Prop
  | newer {v : V} {ops : List FollowPluginOperation} (hv : p.fromString json = .ok v)
    (hops : p.interpreter.readOperations v = .ok ops) : Reads p json ops
  | older {v : V} {op : FollowOperation} (hv : p.fromString json = .ok v)
    (hop : p.asFollow v = .ok op) : Reads p json [.follow op]

/-- How `fc` reads and writes.  A `follow_operation` is read from an object and an operation of the
plugin from an array, which is how it is written. -/
structure FollowPlugin.Documented (p : FollowPlugin V) : Prop where
  object : ∀ v op, p.asFollow v = .ok op → p.getArray v = none
  array : ∀ v op, p.fromVariant v = .ok op → ∃ l, p.getArray v = some l
  written : ∀ json v op, p.fromString json = .ok v → p.asFollow v = .ok op →
    ∃ v' name rest, p.fromString (p.toJson (.follow op)) = .ok v' ∧
      p.getArray v' = some (name :: rest) ∧ p.getArray name = none ∧
      p.fromVariant v' = .ok (.follow op)

/-- What the text stands for is applied once, or it is refused and nothing happens. -/
inductive CountedOnce (p : FollowPlugin V) (o : CustomOperation) (w : World) : World → Prop
  | once {ops : List FollowPluginOperation} {w' : World} (hops : p.Reads o.json ops)
    (hrun : p.interpreter.applyOperations ops (.custom o) w = .ok () w') : CountedOnce p o w w'
  | never (hrefused : ∀ ops, p.Reads o.json ops →
      ∀ w', p.interpreter.applyOperations ops (.custom o) w ≠ .ok () w') : CountedOnce p o w w

/-- How a custom operation for the plugin ends. -/
inductive EndsOnce (p : FollowPlugin V) (o : CustomOperation) (w : World) :
    EStateM.Result Exception World Unit → Prop
  | succeeds {db : Db} {w' : World} (hdb : w.consensus.db.custom o = .ok db)
    (honce : CountedOnce p o { w with consensus := { w.consensus with db := db } } w') :
    EndsOnce p o w (.ok () w')
  | fails (e : Exception) {w' : World} (hsame : w'.follow = w.follow) : EndsOnce p o w (.error e w')

namespace FollowPlugin.Documented

/-- No text has both formats. -/
theorem disjoint (h : p.Documented) {v : V} {op : FollowOperation} (hop : p.asFollow v = .ok op)
    (ops : List FollowPluginOperation) : p.interpreter.readOperations v ≠ .ok ops := by
  intro hops
  have hnone := h.object v op hop
  unfold CustomOperations.readOperations at hops
  rw [show p.interpreter.getArray v = none from hnone] at hops
  obtain ⟨op', hop', -⟩ := (map_eq_ok _ _ _).1 hops
  obtain ⟨l, hl⟩ := h.array v op' hop'
  rw [hnone] at hl
  cases hl

/-- An operation in the older format is interpreted as it stands. -/
theorem interpret_older (h : p.Documented) {v : V} {op : FollowOperation}
    (hv : p.fromString o.json = .ok v) (hop : p.asFollow v = .ok op) (w : World) :
    p.interpreter.interpret { o with json := p.toJson (.follow op) } w =
      p.interpreter.applyOperations [.follow op] (.custom o) w := by
  obtain ⟨v', name, rest, hv', harray, hname, hread⟩ := h.written _ v op hv hop
  refine CustomOperations.interpret_of_read (v := v') hv' ?_ w
  unfold CustomOperations.readOperations
  rw [show p.interpreter.getArray v' = some (name :: rest) from harray]
  show (if (p.getArray name).isSome then _ else _) = _
  rw [hname]
  show List.singleton <$> p.fromVariant v' = _
  rw [hread]
  rfl

end FollowPlugin.Documented

/-- A text stands for one list of operations only. -/
theorem FollowPlugin.Reads.unique {json : String} {ops ops' : List FollowPluginOperation}
    (h : p.Reads json ops) (hfc : p.Documented) (h' : p.Reads json ops') : ops = ops' := by
  cases h with
  | newer hv hops =>
    cases h' with
    | newer hv' hops' =>
      rw [hv] at hv'
      cases hv'
      rw [hops] at hops'
      exact Except.ok.inj hops'
    | older hv' hop' =>
      rw [hv] at hv'
      cases hv'
      exact absurd hops (hfc.disjoint hop' ops)
  | older hv hop =>
    cases h' with
    | newer hv' hops' =>
      rw [hv] at hv'
      cases hv'
      exact absurd hops' (hfc.disjoint hop _)
    | older hv' hop' =>
      rw [hv] at hv'
      cases hv'
      rw [hop] at hop'
      cases hop'
      rfl

/-- The visitor leaves a text in the newer format alone. -/
theorem visitCustom_newer (hfc : p.Documented) {v : V} {ops : List FollowPluginOperation}
    (hv : p.fromString o.json = .ok v) (hops : p.interpreter.readOperations v = .ok ops)
    (w : World) : leaves (p.visitCustom o) w = w := by
  unfold FollowPlugin.visitCustom
  split
  · split
    · rfl
    · rename_i op hread
      obtain ⟨v', hv', hop⟩ := (bind_eq_ok _ _ _).1 hread
      rw [hv] at hv'
      cases hv'
      exact absurd hops (hfc.disjoint hop ops)
  · rfl

/-- The visitor counts what the evaluator could not read. -/
theorem visitCustom_older (hfc : p.Documented) (hid : o.id = "follow")
    (hunread : ∀ v ops, p.fromString o.json = .ok v → p.interpreter.readOperations v ≠ .ok ops)
    (w : World) : CountedOnce p o w (leaves (p.visitCustom o) w) := by
  unfold FollowPlugin.visitCustom
  rw [if_pos hid]
  split
  · rename_i e hread
    refine .never fun ops hops => ?_
    cases hops with
    | newer hv hread' => exact absurd hread' (hunread _ _ hv)
    | older hv hop =>
      have hok := (bind_eq_ok _ _ _).2 ⟨_, hv, hop⟩
      rw [hread] at hok
      cases hok
  · rename_i op hread
    obtain ⟨v, hv, hop⟩ := (bind_eq_ok _ _ _).1 hread
    unfold leaves
    rw [hfc.interpret_older hv hop w]
    cases hrun : p.interpreter.applyOperations [.follow op] (.custom o) w with
    | ok u w' => exact .once (.older hv hop) hrun
    | error e w' =>
      have hsame : w' = w := session_error hrun
      rw [hsame] at hrun ⊢
      refine .never fun ops hops w' => ?_
      rw [hops.unique hfc (.older hv hop), hrun]
      intro h
      cases h

/-- The evaluator hands the operation to the plugin. -/
theorem customEvaluator_follow (producing push : Bool) (hid : o.id = "follow") {db : Db}
    (hdb : w.consensus.db.custom o = .ok db) :
    NodeConfig.customEvaluator ⟨some p, producing, push⟩ o w =
      catching (fun _ => !producing) (p.interpreter.interpret o)
        { w with consensus := { w.consensus with db := db } } := by
  have hplugin : NodeConfig.getCustomEvaluator ⟨some p, producing, push⟩ o.id = some p :=
    if_pos hid
  rw [customEvaluator_eq, hdb]
  dsimp only
  rw [hplugin]

/-- What the evaluator has read the visitor does not read. -/
theorem applyCustom_newer (hfc : p.Documented) (producing push : Bool) (hid : o.id = "follow")
    {db : Db} (hdb : w.consensus.db.custom o = .ok db) {v : V} {ops : List FollowPluginOperation}
    (hv : p.fromString o.json = .ok v) (hops : p.interpreter.readOperations v = .ok ops)
    (hrun : p.interpreter.applyOperations ops (.custom o)
      { w with consensus := { w.consensus with db := db } } = .ok () w') :
    NodeConfig.applyCustom ⟨some p, producing, push⟩ o w = .ok () w' := by
  have hcustom := customEvaluator_follow (p := p) producing push hid hdb
  unfold catching at hcustom
  rw [CustomOperations.interpret_of_read hv hops, hrun] at hcustom
  unfold NodeConfig.applyCustom
  rw [bind_apply_of_ok hcustom, notifyPostApply_eq, visitCustom_newer hfc hv hops, ite_self]

/-- What the evaluator refuses is left to the visitor, unless the node produces a block. -/
theorem applyCustom_refused (producing push : Bool) (hid : o.id = "follow") {db : Db}
    (hdb : w.consensus.db.custom o = .ok db) {e : Exception}
    (hrun : p.interpreter.interpret o { w with consensus := { w.consensus with db := db } } =
      .error e { w with consensus := { w.consensus with db := db } })
    (honce : CountedOnce p o { w with consensus := { w.consensus with db := db } }
      (leaves (p.visitCustom o) { w with consensus := { w.consensus with db := db } })) :
    EndsOnce p o w (NodeConfig.applyCustom ⟨some p, producing, push⟩ o w) := by
  have hcustom := customEvaluator_follow (p := p) producing push hid hdb
  unfold catching at hcustom
  rw [hrun] at hcustom
  unfold NodeConfig.applyCustom
  cases producing with
  | true =>
    rw [bind_apply_of_error hcustom]
    exact .fails e rfl
  | false =>
    rw [bind_apply_of_ok hcustom, notifyPostApply_eq]
    exact .succeeds hdb honce

/-- **No custom operation is counted twice**, whatever the format of its text. -/
theorem applyCustom_once (hfc : p.Documented) (producing push : Bool) (hid : o.id = "follow")
    (w : World) :
    EndsOnce p o w (NodeConfig.applyCustom ⟨some p, producing, push⟩ o w) := by
  cases hdb : w.consensus.db.custom o with
  | error e =>
    have hcustom : NodeConfig.customEvaluator ⟨some p, producing, push⟩ o w = .error e w := by
      rw [customEvaluator_eq, hdb]
    unfold NodeConfig.applyCustom
    rw [bind_apply_of_error hcustom]
    exact .fails e rfl
  | ok db =>
    by_cases hread : ∃ v ops, p.fromString o.json = .ok v ∧ p.interpreter.readOperations v = .ok ops
    · obtain ⟨v, ops, hv, hops⟩ := hread
      have hinterpret := CustomOperations.interpret_of_read hv hops
        { w with consensus := { w.consensus with db := db } }
      cases hrun : p.interpreter.applyOperations ops (.custom o)
          { w with consensus := { w.consensus with db := db } } with
      | ok u w₂ =>
        rw [applyCustom_newer hfc producing push hid hdb hv hops hrun]
        exact .succeeds hdb (.once (.newer hv hops) hrun)
      | error e w₂ =>
        have hsame := session_error hrun
        rw [hsame] at hrun
        refine applyCustom_refused producing push hid hdb (hinterpret.trans hrun) ?_
        rw [visitCustom_newer hfc hv hops]
        refine .never fun ops' hops' w' => ?_
        rw [hops'.unique hfc (.newer hv hops), hrun]
        intro h
        cases h
    · have hunread : ∀ v ops, p.fromString o.json = .ok v →
          p.interpreter.readOperations v ≠ .ok ops :=
        fun v ops hv hops => hread ⟨v, ops, hv, hops⟩
      obtain ⟨e, hrun⟩ := CustomOperations.interpret_of_unread (P := p.interpreter) hunread
        { w with consensus := { w.consensus with db := db } }
      exact applyCustom_refused producing push hid hdb hrun
        (visitCustom_older hfc hid hunread _)

end Custom

/-! ## Runs -/

structure FollowNode where
  world : World
  /-- what the open sessions restore, newest first -/
  undoStack : List World := []

/-- What a node does with the tables.  Sessions stand for blocks, transactions and pending
transactions alike; they are undone with the blocks. -/
inductive FollowAction
  | startSession
  | squash
  | undo
  | commit (kept : Nat)
  | applyCustom (producing pluginsOnPush : Bool) (o : CustomOperation)
  /-- all other operations and steps, which may change blogs and feeds -/
  | applyOther (consensus : Consensus) (blogs : Table BlogObject)
      (stats : Table BlogAuthorStatsObject) (feeds : Table FeedObject)

section Run

variable {V : Type} (p : FollowPlugin V)

def FollowPlugin.step (s : FollowNode) : FollowAction → FollowNode
  | .startSession => { s with undoStack := s.world :: s.undoStack }
  | .squash => { s with undoStack := s.undoStack.tail }
  | .undo =>
    match s.undoStack with
    | [] => s
    | w :: rest => { world := w, undoStack := rest }
  | .commit kept => { s with undoStack := s.undoStack.take kept }
  | .applyCustom producing pluginsOnPush o => { s with
      world := leaves (NodeConfig.applyCustom ⟨some p, producing, pluginsOnPush⟩ o) s.world }
  | .applyOther consensus blogs stats feeds => { s with
      world :=
        { consensus := consensus
          follow := { s.world.follow with blogs := blogs, stats := stats, feeds := feeds } } }

/-- The node after the actions, from empty tables. -/
def FollowPlugin.after (consensus : Consensus) (acts : List FollowAction) : FollowNode :=
  run p.step { world := { consensus := consensus, follow := {} } } acts

/-- The counters agree in the state and in all that sessions restore. -/
structure FollowNode.Counted (s : FollowNode) : Prop where
  world : s.world.Counted
  undoStack : ∀ w ∈ s.undoStack, w.Counted

theorem Counted.empty (consensus : Consensus) :
    World.Counted { consensus := consensus, follow := {} } where
  numbered := ⟨List.nodup_nil, fun _ h => absurd h List.not_mem_nil⟩
  known := fun _ h => absurd h List.not_mem_nil
  following := fun _ => rfl
  follower := fun _ => rfl

/-- Every step keeps the counters in step. -/
theorem step_counted (s : FollowNode) (a : FollowAction) (h : s.Counted) :
    (p.step s a).Counted := by
  cases a with
  | startSession =>
    refine ⟨h.world, ?_⟩
    intro w hw
    rcases List.mem_cons.1 hw with heq | hold
    · rw [heq]
      exact h.world
    · exact h.undoStack w hold
  | squash => exact ⟨h.world, fun w hw => h.undoStack w (List.mem_of_mem_tail hw)⟩
  | undo =>
    unfold FollowPlugin.step
    cases hstack : s.undoStack with
    | nil => exact h
    | cons w rest =>
      have hall := h.undoStack
      rw [hstack] at hall
      exact ⟨hall w List.mem_cons_self, fun w' hw' => hall w' (List.mem_cons_of_mem w hw')⟩
  | commit kept => exact ⟨h.world, fun w hw => h.undoStack w (List.mem_of_mem_take hw)⟩
  | applyCustom producing pluginsOnPush o =>
    exact ⟨applyCustom_counted _ o s.world h.world, h.undoStack⟩
  | applyOther consensus blogs stats feeds =>
    exact ⟨FollowTables.Counted.congr h.world rfl, h.undoStack⟩

/-- So do they after any run. -/
theorem after_counted (consensus : Consensus) (acts : List FollowAction) :
    (p.after consensus acts).Counted := by
  have hstart : FollowNode.Counted { world := { consensus := consensus, follow := {} } } :=
    ⟨Counted.empty consensus, fun _ h => absurd h List.not_mem_nil⟩
  exact run_always hstart (step_counted p) acts

variable {p}

/-- The counters are the numbers of follow objects with the blog bit, in 32 bits. -/
def World.CountersAgree (w : World) : Prop :=
  ∀ account, w.follow.followingCount account = w.follow.followings account % 2 ^ 32 ∧
    w.follow.followerCount account = w.follow.followers account % 2 ^ 32

/-- **Follow counters.**  After any run the counters hold the numbers of follow objects with the
blog bit, and the next custom operation is counted once or not at all. -/
theorem follow_counters (hfc : p.Documented) (consensus : Consensus) (acts : List FollowAction) :
    (p.after consensus acts).world.CountersAgree ∧
    ∀ producing pluginsOnPush o, o.id = "follow" →
      EndsOnce p o (p.after consensus acts).world
        (NodeConfig.applyCustom ⟨some p, producing, pluginsOnPush⟩ o
          (p.after consensus acts).world) := by
  have hcounted := after_counted p consensus acts
  constructor
  · intro account
    exact ⟨hcounted.world.following account, hcounted.world.follower account⟩
  · intro producing pluginsOnPush o hid
    exact applyCustom_once hfc producing pluginsOnPush hid _

end Run

/-! ## Alice -/

/-- A text, an object with the fields of a `follow_operation`, or a pair of a name and such an
object. -/
inductive FollowVariant
  | text (s : String)
  | object (op : FollowOperation)
  | pair (name : String) (op : FollowOperation)

/-- alice follows the blog of the account. -/
def followBlog (account : AccountName) : FollowOperation := ⟨"alice", account, ["blog"]⟩

/-- The operation in the older format. -/
def objectText (account : AccountName) : List Char :=
  "\x7b\"follower\":\"alice\",\"following\":\"".toList ++ account.toList ++
    "\",\"what\":[\"blog\"]\x7d".toList

/-- The operation in the newer format. -/
def pairText (account : AccountName) : List Char :=
  "[\"follow\",\x7b\"follower\":\"alice\",\"following\":\"".toList ++ account.toList ++
    "\",\"what\":[\"blog\"]\x7d]".toList

/-- What stands between two texts. -/
def between (before behind : String) (s : List Char) : Option AccountName :=
  ((s.dropPrefix? before.toList).bind fun l => l.dropSuffix? behind.toList).map String.ofList

theorem between_append (before behind : String) (account : AccountName) :
    between before behind (before.toList ++ account.toList ++ behind.toList) = some account := by
  unfold between
  rw [List.append_assoc, List.dropPrefix?_append_of_beq _ (by simp)]
  have hsuffix : (account.toList ++ behind.toList).dropSuffix? behind.toList =
      some account.toList := by
    rw [List.dropSuffix?_eq_some_iff]
    exact ⟨behind.toList, rfl, by simp⟩
  rw [Option.bind_some, hsuffix]
  simp

/-- Texts that say whose blog alice follows. -/
def alicePlugin : FollowPlugin FollowVariant where
  fromString json :=
    match between "[\"follow\",\x7b\"follower\":\"alice\",\"following\":\""
        "\",\"what\":[\"blog\"]\x7d]" json.toList with
    | some account => .ok (.pair "follow" (followBlog account))
    | none =>
      match between "\x7b\"follower\":\"alice\",\"following\":\"" "\",\"what\":[\"blog\"]\x7d"
          json.toList with
      | some account => .ok (.object (followBlog account))
      | none => .error (.assertion "from_string")
  getArray
    | .pair name op => some [.text name, .object op]
    | _ => none
  fromVariant
    | .pair _ op => .ok (.follow op)
    | _ => .error (.assertion "get_array")
  asFollow
    | .object op => .ok op
    | _ => .error (.assertion "get_object")
  toJson
    | .follow op => String.ofList (pairText op.following)
    | .reblog _ => ""
  maxFeedSize := 500

theorem read_pairText (account : AccountName) :
    alicePlugin.fromString (String.ofList (pairText account)) =
      .ok (.pair "follow" (followBlog account)) := by
  unfold alicePlugin pairText
  simp only [String.toList_ofList, between_append]

theorem alicePlugin_documented : alicePlugin.Documented where
  object v op h := by
    cases v with
    | object op' => rfl
    | text s => cases h
    | pair name op' => cases h
  array v op h := by
    cases v with
    | pair name op' => exact ⟨_, rfl⟩
    | text s => cases h
    | object op' => cases h
  written json v op hv hop := by
    cases v with
    | text s => cases hop
    | pair name op' => cases hop
    | object op' =>
      have hsame : op' = op := Except.ok.inj hop
      have hblog : ∃ account, op' = followBlog account := by
        unfold alicePlugin at hv
        dsimp only at hv
        split at hv
        · cases hv
        · split at hv
          · rename_i account _
            cases hv
            exact ⟨account, rfl⟩
          · cases hv
      obtain ⟨account, hop'⟩ := hblog
      have hwritten : alicePlugin.toJson (.follow (followBlog account)) =
          String.ofList (pairText account) := rfl
      rw [← hsame, hop', hwritten]
      exact ⟨.pair "follow" (followBlog account), .text "follow", _, read_pairText account, rfl,
        rfl, rfl⟩

def aliceConsensus : Consensus :=
  { db := { accounts := ⟨[{ id := 0, name := "alice" }], 1⟩ }, contents := {} }

def aliceCustom (json : List Char) : CustomOperation :=
  { requiredActiveAuths := [], requiredRegularAuths := ["alice"], id := "follow"
    json := String.ofList json }

theorem aliceCustom_json (json : List Char) : (aliceCustom json).json = String.ofList json := rfl

/-- alice follows bob in the newer format and carol in the older one; dave is undone. -/
def aliceActions : List FollowAction :=
  [.applyCustom false false (aliceCustom (pairText "bob")),
    .applyCustom false false (aliceCustom (objectText "carol")),
    .startSession,
    .applyCustom false false (aliceCustom (pairText "dave")),
    .undo]

theorem follow_counters_alice :
    (alicePlugin.after aliceConsensus aliceActions).world.CountersAgree ∧
      EndsOnce alicePlugin (aliceCustom (objectText "erin"))
        (alicePlugin.after aliceConsensus aliceActions).world
        (NodeConfig.applyCustom ⟨some alicePlugin, false, false⟩ (aliceCustom (objectText "erin"))
          (alicePlugin.after aliceConsensus aliceActions).world) := by
  obtain ⟨hagree, honce⟩ := follow_counters alicePlugin_documented aliceConsensus aliceActions
  exact ⟨hagree, honce false false (aliceCustom (objectText "erin")) rfl⟩

/-! ## Too many to count -/

/-- Names that are all different: a letter and the digits of a number. -/
def fanName (i : Nat) : AccountName := String.ofList ('b' :: (decimalDigits i).map Char.ofUInt8)

/-- alice follows `n` accounts, one operation after the other. -/
def fanActions (n : Nat) : List FollowAction :=
  (List.range n).map fun i => .applyCustom false false (aliceCustom (pairText (fanName i)))

theorem ofUInt8_injective : Function.Injective Char.ofUInt8 := by
  intro c d h
  exact UInt8.toUInt32_inj.1 (congrArg Char.val h)

theorem fanName_injective {i j : Nat} (h : fanName i = fanName j) : i = j := by
  have hlist := String.ofList_inj.1 h
  have hdigits := List.map_injective_iff.2 ofUInt8_injective (List.cons.inj hlist).2
  have hvalue := congrArg decimalValue hdigits
  rw [decimalValue_decimalDigits, decimalValue_decimalDigits] at hvalue
  exact hvalue

theorem fanName_ne (i : Nat) : "alice" ≠ fanName i := by
  intro h
  have hlist : "alice".toList = 'b' :: (decimalDigits i).map Char.ofUInt8 :=
    (congrArg String.toList h).trans String.toList_ofList
  have hhead := congrArg List.head? hlist
  simp at hhead

/-- The state after alice has followed `n` accounts. -/
structure Fan (n : Nat) (w : World) : Prop where
  alice : (w.consensus.db.accounts.get (·.name) "alice").isSome
  rows : w.follow.follows.rows = (List.range n).map fun i => ⟨i, "alice", fanName i, 2⟩
  nextId : w.follow.follows.nextId = n

theorem custom_alice {db : Db} (h : (db.accounts.get (·.name) "alice").isSome)
    (json : List Char) : ∃ db', db.custom (aliceCustom json) = .ok db' ∧
      (db'.accounts.get (·.name) "alice").isSome := by
  obtain ⟨a, ha⟩ := Option.isSome_iff_exists.1 h
  have hget : db.getAccount "alice" = .ok a := by
    unfold Db.getAccount
    rw [getOrThrow_eq_ok]
    exact ha
  have hkept : ∀ f : AccountObject → AccountObject, (∀ a, (f a).name = a.name) →
      ((db.modifyAccount "alice" f).accounts.get (·.name) "alice").isSome := by
    intro f hf
    unfold Db.modifyAccount
    rw [Table.get_update_same _ _ _ _ hf, ha]
    rfl
  have hcustom : db.custom (aliceCustom json) = .ok (db.modifyAccount "alice" fun a =>
      { a with
        customSequence := (a.customSequence + 1) % 2 ^ 64
        customSequenceBlockNum := 1 + db.headBlockNum }) := by
    show (db.countCustom "alice" >>= fun db => pure db) = _
    unfold Db.countCustom
    rw [hget]
    rfl
  exact ⟨_, hcustom, hkept _ fun _ => by rfl⟩

theorem followBlog_bits (account : AccountName) : (followBlog account).bits = 2 := by
  simp [FollowOperation.bits, followBlog, followType, FollowType.bit]

/-- The interpreter lets alice follow another account. -/
theorem applyOperations_followBlog {account : AccountName} (hne : "alice" ≠ account)
    (json : List Char) (w : World) :
    alicePlugin.interpreter.applyOperations [.follow (followBlog account)]
        (.custom (aliceCustom json)) w =
      .ok () { w with follow := w.follow.follow (followBlog account) } := by
  have hevaluator : followEvaluator (followBlog account) w =
      .ok () { w with follow := w.follow.follow (followBlog account) } := by
    rw [followEvaluator_eq, followBlog_bits]
    rfl
  have hrun : [FollowPluginOperation.follow (followBlog account)].forM
      alicePlugin.interpreter.apply w =
      .ok () { w with follow := w.follow.follow (followBlog account) } :=
    bind_apply_of_ok hevaluator _
  unfold CustomOperations.applyOperations
  rw [session_eq_ok]
  simp only [bind_apply_eq_ok, ofResult_eq_ok, fcAssert_eq_ok]
  refine ⟨(), w, ⟨?_, rfl⟩, (), w, ⟨rfl, rfl⟩, (), w, ⟨rfl, rfl⟩, (), w, ⟨rfl, rfl⟩, (), w,
    ⟨rfl, rfl⟩, hrun⟩
  rw [forM_eq_ok]
  intro op hop
  rw [List.mem_singleton.1 hop]
  exact (fcAssert_eq_ok _ _ _).2 hne

theorem Fan.find {n : Nat} {w : World} (h : Fan n w) :
    w.follow.find (followBlog (fanName n)) = none := by
  unfold FollowTables.find Table.get
  rw [h.rows, List.find?_eq_none]
  intro f hf heq
  obtain ⟨i, hi, rfl⟩ := List.mem_map.1 hf
  have hkey := (Prod.mk.inj (of_decide_eq_true heq)).2
  exact absurd (fanName_injective hkey) (ne_of_lt (List.mem_range.1 hi))

/-- One account more. -/
theorem Fan.next {n : Nat} {w : World} (h : Fan n w) :
    Fan (n + 1) (leaves (NodeConfig.applyCustom ⟨some alicePlugin, false, false⟩
      (aliceCustom (pairText (fanName n)))) w) := by
  obtain ⟨db, hdb, halice⟩ := custom_alice h.alice (pairText (fanName n))
  have hread : alicePlugin.fromString (aliceCustom (pairText (fanName n))).json =
      .ok (.pair "follow" (followBlog (fanName n))) := by
    rw [aliceCustom_json, read_pairText]
  have hops : alicePlugin.interpreter.readOperations (.pair "follow" (followBlog (fanName n))) =
      .ok [.follow (followBlog (fanName n))] := rfl
  have hrun := applyOperations_followBlog (fanName_ne n) (pairText (fanName n))
    { w with consensus := { w.consensus with db := db } }
  have happly := applyCustom_newer alicePlugin_documented false false rfl hdb hread hops hrun
  have hfollows : (w.follow.follow (followBlog (fanName n))).follows =
      w.follow.follows.create fun id => ⟨id, "alice", fanName n, 2⟩ := by
    unfold FollowTables.follow
    rw [FollowTables.countFor_follows, FollowTables.countFor_follows, followBlog_bits]
    unfold FollowTables.setWhat
    rw [h.find]
    rfl
  unfold leaves
  rw [happly]
  constructor
  · exact halice
  · show (w.follow.follow (followBlog (fanName n))).follows.rows = _
    rw [hfollows, List.range_succ, List.map_append, ← h.rows]
    unfold Table.create
    rw [h.nextId]
    rfl
  · show (w.follow.follow (followBlog (fanName n))).follows.nextId = _
    rw [hfollows, ← h.nextId]
    rfl

theorem fan_after (n : Nat) : Fan n (alicePlugin.after aliceConsensus (fanActions n)).world := by
  induction n with
  | zero => exact ⟨rfl, rfl, rfl⟩
  | succ n ih =>
    unfold FollowPlugin.after fanActions at ih ⊢
    rw [List.range_succ, List.map_append, List.map_singleton, run_snoc]
    exact ih.next

theorem Fan.followings {n : Nat} {w : World} (h : Fan n w) :
    w.follow.followings "alice" = n := by
  unfold FollowTables.followings FollowTables.tally
  rw [h.rows, List.filter_eq_self.2, List.length_map, List.length_range]
  intro f hf
  obtain ⟨i, _, rfl⟩ := List.mem_map.1 hf
  simp

theorem Fan.wraps {n : Nat} (hn : n % 2 ^ 32 = 0) :
    (alicePlugin.after aliceConsensus (fanActions n)).world.follow.followings "alice" = n ∧
    (alicePlugin.after aliceConsensus (fanActions n)).world.follow.followingCount "alice" = 0 := by
  have hfollowings := (fan_after n).followings
  have hcount :=
    (after_counted alicePlugin aliceConsensus (fanActions n)).world.following "alice"
  rw [hfollowings, hn] at hcount
  exact ⟨hfollowings, hcount⟩

/-- alice follows 2 ^ 32 accounts, and her counter says that she follows nobody. -/
theorem following_count_wraps :
    (alicePlugin.after aliceConsensus (fanActions (2 ^ 32))).world.follow.followings "alice" =
      2 ^ 32 ∧
    (alicePlugin.after aliceConsensus (fanActions (2 ^ 32))).world.follow.followingCount "alice" =
      0 :=
  Fan.wraps (Nat.mod_self (2 ^ 32))

end VizCore.Plugins
