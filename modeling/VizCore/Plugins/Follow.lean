import VizCore.Chain.Evaluator.Witnesses
import VizCore.Plugins.Interpreter

/-!
# The follow plugin

Who follows whom, the blogs with what was reblogged, and the feeds of the followers.  The plugin
interprets the custom operations with its id, and a second time, after the operation, those in an
older format.

* `untouched_follow`, `untouched_reblog`: its evaluators change only its own tables;
* `applyCustom_agrees`: a node with the plugin and a node without it agree on all else.
-/

namespace VizCore.Plugins

open VizCore.Lib VizCore.Protocol VizCore.Chain

/-! ## Tables -/

/-- What the plugin reads of a `content_object`. -/
structure ContentObject where
  id : Nat
  author : AccountName
  permlink : String
  parentAuthor : AccountName := ""

structure FollowObject where
  id : Nat
  follower : AccountName
  following : AccountName
  what : Nat

structure FollowCountObject where
  id : Nat
  account : AccountName
  followerCount : Nat := 0
  followingCount : Nat := 0

structure BlogObject where
  id : Nat
  account : AccountName
  content : Nat
  rebloggedOn : TimePointSec
  blogFeedId : Nat

structure BlogAuthorStatsObject where
  id : Nat
  blogger : AccountName
  guest : AccountName
  count : Nat

structure FeedObject where
  id : Nat
  account : AccountName
  rebloggedBy : List AccountName
  firstRebloggedBy : AccountName
  firstRebloggedOn : TimePointSec
  content : Nat
  reblogs : Nat
  accountFeedId : Nat

structure FollowTables where
  follows : Table FollowObject := {}
  counts : Table FollowCountObject := {}
  blogs : Table BlogObject := {}
  stats : Table BlogAuthorStatsObject := {}
  feeds : Table FeedObject := {}

/-- All objects outside the tables of the plugin. -/
structure Consensus where
  db : Db
  contents : Table ContentObject

structure World where
  consensus : Consensus
  follow : FollowTables

abbrev Effect := EStateM Exception World

/-- A change of the plugin's tables. -/
def modifyTables (f : FollowTables → FollowTables) : Effect Unit :=
  modify fun w => { w with follow := f w.follow }

/-! ## Operations -/

structure FollowOperation where
  follower : AccountName
  following : AccountName
  what : List String

structure ReblogOperation where
  account : AccountName
  author : AccountName
  permlink : String

inductive FollowPluginOperation
  | follow (op : FollowOperation)
  | reblog (op : ReblogOperation)

namespace FollowPluginOperation

def validate : FollowPluginOperation → Result Unit
  | .follow op => fcAssert (op.follower ≠ op.following) "You cannot follow yourself"
  | .reblog op => fcAssert (op.account ≠ op.author) "You cannot reblog your own content"

def requiredAuthorities : FollowPluginOperation → RequiredAuthorities
  | .follow op => { regular := [op.follower] }
  | .reblog op => { regular := [op.account] }

end FollowPluginOperation

inductive FollowType
  | undefined
  | blog
  | ignore
  deriving DecidableEq

/-- `follow_type_map`, where other texts stand for the first value. -/
def followType (s : String) : FollowType :=
  if s = "blog" then .blog else if s = "ignore" then .ignore else .undefined

/-- `1 << blog` and `1 << ignore` -/
def FollowType.bit : FollowType → Nat
  | .undefined => 0
  | .blog => 2
  | .ignore => 4

/-! ## `follow_evaluator` -/

/-- The two counters change when the following begins or ends. -/
def followed (was is : Bool) (n : Nat) : Nat :=
  let n := if was then (n + 2 ^ 32 - 1) % 2 ^ 32 else n
  if is then (n + 1) % 2 ^ 32 else n

/-- The count object of the account is changed, or created with zeros and then counted up. -/
def countFollow (account : AccountName) (was is : Bool)
    (change : (Nat → Nat) → FollowCountObject → FollowCountObject) : Effect Unit := do
  let w ← get
  match w.follow.counts.get (·.account) account with
  | none =>
    modifyTables fun t => { t with
      counts := t.counts.create fun id =>
        change (followed false is) { id := id, account := account } }
  | some c =>
    modifyTables fun t => { t with
      counts := t.counts.update (·.account) c.account (change (followed was is)) }

def followEvaluator (o : FollowOperation) : Effect Unit := do
  let w ← get
  let what := o.what.foldl (fun bits target => bits ||| (followType target).bit) 0
  let isFollowing := o.what.any fun target => followType target = .blog
  ofResult (fcAssert (what &&& 4 = 0 ∨ what &&& 2 = 0)
    "Cannot follow blog and ignore author at the same time")
  let old := w.follow.follows.get (fun f => (f.follower, f.following)) (o.follower, o.following)
  match old with
  | none =>
    modifyTables fun t => { t with
      follows := t.follows.create fun id => ⟨id, o.follower, o.following, what⟩ }
  | some f =>
    modifyTables fun t => { t with
      follows := t.follows.update (·.id) f.id fun f => { f with what := what } }
  let wasFollowed := old.any fun f => f.what &&& 2 ≠ 0
  countFollow o.follower wasFollowed isFollowing fun g c =>
    { c with followingCount := g c.followingCount }
  countFollow o.following wasFollowed isFollowing fun g c =>
    { c with followerCount := g c.followerCount }

/-! ## `reblog_evaluator` -/

/-- The id after the last one, or zero; ids have 32 bits. -/
def nextFeedId (ids : List Nat) : Nat := (ids.max?).elim 0 fun n => (n + 1) % 2 ^ 32

/-- What `create` throws when a unique index has the key. -/
def checkUnique {α κ : Type} [DecidableEq κ] (t : Table α) (key : α → κ) (k : κ) (index : String) :
    Result Unit :=
  require (t.get key k).isNone (.duplicateKey index)

/-- The account's entries from the oldest on are dropped as long as they are too far back. -/
def dropOldFeeds (maxSize next : Nat) (account : AccountName) (t : Table FeedObject) :
    Table FeedObject :=
  let old := orderBy (fun f g => decide (f.accountFeedId < g.accountFeedId))
    (t.rows.filter fun f => f.account = account)
  let gone := old.takeWhile fun f => maxSize < (next + 2 ^ 32 - f.accountFeedId) % 2 ^ 32
  gone.foldl (fun t f => t.erase (·.id) f.id) t

/-- The reblogged content in the feed of one follower. -/
def feedFollower (maxSize : Nat) (account : AccountName) (c : ContentObject)
    (follower : AccountName) : Effect Unit := do
  let w ← get
  let feeds := w.follow.feeds
  let next := nextFeedId ((feeds.rows.filter fun f => f.account = follower).map (·.accountFeedId))
  match feeds.get (fun f => (f.content, f.account)) (c.id, follower) with
  | none =>
    ofResult (checkUnique feeds (fun f => (f.account, f.accountFeedId)) (follower, next) "by_feed")
    modifyTables fun t => { t with
      feeds := t.feeds.create fun id =>
        ⟨id, follower, [account], account, w.consensus.db.headBlockTime, c.id, 1, next⟩ }
  | some f =>
    modifyTables fun t => { t with
      feeds := t.feeds.update (·.id) f.id fun f =>
        { f with rebloggedBy := f.rebloggedBy ++ [account], reblogs := (f.reblogs + 1) % 2 ^ 32 } }
  modifyTables fun t => { t with feeds := dropOldFeeds maxSize next follower t.feeds }

/-- The blogger's statistics for the author. -/
def countGuest (blogger guest : AccountName) : Effect Unit := do
  let w ← get
  let rows := w.follow.stats.rows.filter fun s => s.blogger = blogger ∧ s.guest = guest
  match (orderBy (fun s s' => decide (s'.count < s.count)) rows).head? with
  | some s =>
    modifyTables fun t => { t with
      stats := t.stats.update (·.id) s.id fun s => { s with count := (s.count + 1) % 2 ^ 32 } }
  | none =>
    modifyTables fun t => { t with
      stats := t.stats.create fun id => ⟨id, blogger, guest, 1⟩ }

def reblogEvaluator (maxSize : Nat) (o : ReblogOperation) : Effect Unit := do
  let w ← get
  let c ← ofResult (getOrThrow
    (w.consensus.contents.get (fun c => (c.author, c.permlink)) (o.author, o.permlink))
    (.unknownKey "content by_permlink"))
  ofResult (fcAssert (c.parentAuthor = "") "Only top level posts can be reblogged")
  let blogs := w.follow.blogs
  let next := nextFeedId ((blogs.rows.filter fun b => b.account = o.account).map (·.blogFeedId))
  ofResult (fcAssert (blogs.get (fun b => (b.content, b.account)) (c.id, o.account)).isNone
    "Account has already reblogged this post")
  ofResult (checkUnique blogs (fun b => (b.account, b.blogFeedId)) (o.account, next) "by_blog")
  modifyTables fun t => { t with
    blogs := t.blogs.create fun id => ⟨id, o.account, c.id, w.consensus.db.headBlockTime, next⟩ }
  countGuest o.account c.author
  let followers := orderBy (fun f g => decide (f.follower < g.follower))
    (w.follow.follows.rows.filter fun f => f.following = o.account)
  followers.forM fun f =>
    if f.what &&& 2 ≠ 0 then feedFollower maxSize o.account c f.follower else pure ()

/-! ## The plugin -/

/-- The parts of `fc` that read and write variants, and the setting of the plugin. -/
structure FollowPlugin (V : Type) where
  fromString : String → Result V
  getArray : V → Option (List V)
  fromVariant : V → Result FollowPluginOperation
  /-- `as<follow_operation>` -/
  asFollow : V → Result FollowOperation
  toJson : FollowPluginOperation → String
  maxFeedSize : Nat

namespace FollowPlugin

variable {V : Type} (p : FollowPlugin V)

def evaluate : FollowPluginOperation → Effect Unit
  | .follow op => followEvaluator op
  | .reblog op => reblogEvaluator p.maxFeedSize op

/-- `_custom_operation_interpreter` -/
def interpreter : CustomOperations V FollowPluginOperation World where
  fromString := p.fromString
  getArray := p.getArray
  fromVariant := p.fromVariant
  validate := FollowPluginOperation.validate
  requiredAuthorities := FollowPluginOperation.requiredAuthorities
  apply := p.evaluate

/-- The visitor of `post_operation`: an operation in the older format is written in the new one and
interpreted. -/
def visitCustom (o : CustomOperation) : Effect Unit :=
  if o.id = "follow" then
    match p.fromString o.json >>= p.asFollow with
    | .error _ => pure ()
    | .ok op => p.interpreter.interpret { o with json := p.toJson (.follow op) }
  else pure ()

end FollowPlugin

/-- What a node is configured with. -/
structure NodeConfig (V : Type) where
  follow : Option (FollowPlugin V)
  producing : Bool
  /-- `_enable_plugins_on_push_transaction` -/
  pluginsOnPush : Bool

namespace NodeConfig

variable {V : Type} (cfg : NodeConfig V)

/-- `get_custom_evaluator` -/
def getCustomEvaluator (id : String) : Option (FollowPlugin V) :=
  if id = "follow" then cfg.follow else none

/-- `custom_evaluator::do_apply` -/
def customEvaluator (o : CustomOperation) : Effect Unit := do
  let w ← get
  let db ← ofResult (w.consensus.db.custom o)
  set { w with consensus := { w.consensus with db := db } }
  match cfg.getCustomEvaluator o.id with
  | none => pure ()
  | some p => catching (fun _ => !cfg.producing) (p.interpreter.interpret o)

/-- `post_operation` of the plugin -/
def postOperation (p : FollowPlugin V) (o : CustomOperation) : Effect Unit :=
  catching (fun e => match e with | .assertion _ => !cfg.producing | _ => false) (p.visitCustom o)

/-- `notify_post_apply_operation`; `CHAIN_TRY_NOTIFY` drops what the plugin throws. -/
def notifyPostApply (o : CustomOperation) : Effect Unit :=
  if !cfg.producing || cfg.pluginsOnPush then
    match cfg.follow with
    | none => pure ()
    | some p => catching (fun _ => true) (cfg.postOperation p o)
  else pure ()

/-- `apply_operation` of a custom operation.  The plugin does nothing before it. -/
def applyCustom (o : CustomOperation) : Effect Unit := do
  cfg.customEvaluator o
  cfg.notifyPostApply o

end NodeConfig

/-! ## The evaluators change only the plugin's tables -/

theorem untouched_modifyTables (f : FollowTables → FollowTables) :
    Untouched World.consensus (modifyTables f) :=
  .modify fun _ => rfl

theorem untouched_countFollow (account : AccountName) (was is : Bool)
    (change : (Nat → Nat) → FollowCountObject → FollowCountObject) :
    Untouched World.consensus (countFollow account was is change) := by
  unfold countFollow
  refine Untouched.get.bind fun w => ?_
  split
  · exact untouched_modifyTables _
  · exact untouched_modifyTables _

theorem untouched_follow (o : FollowOperation) :
    Untouched World.consensus (followEvaluator o) := by
  unfold followEvaluator
  refine Untouched.get.bind fun w => ?_
  refine (Untouched.ofResult _).bind fun _ => ?_
  have hcounts (was is : Bool) : Untouched World.consensus (do
      countFollow o.follower was is fun g c => { c with followingCount := g c.followingCount }
      countFollow o.following was is fun g c => { c with followerCount := g c.followerCount }) :=
    (untouched_countFollow _ _ _ _).bind fun _ => untouched_countFollow _ _ _ _
  dsimp only
  split
  · exact (untouched_modifyTables _).bind fun _ => hcounts _ _
  · exact (untouched_modifyTables _).bind fun _ => hcounts _ _

section Reblog

variable {κ : Type} {view : World → κ}

/-- The view shows neither blogs nor feeds. -/
def Blind (view : World → κ) : Prop :=
  ∀ (w : World) (t : FollowTables), t.follows = w.follow.follows → t.counts = w.follow.counts →
    view { w with follow := t } = view w

theorem Blind.modifyTables (hview : Blind view) {f : FollowTables → FollowTables}
    (hfollows : ∀ t, (f t).follows = t.follows) (hcounts : ∀ t, (f t).counts = t.counts) :
    Untouched view (modifyTables f) :=
  .modify fun w => hview w (f w.follow) (hfollows _) (hcounts _)

theorem untouched_feedFollower (hview : Blind view) (maxSize : Nat) (account : AccountName)
    (c : ContentObject) (follower : AccountName) :
    Untouched view (feedFollower maxSize account c follower) := by
  unfold feedFollower
  refine Untouched.get.bind fun w => ?_
  dsimp only
  split
  · refine (Untouched.ofResult _).bind fun _ => ?_
    exact (hview.modifyTables (fun _ => by rfl) fun _ => by rfl).bind fun _ =>
      hview.modifyTables (fun _ => by rfl) fun _ => by rfl
  · exact (hview.modifyTables (fun _ => by rfl) fun _ => by rfl).bind fun _ =>
      hview.modifyTables (fun _ => by rfl) fun _ => by rfl

theorem untouched_countGuest (hview : Blind view) (blogger guest : AccountName) :
    Untouched view (countGuest blogger guest) := by
  unfold countGuest
  refine Untouched.get.bind fun w => ?_
  dsimp only
  split
  · exact hview.modifyTables (fun _ => by rfl) fun _ => by rfl
  · exact hview.modifyTables (fun _ => by rfl) fun _ => by rfl

theorem untouched_reblog (hview : Blind view) (maxSize : Nat) (o : ReblogOperation) :
    Untouched view (reblogEvaluator maxSize o) := by
  unfold reblogEvaluator
  refine Untouched.get.bind fun w => ?_
  refine (Untouched.ofResult _).bind fun c => ?_
  refine (Untouched.ofResult _).bind fun _ => ?_
  refine (Untouched.ofResult _).bind fun _ => ?_
  refine (Untouched.ofResult _).bind fun _ => ?_
  refine (hview.modifyTables (fun _ => by rfl) fun _ => by rfl).bind fun _ => ?_
  refine (untouched_countGuest hview _ _).bind fun _ => ?_
  refine Untouched.forM (fun f => ?_) _
  split
  · exact untouched_feedFollower hview _ _ _ _
  · exact .pure ()

end Reblog

section Plugin

variable {V : Type} {p : FollowPlugin V} {o : CustomOperation} {w w' : World}

theorem untouched_evaluate (p : FollowPlugin V) (op : FollowPluginOperation) :
    Untouched World.consensus (p.evaluate op) := by
  cases op with
  | follow op => exact untouched_follow op
  | reblog op => exact untouched_reblog (fun _ _ _ _ => rfl) p.maxFeedSize op

theorem consensus_of_applied {json : String} (h : p.interpreter.Applied o json w w') :
    w'.consensus = w.consensus := by
  obtain ⟨v, ops, -, -, -, hrun⟩ := h
  have hkept := Untouched.forM (untouched_evaluate p) ops w
  unfold leaves at hkept
  rw [show ops.forM p.evaluate w = .ok () w' from hrun] at hkept
  exact hkept

/-! ## What becomes of a custom operation -/

/-- Nothing is interpreted, or all of the text, or all of what stands in it in the older
format. -/
inductive Interpreted (p : FollowPlugin V) (o : CustomOperation) (w : World) : World → Prop
  | nothing : Interpreted p o w w
  | all {w' : World} : p.interpreter.Applied o o.json w w' → Interpreted p o w w'
  | older {w' : World} {v : V} {op : FollowOperation} : p.fromString o.json = .ok v →
      p.asFollow v = .ok op → p.interpreter.Applied o (p.toJson (.follow op)) w w' →
      Interpreted p o w w'

theorem Interpreted.consensus (h : Interpreted p o w w') : w'.consensus = w.consensus := by
  cases h with
  | nothing => rfl
  | all h => exact consensus_of_applied h
  | older _ _ h => exact consensus_of_applied h

theorem visitCustom_interpreted (p : FollowPlugin V) (o : CustomOperation) (w : World) :
    Interpreted p o w (leaves (p.visitCustom o) w) := by
  unfold FollowPlugin.visitCustom
  split
  · split
    · exact .nothing
    · rename_i op hread
      rw [bind_eq_ok] at hread
      obtain ⟨v, hv, hop⟩ := hread
      rcases CustomOperations.interpret_cases p.interpreter
        { o with json := p.toJson (.follow op) } w with hsame | happlied
      · rw [hsame]
        exact .nothing
      · obtain ⟨v', ops, hv', hops, hpermitted, hrun⟩ := happlied
        refine .older hv hop ⟨v', ops, hv', hops, ?_, hrun⟩
        exact ⟨hpermitted.valid, hpermitted.active, hpermitted.master, hpermitted.regular,
          hpermitted.other⟩
  · exact .nothing

theorem interpret_interpreted (p : FollowPlugin V) (o : CustomOperation) (w : World) :
    Interpreted p o w (leaves (p.interpreter.interpret o) w) := by
  rcases CustomOperations.interpret_cases p.interpreter o w with hsame | happlied
  · rw [hsame]
    exact .nothing
  · exact .all happlied

/-- The evaluator: the checks of the operation itself come first. -/
theorem customEvaluator_eq (cfg : NodeConfig V) (o : CustomOperation) (w : World) :
    cfg.customEvaluator o w =
      match w.consensus.db.custom o with
      | .error e => .error e w
      | .ok db =>
        (match cfg.getCustomEvaluator o.id with
          | none => pure ()
          | some p => catching (fun _ => !cfg.producing) (p.interpreter.interpret o) :
          Effect Unit) { w with consensus := { w.consensus with db := db } } := by
  unfold NodeConfig.customEvaluator
  show (ofResult (w.consensus.db.custom o) >>= _) w = _
  cases w.consensus.db.custom o with
  | error e => rfl
  | ok db => rfl

/-- The evaluator on a node with the plugin. -/
theorem customEvaluator_with (p : FollowPlugin V) (push : Bool) (o : CustomOperation)
    (c : Consensus) (t : FollowTables) :
    (∃ e, c.db.custom o = .error e ∧
      NodeConfig.customEvaluator ⟨some p, false, push⟩ o ⟨c, t⟩ = .error e ⟨c, t⟩) ∨
    ∃ db w, c.db.custom o = .ok db ∧ Interpreted p o ⟨{ c with db := db }, t⟩ w ∧
      NodeConfig.customEvaluator ⟨some p, false, push⟩ o ⟨c, t⟩ = .ok () w := by
  rw [customEvaluator_eq]
  dsimp only
  cases c.db.custom o with
  | error e => exact .inl ⟨e, rfl, rfl⟩
  | ok db =>
    refine .inr ⟨db, ?_⟩
    unfold NodeConfig.getCustomEvaluator
    by_cases hid : o.id = "follow"
    · refine ⟨leaves (p.interpreter.interpret o) ⟨{ c with db := db }, t⟩, rfl,
        interpret_interpreted p o _, ?_⟩
      rw [if_pos hid]
      exact catching_eq_ok (fun _ => rfl) _ _
    · refine ⟨⟨{ c with db := db }, t⟩, rfl, .nothing, ?_⟩
      rw [if_neg hid]
      rfl

/-- The evaluator on a node without the plugin. -/
theorem customEvaluator_without (producing push : Bool) (o : CustomOperation) (c : Consensus)
    (t : FollowTables) :
    NodeConfig.customEvaluator (V := V) ⟨none, producing, push⟩ o ⟨c, t⟩ =
      match c.db.custom o with
      | .error e => .error e ⟨c, t⟩
      | .ok db => .ok () ⟨{ c with db := db }, t⟩ := by
  rw [customEvaluator_eq]
  cases hdb : c.db.custom o with
  | error e => rfl
  | ok db =>
    unfold NodeConfig.getCustomEvaluator
    by_cases hid : o.id = "follow"
    · rw [if_pos hid]
      rfl
    · rw [if_neg hid]
      rfl

theorem notifyPostApply_eq (p : FollowPlugin V) (producing push : Bool) (o : CustomOperation)
    (w : World) : NodeConfig.notifyPostApply ⟨some p, producing, push⟩ o w =
      .ok () (if !producing || push then leaves (p.visitCustom o) w else w) := by
  unfold NodeConfig.notifyPostApply
  split
  · refine (catching_eq_ok (fun _ => rfl) _ _).trans ?_
    unfold NodeConfig.postOperation
    rw [leaves_catching]
  · rfl

theorem notifyPostApply_with (p : FollowPlugin V) (push : Bool) (o : CustomOperation) (w : World) :
    ∃ w', Interpreted p o w w' ∧
      NodeConfig.notifyPostApply ⟨some p, false, push⟩ o w = .ok () w' :=
  ⟨leaves (p.visitCustom o) w, visitCustom_interpreted p o w, notifyPostApply_eq p false push o w⟩

theorem notifyPostApply_without (producing push : Bool) (o : CustomOperation) (w : World) :
    NodeConfig.notifyPostApply (V := V) ⟨none, producing, push⟩ o w = .ok () w := by
  unfold NodeConfig.notifyPostApply
  split <;> rfl

/-- How a custom operation ends on two nodes with the same objects `c` outside the plugin's tables,
the first of which has the plugin and its tables `t`. -/
inductive EndsAlike (p : FollowPlugin V) (o : CustomOperation) (c : Consensus)
    (t t' : FollowTables) :
    EStateM.Result Exception World Unit → EStateM.Result Exception World Unit → Prop
  | succeeds {c' : Consensus} {w₁ w : World} : Interpreted p o ⟨c', t⟩ w₁ →
      Interpreted p o w₁ w → w.consensus = c' →
      EndsAlike p o c t t' (.ok () w) (.ok () ⟨c', t'⟩)
  | fails (e : Exception) : EndsAlike p o c t t' (.error e ⟨c, t⟩) (.error e ⟨c, t'⟩)

/-- **Custom operations** succeed on a node with the plugin exactly when they succeed on a node
without it, with the same consequences outside the plugin's tables.  The plugin applies the inner
operations completely or not at all, and only with the authorities of the custom operation. -/
theorem applyCustom_agrees (p : FollowPlugin V) (push push' : Bool) (o : CustomOperation)
    (c : Consensus) (t t' : FollowTables) :
    EndsAlike p o c t t' (NodeConfig.applyCustom ⟨some p, false, push⟩ o ⟨c, t⟩)
      (NodeConfig.applyCustom (V := V) ⟨none, false, push'⟩ o ⟨c, t'⟩) := by
  have hwithout := customEvaluator_without (V := V) false push' o c t'
  unfold NodeConfig.applyCustom
  rcases customEvaluator_with p push o c t with ⟨e, hdb, hwith⟩ | ⟨db, w₁, hdb, hfirst, hwith⟩
  · rw [hdb] at hwithout
    rw [bind_apply_of_error hwith, bind_apply_of_error hwithout]
    exact .fails e
  · rw [hdb] at hwithout
    obtain ⟨w, hsecond, hnotify⟩ := notifyPostApply_with p push o w₁
    rw [bind_apply_of_ok hwith, bind_apply_of_ok hwithout, hnotify, notifyPostApply_without]
    exact .succeeds hfirst hsecond (hsecond.consensus.trans hfirst.consensus)

end Plugin

/-- Every text says that alice follows the blog of bob. -/
def blogPlugin : FollowPlugin Unit where
  fromString _ := .ok ()
  getArray _ := none
  fromVariant _ := .ok (.follow ⟨"alice", "bob", ["blog"]⟩)
  asFollow _ := .error (.assertion "follow_operation")
  toJson _ := ""
  maxFeedSize := 500

/-- The pairs in the table after a custom operation of `account`. -/
def followsAfter (account : AccountName) : List (AccountName × AccountName) :=
  let accounts : List AccountObject := [{ id := 0, name := "alice" }, { id := 1, name := "bob" }]
  let o : CustomOperation :=
    { requiredActiveAuths := [], requiredRegularAuths := [account], id := "follow", json := "" }
  let w := leaves (NodeConfig.applyCustom ⟨some blogPlugin, false, false⟩ o)
    ⟨⟨{ accounts := ⟨accounts, 2⟩ }, {}⟩, {}⟩
  w.follow.follows.rows.map fun f => (f.follower, f.following)

example : followsAfter "alice" = [("alice", "bob")] ∧ followsAfter "bob" = [] := by decide +kernel

end VizCore.Plugins
