import VizCore.Chain.Block.Turns

/-!
# Aspects of the core

What an invariant looks at is a view of the core: the stakes, the delegated shares, what rests
on the shares, the power downs, the ballots, the control over accounts, the memo keys, the auctions, the
withdrawal routes, the proposals, what is remembered of transactions, the turns of the
witnesses, the reward shares, the requests to the committee, what is known about irreversible
blocks, the subscriptions, the slots, the ids of the last blocks, the capacity, the blocks that
witnesses support, or the seats of the schedule.
An operation or a step changes few of them by itself; to the others it is a drift, in which
accounts and witnesses are created and tokens are vested.

* `Db.rows_modifyAccount`: what changing an account does to the rows of an aspect;
* `Turns.drift`: what an aspect shows of turns.
-/

namespace VizCore.Chain

open VizCore.Lib VizCore.Protocol

/-! ## Views -/

structure StakeRow where
  name : AccountName
  shares : Int

structure LoanRow where
  name : AccountName
  delegated : Int
  received : Int

structure BurdenRow where
  name : AccountName
  shares : Int
  delegated : Int
  rate : Int
  next : TimePointSec
  withdrawn : Int
  toWithdraw : Int

structure PowerDownRow where
  name : AccountName
  withdrawn : Int
  toWithdraw : Int

structure BallotRow where
  id : Nat
  name : AccountName
  shares : Int
  proxy : AccountName
  proxied : List Int
  votedFor : Nat
  weight : Int

structure MemoRow where
  name : AccountName
  memo : PublicKey

structure ControlRow where
  name : AccountName
  recovery : AccountName
  onSale : Bool

structure AuctionRow where
  name : AccountName
  reserved : Int
  onAuction : Bool
  bid : Int
  bidder : AccountName

inductive Aspect
  | stake
  | loans
  | burdens
  | powerDowns
  | ballots
  | control
  | memos
  | auctions
  | routes
  | proposals
  | records
  | panel
  | rewards
  | requests
  | finality
  | subscribes
  | slots
  | summaries
  | capacity
  | supports
  | seats
  deriving DecidableEq

namespace Aspect

/-- What the aspect shows of an account. -/
def Row : Aspect → Type
  | .stake => StakeRow
  | .loans => LoanRow
  | .burdens => BurdenRow
  | .powerDowns => PowerDownRow
  | .ballots => BallotRow
  | .control => ControlRow
  | .memos => MemoRow
  | .auctions => AuctionRow
  | .routes | .proposals | .records | .panel | .rewards | .requests | .finality
  | .subscribes | .slots | .summaries | .capacity | .supports | .seats => Unit

def row : (x : Aspect) → AccountCore → x.Row
  | .stake, a => (⟨a.name, a.shares⟩ : StakeRow)
  | .loans, a => (⟨a.name, a.delegated, a.received⟩ : LoanRow)
  | .burdens, a =>
    (⟨a.name, a.shares, a.delegated, a.rate, a.next, a.withdrawn, a.toWithdraw⟩ : BurdenRow)
  | .powerDowns, a => (⟨a.name, a.withdrawn, a.toWithdraw⟩ : PowerDownRow)
  | .ballots, a =>
    (⟨a.id, a.name, a.shares, a.proxy, a.proxied, a.votedFor, a.weight⟩ : BallotRow)
  | .control, a => (⟨a.name, a.recovery, a.onSale⟩ : ControlRow)
  | .memos, a => (⟨a.name, a.memo⟩ : MemoRow)
  | .auctions, a => (⟨a.name, a.reserved, a.onAuction, a.bid, a.bidder⟩ : AuctionRow)
  | .routes, _ | .proposals, _ | .records, _ | .panel, _ | .rewards, _ | .requests, _
  | .finality, _ | .subscribes, _ | .slots, _ | .summaries, _ | .capacity, _ | .supports, _
  | .seats, _ => ()

end Aspect

structure StakeRest where
  totalShares : Int
  totalFund : Int

structure LoanRest where
  delegations : Table VestingDelegationObject
  expirations : Table VestingDelegationExpirationObject

structure BallotRest where
  witnesses : Table WitnessCore
  votes : Table WitnessVoteObject

structure ControlRest where
  authorities : Table AccountAuthorityObject
  history : Table MasterAuthorityHistoryObject
  recoveryRequests : Table AccountRecoveryRequestObject
  changeRequests : Table ChangeRecoveryAccountRequestObject

structure ProposalRest where
  proposals : Table ProposalObject
  approvals : Table RequiredApprovalObject

structure RecordRest where
  transactions : Table TransactionObject
  time : TimePointSec
  number : Nat
  headId : BlockId

structure PanelRest where
  witnesses : Table PanelRow
  penalties : Table WitnessPenaltyExpireObject
  time : Nat

structure RewardRest where
  shares : Nat
  awards : Table AwardSharesExpireObject

structure RequestRest where
  requests : Table CommitteeRequestObject
  votes : Table CommitteeVoteObject

structure FinalityRest where
  irreversible : Nat
  validations : Table BlockPostValidationObject

structure SubscribeRest where
  subscriptions : Table PaidSubscriptionObject
  subscribes : Table PaidSubscribeObject

structure SlotRest where
  aslot : Nat
  recent : Nat
  participation : Nat

namespace Aspect

/-- What the aspect shows besides the accounts. -/
def Rest : Aspect → Type
  | .stake => StakeRest
  | .loans => LoanRest
  | .burdens => Unit
  | .powerDowns => Unit
  | .ballots => BallotRest
  | .control => ControlRest
  | .memos => Unit
  | .auctions => Unit
  | .routes => Table WithdrawVestingRouteObject
  | .proposals => ProposalRest
  | .records => RecordRest
  | .panel => PanelRest
  | .rewards => RewardRest
  | .requests => RequestRest
  | .finality => FinalityRest
  | .subscribes => SubscribeRest
  | .slots => SlotRest
  | .summaries => Table BlockSummaryObject
  | .capacity => Capacity
  | .supports => Table SupportRow
  | .seats => List AccountName × Nat

def rest : (x : Aspect) → Core → x.Rest
  | .stake, c => (⟨c.totalShares, c.totalFund⟩ : StakeRest)
  | .loans, c => (⟨c.delegations, c.expirations⟩ : LoanRest)
  | .burdens, _ => ()
  | .powerDowns, _ => ()
  | .ballots, c => (⟨c.witnesses, c.witnessVotes⟩ : BallotRest)
  | .control, c =>
    (⟨c.authorities, c.history, c.recoveryRequests, c.changeRequests⟩ : ControlRest)
  | .memos, _ => ()
  | .auctions, _ => ()
  | .routes, c => c.routes
  | .proposals, c => (⟨c.proposals, c.approvals⟩ : ProposalRest)
  | .records, c => (⟨c.transactions, c.time, c.number, c.headId⟩ : RecordRest)
  | .panel, c => (⟨c.panel, c.penalties, c.virtualTime⟩ : PanelRest)
  | .rewards, c => (⟨c.rewardShares, c.awards⟩ : RewardRest)
  | .requests, c => (⟨c.requests, c.requestVotes⟩ : RequestRest)
  | .finality, c => (⟨c.irreversible, c.validations⟩ : FinalityRest)
  | .subscribes, c => (⟨c.subscriptions, c.subscribes⟩ : SubscribeRest)
  | .slots, c => (⟨c.aslot, c.recentSlots, c.participation⟩ : SlotRest)
  | .summaries, c => c.summaries
  | .capacity, c => c.capacity
  | .supports, c => c.supports
  | .seats, c => c.seats

structure View (x : Aspect) where
  rows : Table x.Row
  rest : x.Rest

/-- Vesting tokens changes the stakes and what depends on them. -/
def vests : Aspect → Bool
  | .stake | .burdens | .ballots | .panel => true
  | _ => false

/-- So does a withdrawal, which a power down shows besides. -/
def withdraws (x : Aspect) : Bool := x.vests || x = .powerDowns

end Aspect

def Core.view (c : Core) (x : Aspect) : x.View := ⟨c.accounts.image x.row, x.rest c⟩

namespace Db

variable {x : Aspect} {db db' : Db} {name : AccountName}

def view (db : Db) (x : Aspect) : x.View := db.core.view x

theorem view_of_core (h : db'.core = db.core) : db'.view x = db.view x := by
  unfold view
  rw [h]

theorem view_of_withoutRewards (hx : x ≠ .rewards)
    (h : db'.core.withoutRewards = db.core.withoutRewards) : db'.view x = db.view x := by
  have hview (c : Core) : c.view x = c.withoutRewards.view x := by
    cases x with
    | rewards => exact absurd rfl hx
    | _ => rfl
  unfold view
  rw [hview, h, ← hview]

theorem view_of_withoutRequests (hx : x ≠ .requests)
    (h : db'.core.withoutRequests = db.core.withoutRequests) : db'.view x = db.view x := by
  have hview (c : Core) : c.view x = c.withoutRequests.view x := by
    cases x with
    | requests => exact absurd rfl hx
    | _ => rfl
  unfold view
  rw [hview, h, ← hview]

theorem view_of_withoutSubscribes (hx : x ≠ .subscribes)
    (h : db'.core.withoutSubscribes = db.core.withoutSubscribes) : db'.view x = db.view x := by
  have hview (c : Core) : c.view x = c.withoutSubscribes.view x := by
    cases x with
    | subscribes => exact absurd rfl hx
    | _ => rfl
  unfold view
  rw [hview, h, ← hview]

/-- A change of an account that the aspect does not show. -/
theorem view_modifyAccount_of_same (x : Aspect) (db : Db) (name : AccountName)
    (f : AccountObject → AccountObject) (h : ∀ a, x.row (f a).core = x.row a.core) :
    (db.modifyAccount name f).view x = db.view x := by
  have hrows := Table.image_update_of_same db.accounts (fun a => x.row a.core) (·.name) name f h
  have hrest : x.rest (db.modifyAccount name f).core = x.rest db.core := by cases x <;> rfl
  show Aspect.View.mk (((db.accounts.update (·.name) name f).image AccountObject.core).image x.row)
    _ = _
  rw [Table.image_image, hrows, hrest, ← Table.image_image]
  rfl

/-- The row of an account that is found. -/
theorem rows_find (db : Db) {key : x.Row → AccountName} (hkey : ∀ a, key (x.row a) = a.name)
    (name : AccountName) :
    (db.view x).rows.get key name = (db.findAccount name).map fun a => x.row a.core := by
  unfold view Core.view
  rw [show db.core.accounts = db.accounts.image AccountObject.core from rfl, Table.image_image,
    Table.get_image]
  simp only [hkey]
  rfl

theorem rows_modifyAccount (db : Db) {key : x.Row → AccountName}
    (hkey : ∀ a, key (x.row a) = a.name) (name : AccountName) (f : AccountObject → AccountObject)
    (φ : x.Row → x.Row) (h : ∀ a, x.row (f a).core = φ (x.row a.core)) :
    ((db.modifyAccount name f).view x).rows = (db.view x).rows.update key name φ := by
  unfold view Core.view
  rw [show (db.modifyAccount name f).core.accounts =
    (db.accounts.update (·.name) name f).image AccountObject.core from rfl,
    show db.core.accounts = db.accounts.image AccountObject.core from rfl, Table.image_image,
    Table.image_image, ← Table.image_update db.accounts (fun a => x.row a.core) key name f φ h]
  simp only [hkey]
  rfl

theorem view_of_votesOnly (hx : x ≠ .ballots) (hx' : x ≠ .panel) (h : VotesOnly db db') :
    db'.view x = db.view x := by
  obtain ⟨hdb, haccounts, hwitnesses⟩ := h
  have hsupports : db'.witnesses.image WitnessObject.support =
      db.witnesses.image WitnessObject.support := by
    have h := congrArg (fun t => Table.image t WitnessObject.support) hwitnesses
    simp only [Table.image_image] at h
    exact h
  have hrow (a : AccountObject) : x.row a.core = x.row a.withoutVotes.core := by
    cases x with
    | ballots => exact absurd rfl hx
    | _ => rfl
  have hrows : (db'.accounts.image AccountObject.core).image x.row =
      (db.accounts.image AccountObject.core).image x.row := by
    have h := congrArg (fun t => Table.image t fun a => x.row a.core) haccounts
    simp only [Table.image_image] at h ⊢
    simpa only [← hrow] using h
  have hrest : x.rest db'.core = x.rest db.core := by
    rw [hdb]
    cases x with
    | ballots => exact absurd rfl hx
    | panel => exact absurd rfl hx'
    | supports => exact hsupports
    | _ => rfl
  show Aspect.View.mk ((db'.accounts.image AccountObject.core).image x.row) _ = _
  rw [hrows, hrest]
  rfl

theorem createVesting_view {tokens : Int} (hx : x.vests = false)
    (h : db.createVesting name tokens = .ok db') : db'.view x = db.view x := by
  simp only [createVesting, bind_eq_ok] at h
  obtain ⟨v, -, a, -, shares, -, fund, -, total, -, hvotes⟩ := h
  have hne : x ≠ .ballots := by
    rintro rfl
    cases hx
  have hne' : x ≠ .panel := by
    rintro rfl
    cases hx
  refine (view_of_votesOnly hne hne' (adjustProxiedWitnessVotes_votesOnly hvotes)).trans ?_
  have hrow : ∀ b : AccountObject,
      x.row { b with vestingShares := shares }.core = x.row b.core := by
    intro b
    cases x with
    | stake | burdens | ballots | panel => cases hx
    | _ => rfl
  refine Eq.trans ?_ (view_modifyAccount_of_same x db name _ hrow)
  cases x with
  | stake => cases hx
  | _ => rfl

end Db

/-! ## Drifts -/

/-- An elementary change as the aspect shows it; where `g` holds no shares are lost by vesting. -/
inductive Glide (x : Aspect) (g : Prop) : Db → Db → Prop
  | same {db db' : Db} (h : db'.view x = db.view x) : Glide x g db db'
  | register {db db' : Db} (name recovery : AccountName) (memo : PublicKey)
      (auth : Nat → AccountAuthorityObject) (hauth : ∀ id, (auth id).account = name)
      (hnew : db.findAccount name = none)
      (h : db'.view x = (db.core.register name recovery memo auth).view x) : Glide x g db db'
  | declare {db db' : Db} (owner : AccountName) (hnew : db.findWitness owner = none)
      (h : db'.view x = (db.core.declare owner).view x) : Glide x g db db'
  | vest {db db' : Db} (name : AccountName) (tokens : Int) (ok : g → db.VestsUp tokens)
      (h : db.createVesting name tokens = .ok db') : Glide x g db db'

def Drift (x : Aspect) (g : Prop) : Db → Db → Prop := Relation.ReflTransGen (Glide x g)

namespace Drift

variable {x : Aspect} {g : Prop} {a b c : Db}

theorem refl (a : Db) : Drift x g a a := Relation.ReflTransGen.refl

theorem trans (h : Drift x g a b) (h' : Drift x g b c) : Drift x g a c :=
  Relation.ReflTransGen.trans h h'

theorem single (h : Glide x g a b) : Drift x g a b := Relation.ReflTransGen.single h

theorem same (h : b.view x = a.view x) : Drift x g a b := single (.same h)

theorem of_core (h : b.core = a.core) : Drift x g a b := same (Db.view_of_core h)

/-- What every elementary change keeps, a drift keeps. -/
theorem invariant {I : Db → Prop} (hI : ∀ db db', Glide x g db db' → I db → I db')
    (h : Drift x g a b) (ha : I a) : I b := by
  induction h with
  | refl => exact ha
  | tail _ hglide ih => exact hI _ _ hglide ih

/-- A stronger guard. -/
theorem imp {g' : Prop} (hg : g' → g) (h : Drift x g a b) : Drift x g' a b := by
  refine Relation.ReflTransGen.mono (fun _ _ hglide => ?_) a b h
  cases hglide with
  | same h => exact .same h
  | register name recovery memo auth hauth hnew h =>
    exact .register name recovery memo auth hauth hnew h
  | declare owner hnew h => exact .declare owner hnew h
  | vest name tokens ok h => exact .vest name tokens (fun h' => ok (hg h')) h

/-- What an aspect shows besides the accounts stays as it is, where neither new accounts and
witnesses nor vesting are part of it. -/
theorem rest (h : Drift x g a b) (hvests : x.vests = false)
    (hregister : ∀ c name recovery memo auth,
      x.rest (Core.register c name recovery memo auth) = x.rest c)
    (hdeclare : ∀ c owner, x.rest (Core.declare c owner) = x.rest c) :
    (b.view x).rest = (a.view x).rest := by
  refine h.invariant (I := fun d => (d.view x).rest = (a.view x).rest) (fun d d' hglide hd => ?_) rfl
  refine Eq.trans ?_ hd
  cases hglide with
  | same h => exact congrArg Aspect.View.rest h
  | register name recovery memo auth hauth hnew h =>
    exact (congrArg Aspect.View.rest h).trans (hregister _ _ _ _ _)
  | declare owner hnew h => exact (congrArg Aspect.View.rest h).trans (hdeclare _ _)
  | vest name tokens ok h => exact congrArg Aspect.View.rest (Db.createVesting_view hvests h)

theorem foldlM {α : Type} {f : Db → α → Result Db} {l : List α}
    (hf : ∀ y db db', f db y = .ok db' → Drift x g db db') (h : l.foldlM f a = .ok b) :
    Drift x g a b :=
  foldlM_invariant (fun db => Drift x g a db) f l
    (fun y _ db db' hdb hy => hdb.trans (hf y db db' hy)) a b (.refl a) h

end Drift

/-- What an aspect shows of a turn. -/
theorem Turn.glide {g : Prop} {db db' : Db} (h : Turn g db db') (x : Aspect) :
    Glide x g db db' := by
  cases h with
  | quiet h => exact .same (Db.view_of_core h)
  | register name recovery memo auth hauth hnew h =>
    refine .register name recovery memo auth hauth hnew ?_
    unfold Db.view
    rw [h]
  | declare owner hnew h =>
    refine .declare owner hnew ?_
    unfold Db.view
    rw [h]
  | vest name tokens ok h => exact .vest name tokens ok h

theorem Turns.drift {g : Prop} {db db' : Db} (h : Turns g db db') (x : Aspect) :
    Drift x g db db' := by
  induction h with
  | refl => exact .refl db
  | tail _ hturn ih => exact ih.trans (.single (hturn.glide x))

/-- The same where nothing is known about the price. -/
theorem Turns.drift_unguarded {g : Prop} {db db' : Db} (h : Turns g db db') (x : Aspect) :
    Drift x False db db' :=
  (h.imp False.elim).drift x

end VizCore.Chain
