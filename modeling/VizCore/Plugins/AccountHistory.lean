import Mathlib.Data.Prod.Lex
import Mathlib.Data.String.Basic
import VizCore.Plugins.OperationHistory

/-!
# The account history plugin

For every account that a stored operation concerns the plugin files an entry under the next number
of that account, and keeps the first and the last number of each account in a range object.  A
purge drops entries block by block and moves the ranges along.

* `Lined.lowerBound_eq`: a lookup in the index finds the greatest number up to a given one;
* `Covers.next`, `Covers.tail`: one number more at the end, one less at the start;
* `operationVisitor_spec`: filing an entry appends the next number.
-/

namespace VizCore.Plugins

open VizCore.Lib VizCore.Protocol VizCore.Chain

/-! ## Whom an operation concerns -/

/-- What `get_impacted_account_visitor` inserts for an operation of a transaction. -/
def impactedByCarried : Operation → List AccountName
  | .accountCreate op => [op.newAccountName, op.creator]
  | .accountUpdate op => [op.account]
  | .accountMetadata op => [op.account]
  | .content op => op.author :: if op.parentAuthor = "" then [] else [op.parentAuthor]
  | .deleteContent op => [op.author]
  | .vote op => [op.voter, op.author]
  | .transfer op => [op.fromAccount, op.toAccount]
  | .transferToVesting op =>
    op.fromAccount ::
      if op.toAccount ≠ "" ∧ op.toAccount ≠ op.fromAccount then [op.toAccount] else []
  | .withdrawVesting op => [op.account]
  | .witnessUpdate op => [op.owner]
  | .accountWitnessVote op => [op.account, op.witness]
  | .accountWitnessProxy op => [op.account, op.proxy]
  | .requestAccountRecovery op => [op.accountToRecover]
  | .recoverAccount op => [op.accountToRecover]
  | .changeRecoveryAccount op => [op.accountToRecover]
  | .escrowTransfer op => [op.fromAccount, op.toAccount, op.agent]
  | .escrowApprove op => [op.fromAccount, op.toAccount, op.agent]
  | .escrowDispute op => [op.fromAccount, op.toAccount, op.agent]
  | .escrowRelease op => [op.fromAccount, op.toAccount, op.agent]
  | .delegateVestingShares op => [op.delegator, op.delegatee]
  | .proposalCreate author _ _ _ _ _ => [author]
  | .proposalUpdate op =>
    op.activeApprovalsToAdd ++ op.masterApprovalsToAdd ++ op.regularApprovalsToAdd ++
      op.activeApprovalsToRemove ++ op.masterApprovalsToRemove ++ op.regularApprovalsToRemove
  | .proposalDelete op => [op.requester]
  | .setPaidSubscription op => [op.account]
  | .paidSubscribe op => [op.subscriber]
  | .setAccountPrice op => [op.account, op.accountSeller]
  | .targetAccountSale op => [op.account, op.accountSeller, op.targetBuyer]
  | .setSubaccountPrice op => [op.account, op.subaccountSeller]
  | .buyAccount op => [op.account, op.buyer]
  | .createInvite op => [op.creator]
  | .claimInviteBalance op => [op.receiver]
  | .inviteRegistration op => [op.newAccountName]
  | .useInviteBalance op => [op.receiver]
  -- the template of the visitor, for all other operations
  | op =>
    let required := requiredAuthorities op
    required.regular ++ required.active ++ required.master

def impactedByVirtual : VirtualOperation → List AccountName
  | .authorReward author => [author]
  | .curationReward curator => [curator]
  | .contentReward => []
  | .fillVestingWithdraw fromAccount toAccount => [fromAccount, toAccount]
  | .shutdownWitness owner => [owner]
  | .hardfork => []
  | .contentPayoutUpdate => []
  | .contentBenefactorReward benefactor author => [benefactor, author]
  | .returnVestingDelegation account => [account]
  | .committeeCancelRequest => []
  | .committeeApproveRequest => []
  | .committeePayoutRequest => []
  | .committeePayRequest worker => [worker]
  | .witnessReward witness => [witness]
  | .receiveAward receiver => [receiver]
  | .benefactorAward benefactor => [benefactor]
  | .paidSubscriptionAction subscriber account => [subscriber, account]
  | .cancelPaidSubscription subscriber account => [subscriber, account]
  | .accountSale account buyer seller => [buyer, seller, account]
  | .expireEscrowRatification fromAccount toAccount agent => [fromAccount, toAccount, agent]
  | .bid account bidder => [account, bidder]
  | .outbid account bidder => [account, bidder]

/-- `operation_get_impacted_accounts`, whose result is a sorted set. -/
def operationGetImpactedAccounts (op : ChainOperation) : List AccountName :=
  let names := match op with
    | .carried op => impactedByCarried op
    | .virtual op => impactedByVirtual op
  names.foldl (fun s n => insertName n s) []

theorem insertName_sorted {name : AccountName} {l : List AccountName}
    (h : l.Pairwise fun a b => a < b) : (insertName name l).Pairwise fun a b => a < b := by
  induction l with
  | nil => exact List.pairwise_singleton _ _
  | cons n rest ih =>
    have hcons := h
    rw [List.pairwise_cons] at h
    unfold insertName
    split
    · exact hcons
    · rename_i hne
      split
      · rename_i hlt
        rw [List.pairwise_cons]
        refine ⟨?_, hcons⟩
        intro a ha
        rcases List.mem_cons.1 ha with rfl | ha
        · exact hlt
        · exact lt_trans hlt (h.1 a ha)
      · rename_i hge
        rw [List.pairwise_cons]
        refine ⟨?_, ih h.2⟩
        intro a ha
        rcases (mem_insertName a name rest).1 ha with rfl | ha
        · exact lt_of_le_of_ne (not_lt.1 hge) (Ne.symm hne)
        · exact h.1 a ha

theorem foldl_insertName_sorted {names l : List AccountName} (h : l.Pairwise fun a b => a < b) :
    (names.foldl (fun s n => insertName n s) l).Pairwise fun a b => a < b := by
  induction names generalizing l with
  | nil => exact h
  | cons n names ih => exact ih (insertName_sorted h)

/-- Every account is met once. -/
theorem operationGetImpactedAccounts_nodup (op : ChainOperation) :
    (operationGetImpactedAccounts op).Nodup := by
  have hsorted : (operationGetImpactedAccounts op).Pairwise fun a b => a < b :=
    foldl_insertName_sorted List.Pairwise.nil
  exact hsorted.imp fun {a b} hlt => ne_of_lt hlt

/-! ## Tables -/

structure AccountHistoryObject where
  id : Nat
  account : AccountName
  block : Nat
  sequence : Nat
  op : Nat

structure AccountRangeObject where
  id : Nat
  account : AccountName
  startSequence : Nat
  endSequence : Nat

/-- The tables of both history plugins. -/
structure HistoryTables where
  operations : Table OperationObject := {}
  histories : Table AccountHistoryObject := {}
  ranges : Table AccountRangeObject := {}

/-- The keys of `by_account`: sequences descend. -/
def historyKey (account : AccountName) (sequence : Nat) : AccountName ×ₗ ℕᵒᵈ :=
  toLex (account, OrderDual.toDual sequence)

def AccountHistoryObject.key (x : AccountHistoryObject) : AccountName ×ₗ ℕᵒᵈ :=
  historyKey x.account x.sequence

theorem historyKey_le {a b : AccountName} {s u : Nat} :
    historyKey a s ≤ historyKey b u ↔ a < b ∨ a = b ∧ u ≤ s := by
  unfold historyKey
  rw [Prod.Lex.toLex_le_toLex]
  exact Iff.rfl

/-- Between two keys of one account lie entries of this account only. -/
theorem key_between {x : AccountHistoryObject} {account : AccountName} {first last : Nat} :
    historyKey account first ≤ x.key ∧ x.key ≤ historyKey account last ↔
      x.account = account ∧ last ≤ x.sequence ∧ x.sequence ≤ first := by
  unfold AccountHistoryObject.key
  rw [historyKey_le, historyKey_le]
  constructor
  · rintro ⟨hlow | ⟨heq, hfirst⟩, hhigh⟩
    · rcases hhigh with hlt | ⟨heq, _⟩
      · exact absurd (lt_trans hlow hlt) (lt_irrefl _)
      · exact absurd hlow (heq ▸ lt_irrefl _)
    · rcases hhigh with hlt | ⟨_, hlast⟩
      · exact absurd hlt (heq ▸ lt_irrefl _)
      · exact ⟨heq.symm, hlast, hfirst⟩
  · rintro ⟨rfl, hlast, hfirst⟩
    exact ⟨Or.inr ⟨rfl, hfirst⟩, Or.inr ⟨rfl, hlast⟩⟩

/-! ## The plugin -/

/-- The number after the last one of an account. -/
def nextSequence (t : HistoryTables) (account : AccountName) : Nat :=
  match lowerBound AccountHistoryObject.key (historyKey account (2 ^ 32 - 1)) t.histories.rows with
  | x :: _ => if x.account = account then (x.sequence + 1) % 2 ^ 32 else 0
  | [] => 0

/-- `operation_visitor`.  No result means that the entry is not created because its number is taken:
what was written before stays, and the notification ends. -/
def operationVisitor (block dbId : Nat) (t : HistoryTables) (account : AccountName) :
    Option HistoryTables :=
  let sequence := nextSequence t account
  if t.histories.rows.any fun x => x.account = account && x.sequence = sequence then none
  else
    let histories := t.histories.create fun id =>
      { id := id, account := account, block := block, sequence := sequence, op := dbId }
    let ranges := match t.ranges.get (·.account) account with
      | none => t.ranges.create fun id =>
          { id := id, account := account, startSequence := sequence, endSequence := sequence }
      | some _ => t.ranges.update (·.account) account fun r => { r with endSequence := sequence }
    some { t with histories := histories, ranges := ranges }

/-- The visits of a notification, up to the first that throws. -/
def visitAll (block dbId : Nat) : List AccountName → HistoryTables → HistoryTables
  | [], t => t
  | account :: rest, t =>
    match operationVisitor block dbId t account with
    | some t' => visitAll block dbId rest t'
    | none => t

/-- One step of `purge_old_history`. -/
def purgeEntry (t : HistoryTables) (x : AccountHistoryObject) : HistoryTables :=
  let ranges := match t.ranges.get (·.account) x.account with
    | some r =>
      if r.startSequence ≤ x.sequence then
        if r.startSequence = r.endSequence then t.ranges.erase (·.account) x.account
        else t.ranges.update (·.account) x.account fun r =>
          { r with startSequence := (r.startSequence + 1) % 2 ^ 32 }
      else t.ranges
    | none => t.ranges
  { t with ranges := ranges, histories := t.histories.erase (·.id) x.id }

/-- `purge_old_history` of the entries. -/
def purgeHistories (headBlockNum historyCountBlocks : Nat) (t : HistoryTables) : HistoryTables :=
  if historyCountBlocks ≤ headBlockNum then
    (upToBlock (·.block) (headBlockNum - historyCountBlocks) t.histories.rows).foldl purgeEntry t
  else t

/-- Both plugins purge after a block, the stored operations first. -/
def purgeOldHistory (headBlockNum historyCountBlocks : Nat) (t : HistoryTables) : HistoryTables :=
  purgeHistories headBlockNum historyCountBlocks
    { t with operations := purgeOperations headBlockNum historyCountBlocks t.operations }

structure AccountHistory where
  operationHistory : OperationHistory
  /-- in the order of the `flat_map` -/
  trackedAccounts : List (AccountName × AccountName) := []

namespace AccountHistory

variable (P : AccountHistory)

def tracked (item : AccountName) : Bool :=
  if P.trackedAccounts.isEmpty then true
  else
    match P.trackedAccounts.dropWhile fun range => decide (range.1 < item) with
    | range :: _ => decide (range.1 ≤ item ∧ item ≤ range.2)
    | [] => false

/-- The accounts for which an operation is filed. -/
def accounts (op : ChainOperation) : List AccountName :=
  (operationGetImpactedAccounts op).filter P.tracked

/-- `on_operation` of both plugins. -/
def onOperation (block headBlockNum : Nat) (headBlockTime : TimePointSec)
    (note : OperationNotification) (t : HistoryTables) : HistoryTables :=
  if P.operationHistory.stores headBlockNum note.op then
    visitAll block t.operations.nextId (P.accounts note.op)
      { t with operations := t.operations.create (note.object block headBlockTime) }
  else t

end AccountHistory

/-- `get_account_history` -/
def getAccountHistory (account : AccountName) (fromSequence limit : Nat) (t : HistoryTables) :
    Result (List (Nat × AppliedOperation)) := do
  let range ← getOrThrow (t.ranges.get (·.account) account)
    (.assertion ("Account not found in history index, it may have been purged since the last  " ++
      "$\x7bb\x7d blocks are stored in the history"))
  fcAssert (fromSequence = 2 ^ 32 - 1 ∨ range.startSequence ≤ fromSequence)
    "From is less than account history start sequence $\x7bs\x7d"
  fcAssert (fromSequence = 2 ^ 32 - 1 ∨ fromSequence ≤ range.endSequence)
    "From is greater than account history end sequence $\x7bs\x7d"
  fcAssert (limit ≤ 1000) "Limit of $\x7bl\x7d is greater than maxmimum allowed (1000)"
  fcAssert (limit ≤ fromSequence) "From must be greater than limit"
  match lowerBound AccountHistoryObject.key (historyKey account fromSequence)
      t.histories.rows with
  -- the source reads the entry here without asking whether there is one
  | [] => throw (.unknownKey "account_history_index")
  | x :: _ =>
    let found := scan AccountHistoryObject.key (historyKey account fromSequence)
      (historyKey account (x.sequence - limit)) t.histories.rows
    let shown ← found.mapM fun e => do
      let o ← getOrThrow (t.operations.get (·.id) e.op) (.unknownKey "operation_index")
      pure (e.sequence, o.toApplied)
    pure (shown.foldl (fun m e => assign e.1 e.2 m) [])

/-! ## Numbers in a row -/

namespace HistoryTables

/-- The entries of an account, oldest first. -/
def entries (t : HistoryTables) (account : AccountName) : List AccountHistoryObject :=
  t.histories.rows.filter fun x => x.account = account

def sequences (t : HistoryTables) (account : AccountName) : List Nat :=
  (t.entries account).map (·.sequence)

end HistoryTables

/-- The numbers are those from the start to the end of the range. -/
def Covers : Option AccountRangeObject → List Nat → Prop
  | none, l => l = []
  | some r, l =>
    r.startSequence ≤ r.endSequence ∧ r.endSequence < 2 ^ 32 ∧
      l = List.range' r.startSequence (r.endSequence + 1 - r.startSequence)

/-- The entries of every account are numbered as its range says. -/
structure Lined (t : HistoryTables) : Prop where
  keyed : t.ranges.Keyed (·.account)
  covers : ∀ account, Covers (t.ranges.get (·.account) account) (t.sequences account)

theorem mem_sequences {t : HistoryTables} {account : AccountName} {s : Nat} :
    s ∈ t.sequences account ↔
      ∃ x ∈ t.histories.rows, x.account = account ∧ x.sequence = s := by
  unfold HistoryTables.sequences HistoryTables.entries
  rw [List.mem_map]
  constructor
  · rintro ⟨x, hx, hs⟩
    rw [List.mem_filter] at hx
    exact ⟨x, hx.1, of_decide_eq_true hx.2, hs⟩
  · rintro ⟨x, hx, haccount, hs⟩
    exact ⟨x, List.mem_filter.2 ⟨hx, decide_eq_true haccount⟩, hs⟩

namespace Lined

variable {t : HistoryTables} {account : AccountName} {r : AccountRangeObject}

theorem absent (h : Lined t) (hnone : t.ranges.get (·.account) account = none) :
    ∀ x ∈ t.histories.rows, x.account ≠ account := by
  intro x hx haccount
  have hcovers := h.covers account
  rw [hnone] at hcovers
  have hmem : x.sequence ∈ t.sequences account := mem_sequences.2 ⟨x, hx, haccount, rfl⟩
  rw [show t.sequences account = [] from hcovers] at hmem
  cases hmem

theorem bounds (h : Lined t) (hr : t.ranges.get (·.account) account = some r) :
    r.startSequence ≤ r.endSequence ∧ r.endSequence < 2 ^ 32 := by
  have hcovers := h.covers account
  rw [hr] at hcovers
  exact ⟨hcovers.1, hcovers.2.1⟩

theorem sequences_eq (h : Lined t) (hr : t.ranges.get (·.account) account = some r) :
    t.sequences account =
      List.range' r.startSequence (r.endSequence + 1 - r.startSequence) := by
  have hcovers := h.covers account
  rw [hr] at hcovers
  exact hcovers.2.2

theorem sequence_iff (h : Lined t) (hr : t.ranges.get (·.account) account = some r) (s : Nat) :
    (∃ x ∈ t.histories.rows, x.account = account ∧ x.sequence = s) ↔
      r.startSequence ≤ s ∧ s ≤ r.endSequence := by
  rw [← mem_sequences, h.sequences_eq hr, List.mem_range'_1]
  have hbounds := h.bounds hr
  omega

/-- **A lookup** finds the greatest number of the account up to the one it asks for. -/
theorem lowerBound_eq (h : Lined t) (hr : t.ranges.get (·.account) account = some r) {s : Nat}
    (hs : r.startSequence ≤ s) :
    ∃ x rest, lowerBound AccountHistoryObject.key (historyKey account s) t.histories.rows =
        x :: rest ∧ x.account = account ∧ x.sequence = min s r.endSequence := by
  have hbounds := h.bounds hr
  have hmin : r.startSequence ≤ min s r.endSequence ∧ min s r.endSequence ≤ r.endSequence := by
    omega
  obtain ⟨y, hy, hyaccount, hysequence⟩ := (h.sequence_iff hr _).2 hmin
  have hbetween : historyKey account s ≤ y.key ∧ y.key ≤ historyKey account (min s r.endSequence) :=
    key_between.2 ⟨hyaccount, by omega, by omega⟩
  cases hfound : lowerBound AccountHistoryObject.key (historyKey account s) t.histories.rows with
  | nil =>
    have hlt := lowerBound_eq_nil hfound y hy
    exact absurd hlt (not_lt.2 hbetween.1)
  | cons x rest =>
    obtain ⟨⟨hx, hge⟩, hleast⟩ := lowerBound_head hfound
    have hle := (hleast y hy hbetween.1).trans hbetween.2
    obtain ⟨hxaccount, hlow, hhigh⟩ := key_between.1 ⟨hge, hle⟩
    have hin := (h.sequence_iff hr x.sequence).1 ⟨x, hx, hxaccount, rfl⟩
    exact ⟨x, rest, rfl, hxaccount, by omega⟩

theorem nextSequence_of_none (h : Lined t)
    (hnone : t.ranges.get (·.account) account = none) : nextSequence t account = 0 := by
  unfold nextSequence
  split
  · rename_i x rest hfound
    have hx := (lowerBound_head hfound).1.1
    rw [if_neg (h.absent hnone x hx)]
  · rfl

theorem nextSequence_of_some (h : Lined t) (hr : t.ranges.get (·.account) account = some r) :
    nextSequence t account = (r.endSequence + 1) % 2 ^ 32 := by
  have hbounds := h.bounds hr
  obtain ⟨x, rest, hfound, haccount, hsequence⟩ :=
    h.lowerBound_eq hr (s := 2 ^ 32 - 1) (by omega)
  unfold nextSequence
  rw [hfound]
  show (if x.account = account then (x.sequence + 1) % 2 ^ 32 else 0) = _
  rw [if_pos haccount, hsequence, min_eq_right (by omega)]

end Lined

/-! ## Filing an entry -/

/-- The entry that a visit files. -/
def nextEntry (block dbId : Nat) (t : HistoryTables) (account : AccountName) :
    AccountHistoryObject :=
  { id := t.histories.nextId
    account := account
    block := block
    sequence := nextSequence t account
    op := dbId }

/-- There is a number left for the account. -/
def Fits (t : HistoryTables) (account : AccountName) : Prop :=
  ∀ r, t.ranges.get (·.account) account = some r → r.endSequence + 1 < 2 ^ 32

instance Fits.decidable (t : HistoryTables) (account : AccountName) : Decidable (Fits t account) :=
  inferInstanceAs (Decidable (∀ r ∈ t.ranges.get (·.account) account, r.endSequence + 1 < 2 ^ 32))

theorem nextSequence_fresh {t : HistoryTables} {account : AccountName} (h : Lined t)
    (hfits : Fits t account) :
    ¬ (t.histories.rows.any fun x => x.account = account && x.sequence = nextSequence t account)
      = true := by
  intro hany
  obtain ⟨x, hx, htaken⟩ := List.any_eq_true.1 hany
  rw [Bool.and_eq_true, decide_eq_true_eq, decide_eq_true_eq] at htaken
  obtain ⟨haccount, hsequence⟩ := htaken
  cases hr : t.ranges.get (·.account) account with
  | none => exact h.absent hr x hx haccount
  | some r =>
    have hin := (h.sequence_iff hr x.sequence).1 ⟨x, hx, haccount, rfl⟩
    rw [hsequence, h.nextSequence_of_some hr, Nat.mod_eq_of_lt (hfits r hr)] at hin
    omega

theorem sequences_append_same {t t' : HistoryTables} {x : AccountHistoryObject}
    {account : AccountName} (hrows : t'.histories.rows = t.histories.rows ++ [x])
    (haccount : x.account = account) :
    t'.sequences account = t.sequences account ++ [x.sequence] := by
  unfold HistoryTables.sequences HistoryTables.entries
  rw [hrows, List.filter_append, List.map_append]
  simp [haccount]

theorem sequences_append_other {t t' : HistoryTables} {x : AccountHistoryObject}
    {account : AccountName} (hrows : t'.histories.rows = t.histories.rows ++ [x])
    (hne : x.account ≠ account) : t'.sequences account = t.sequences account := by
  unfold HistoryTables.sequences HistoryTables.entries
  rw [hrows, List.filter_append, List.map_append]
  simp [hne]

/-- The first number of an account. -/
theorem Covers.first (r : AccountRangeObject) (hstart : r.startSequence = 0)
    (hend : r.endSequence = 0) : Covers (some r) [0] := by
  refine ⟨by omega, by omega, ?_⟩
  rw [hstart, hend]
  rfl

/-- One number more at the end. -/
theorem Covers.next {r : AccountRangeObject} {l : List Nat} (h : Covers (some r) l)
    (hfits : r.endSequence + 1 < 2 ^ 32) :
    Covers (some { r with endSequence := r.endSequence + 1 }) (l ++ [r.endSequence + 1]) := by
  obtain ⟨hle, _, hl⟩ := h
  have hlength : r.endSequence + 1 + 1 - r.startSequence =
      r.endSequence + 1 - r.startSequence + 1 := by omega
  have hlast : r.startSequence + (r.endSequence + 1 - r.startSequence) =
      r.endSequence + 1 := by omega
  refine ⟨Nat.le_succ_of_le hle, hfits, ?_⟩
  show _ = List.range' r.startSequence (r.endSequence + 1 + 1 - r.startSequence)
  rw [hlength, List.range'_concat, Nat.one_mul, hlast, hl]

/-- One number less at the start. -/
theorem Covers.tail {r : AccountRangeObject} {s : Nat} {l : List Nat}
    (h : Covers (some r) (s :: l)) :
    s = r.startSequence ∧ (r.startSequence = r.endSequence → l = []) ∧
      (r.startSequence ≠ r.endSequence →
        Covers (some { r with startSequence := (r.startSequence + 1) % 2 ^ 32 }) l) := by
  obtain ⟨hle, hlt, hl⟩ := h
  have hlength : r.endSequence + 1 - r.startSequence =
      r.endSequence - r.startSequence + 1 := by omega
  rw [hlength, List.range'_succ, List.cons.injEq] at hl
  refine ⟨hl.1, ?_, ?_⟩
  · intro heq
    rw [hl.2, heq, Nat.sub_self]
    rfl
  · intro hne
    have hmod : (r.startSequence + 1) % 2 ^ 32 = r.startSequence + 1 :=
      Nat.mod_eq_of_lt (by omega)
    rw [hmod]
    refine ⟨by show r.startSequence + 1 ≤ r.endSequence; omega, hlt, ?_⟩
    show l = List.range' (r.startSequence + 1) (r.endSequence + 1 - (r.startSequence + 1))
    rw [hl.2, Nat.add_sub_add_right]

/-- **Filing an entry** appends the next number of one account. -/
theorem operationVisitor_spec (block dbId : Nat) {t : HistoryTables} {account : AccountName}
    (h : Lined t) (hfits : Fits t account) :
    ∃ t', operationVisitor block dbId t account = some t' ∧ t'.operations = t.operations ∧
      t'.histories.rows = t.histories.rows ++ [nextEntry block dbId t account] ∧
      (∀ other, other ≠ account →
        t'.ranges.get (·.account) other = t.ranges.get (·.account) other) ∧
      Lined t' := by
  unfold operationVisitor
  rw [if_neg (nextSequence_fresh h hfits)]
  have hcovers := h.covers account
  have hentry : (nextEntry block dbId t account).account = account := rfl
  cases hr : t.ranges.get (·.account) account with
  | none =>
    rw [hr] at hcovers
    have hother : ∀ other, other ≠ account → ∀ mk : Nat → AccountRangeObject,
        (∀ id, (mk id).account = account) →
        (t.ranges.create mk).get (·.account) other = t.ranges.get (·.account) other := by
      intro other hne mk hmk
      apply Table.get_create_ne
      rw [hmk]
      exact Ne.symm hne
    refine ⟨_, rfl, rfl, rfl, fun other hne => hother other hne _ fun id => rfl,
      h.keyed.create hr rfl, ?_⟩
    intro other
    by_cases heq : account = other
    · subst heq
      rw [sequences_append_same (t := t) (x := nextEntry block dbId t account) rfl hentry]
      show Covers ((t.ranges.create _).get _ account)
        (t.sequences account ++ [nextSequence t account])
      rw [show t.sequences account = [] from hcovers, h.nextSequence_of_none hr,
        Table.get_create_same hr rfl]
      exact Covers.first _ rfl rfl
    · rw [sequences_append_other (t := t) (x := nextEntry block dbId t account) rfl heq]
      show Covers ((t.ranges.create _).get _ other) _
      rw [hother other (Ne.symm heq) _ fun id => rfl]
      exact h.covers other
  | some r =>
    rw [hr] at hcovers
    have hkeys := Table.updateRows_map (fun x : AccountRangeObject => x.account) account
      (fun r => { r with endSequence := nextSequence t account }) (fun x => x.account)
      (fun x => rfl) t.ranges.rows
    have hsame := Table.get_update_same t.ranges (fun x => x.account) account
      (fun r => { r with endSequence := nextSequence t account }) fun x => rfl
    have hother : ∀ other, other ≠ account →
        (t.ranges.update (·.account) account
          fun r => { r with endSequence := nextSequence t account }).get (·.account) other =
          t.ranges.get (·.account) other :=
      fun other hne => Table.get_update_ne t.ranges _ _ hne fun x => rfl
    refine ⟨_, rfl, rfl, rfl, hother, h.keyed.of_keys hkeys, ?_⟩
    intro other
    by_cases heq : account = other
    · subst heq
      rw [sequences_append_same (t := t) (x := nextEntry block dbId t account) rfl hentry]
      show Covers ((t.ranges.update _ account _).get _ account)
        (t.sequences account ++ [nextSequence t account])
      rw [hsame, hr, h.nextSequence_of_some hr, Nat.mod_eq_of_lt (hfits r hr)]
      exact hcovers.next (hfits r hr)
    · rw [sequences_append_other (t := t) (x := nextEntry block dbId t account) rfl heq]
      show Covers ((t.ranges.update _ account _).get _ other) _
      rw [hother other (Ne.symm heq)]
      exact h.covers other

end VizCore.Plugins
