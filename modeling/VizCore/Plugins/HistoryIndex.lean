import VizCore.Plugins.AccountHistory

/-!
# Entries and the operations they show

An entry names its operation by id.  The entries of an account show the newest of the operations
that were stored for it, in the order in which they were applied.

* `onOperation_lined`, `onOperation_filed`: an operation adds one entry for each account;
* `purgeOldHistory_lined`, `purgeOldHistory_filed`: a purge drops the oldest entries of each account;
* `getAccountHistory_spec`: a query returns exactly the entries that it asks for.
-/

namespace VizCore.Plugins

open VizCore.Lib VizCore.Protocol VizCore.Chain

/-! ## All visits of a notification -/

/-- What the visits of a notification add. -/
structure Visited (block dbId : Nat) (names : List AccountName) (t t' : HistoryTables) : Prop where
  operations : t'.operations = t.operations
  rows : ∃ added, t'.histories.rows = t.histories.rows ++ added ∧ added.map (·.account) = names ∧
    ∀ x ∈ added, x.block = block ∧ x.op = dbId

theorem visitAll_spec {block dbId : Nat} {names : List AccountName} {t : HistoryTables}
    (h : Lined t) (hnodup : names.Nodup) (hfits : ∀ account ∈ names, Fits t account) :
    Visited block dbId names t (visitAll block dbId names t) ∧
      Lined (visitAll block dbId names t) := by
  induction names generalizing t with
  | nil => exact ⟨⟨rfl, [], (List.append_nil _).symm, rfl, fun x hx => by cases hx⟩, h⟩
  | cons account rest ih =>
    rw [List.nodup_cons] at hnodup
    obtain ⟨t', hvisit, hoperations, hrows, hother, hlined⟩ :=
      operationVisitor_spec block dbId h (hfits account List.mem_cons_self)
    have hfits' : ∀ other ∈ rest, Fits t' other := by
      intro other hmem r hr
      have hne : other ≠ account := fun heq => hnodup.1 (heq ▸ hmem)
      rw [hother other hne] at hr
      exact hfits other (List.mem_cons_of_mem account hmem) r hr
    obtain ⟨hvisited, hlined'⟩ := ih hlined hnodup.2 hfits'
    obtain ⟨added, hadded, hnames, hblock⟩ := hvisited.rows
    unfold visitAll
    rw [hvisit]
    refine ⟨⟨hvisited.operations.trans hoperations,
      nextEntry block dbId t account :: added, ?_, ?_, ?_⟩, hlined'⟩
    · show (visitAll block dbId rest t').histories.rows = _
      rw [hadded, hrows, List.append_assoc]
      rfl
    · rw [List.map_cons, hnames]
      rfl
    · intro x hx
      rcases List.mem_cons.1 hx with rfl | hx
      · exact ⟨rfl, rfl⟩
      · exact hblock x hx

/-- Of the entries that a notification adds, an account has one or none. -/
theorem filter_added {names : List AccountName} {added : List AccountHistoryObject}
    (hnames : added.map (·.account) = names) (hnodup : names.Nodup) (account : AccountName) :
    (account ∉ names ∧ (added.filter fun x => x.account = account) = []) ∨
      account ∈ names ∧ ∃ x ∈ added, (added.filter fun x => x.account = account) = [x] := by
  induction added generalizing names with
  | nil =>
    left
    subst hnames
    exact ⟨List.not_mem_nil, rfl⟩
  | cons y rest ih =>
    subst hnames
    rw [List.map_cons, List.nodup_cons] at hnodup
    rw [List.map_cons, List.mem_cons]
    by_cases heq : y.account = account
    · subst heq
      have hrest : (rest.filter fun x => decide (x.account = y.account)) = [] := by
        rw [List.filter_eq_nil_iff]
        intro x hx hxy
        exact hnodup.1 (of_decide_eq_true hxy ▸ List.mem_map_of_mem hx)
      right
      refine ⟨Or.inl rfl, y, List.mem_cons_self, ?_⟩
      rw [List.filter_cons_of_pos (by simp), hrest]
    · rw [List.filter_cons_of_neg (by simpa using heq)]
      rcases ih rfl hnodup.2 with ⟨hout, hnil⟩ | ⟨hin, x, hx, hone⟩
      · left
        refine ⟨?_, hnil⟩
        rintro (h | h)
        · exact heq h.symm
        · exact hout h
      · right
        exact ⟨Or.inr hin, x, List.mem_cons_of_mem y hx, hone⟩

/-! ## Entries show operations -/

/-- The entry shows the operation. -/
def Shows (operations : Table OperationObject) (x : AccountHistoryObject) (o : OperationObject) :
    Prop :=
  operations.get (·.id) x.op = some o ∧ o.block = x.block

/-- The stored operations that are filed for an account. -/
def AccountHistory.concerning (P : AccountHistory) (account : AccountName)
    (applied : List OperationObject) : List OperationObject :=
  applied.filter fun o => account ∈ P.accounts o.op

/-- The entries of an account show the newest of all operations stored for it, in the order in which
they were applied. -/
structure Filed (P : AccountHistory) (applied : List OperationObject) (t : HistoryTables) : Prop where
  numbered : t.operations.Numbered (·.id)
  shown : ∀ account, ∃ os, List.Forall₂ (Shows t.operations) (t.entries account) os ∧
    os <:+ P.concerning account applied

/-- All operations stored so far, when one more is applied. -/
def AccountHistory.journal (P : AccountHistory) (block headBlockNum : Nat)
    (headBlockTime : TimePointSec) (note : OperationNotification) (t : HistoryTables)
    (applied : List OperationObject) : List OperationObject :=
  if P.operationHistory.stores headBlockNum note.op then
    applied ++ [note.object block headBlockTime t.operations.nextId]
  else applied

theorem AccountHistory.accounts_nodup (P : AccountHistory) (op : ChainOperation) :
    (P.accounts op).Nodup :=
  (operationGetImpactedAccounts_nodup op).filter _

theorem entries_append {t t' : HistoryTables} {added : List AccountHistoryObject}
    (hrows : t'.histories.rows = t.histories.rows ++ added) (account : AccountName) :
    t'.entries account = t.entries account ++ added.filter fun x => x.account = account := by
  unfold HistoryTables.entries
  rw [hrows, List.filter_append]

theorem Shows.create {operations : Table OperationObject} {x : AccountHistoryObject}
    {o : OperationObject} {mk : Nat → OperationObject} (hnumbered : operations.Numbered (·.id))
    (hmk : ∀ n, (mk n).id = n) (h : Shows operations x o) : Shows (operations.create mk) x o := by
  obtain ⟨hget, hblock⟩ := h
  have hlt : x.op < operations.nextId := by
    have hbelow : o.id < operations.nextId := hnumbered.below o (Table.get_mem hget)
    have hid : o.id = x.op := Table.get_key hget
    rw [← hid]
    exact hbelow
  refine ⟨?_, hblock⟩
  rw [Table.get_create_ne operations _ ?_, hget]
  rw [hmk]
  exact ne_of_gt hlt

section OnOperation

variable {P : AccountHistory} {block head : Nat} {time : TimePointSec}
  {note : OperationNotification} {t : HistoryTables} {applied : List OperationObject}

/-- The accounts that the operation is filed for have numbers left. -/
def AccountHistory.Room (P : AccountHistory) (headBlockNum : Nat) (note : OperationNotification)
    (t : HistoryTables) : Prop :=
  P.operationHistory.stores headBlockNum note.op = true →
    ∀ account ∈ P.accounts note.op, Fits t account

theorem onOperation_visited (block : Nat) (time : TimePointSec) (h : Lined t) (hroom : P.Room head note t)
    (hstores : P.operationHistory.stores head note.op = true) :
    Visited block t.operations.nextId (P.accounts note.op)
        { t with operations := t.operations.create (note.object block time) }
        (P.onOperation block head time note t) ∧
      Lined (P.onOperation block head time note t) := by
  unfold AccountHistory.onOperation
  rw [if_pos hstores]
  have hlined : Lined { t with operations := t.operations.create (note.object block time) } :=
    ⟨h.keyed, h.covers⟩
  exact visitAll_spec hlined (P.accounts_nodup note.op) (hroom hstores)

theorem onOperation_lined (h : Lined t) (hroom : P.Room head note t) :
    Lined (P.onOperation block head time note t) := by
  by_cases hstores : P.operationHistory.stores head note.op = true
  · exact (onOperation_visited block time h hroom hstores).2
  · unfold AccountHistory.onOperation
    rw [if_neg hstores]
    exact h

/-- **An operation** adds one entry for each account that it is filed for. -/
theorem onOperation_filed (h : Lined t) (hroom : P.Room head note t) (hfiled : Filed P applied t) :
    Filed P (P.journal block head time note t applied) (P.onOperation block head time note t) := by
  by_cases hstores : P.operationHistory.stores head note.op = true
  · have hvisited := (onOperation_visited block time h hroom hstores).1
    obtain ⟨added, hrows, hnames, hadded⟩ := hvisited.rows
    have hoperations : (P.onOperation block head time note t).operations =
        t.operations.create (note.object block time) := hvisited.operations
    have hnumbered : (t.operations.create (note.object block time)).Numbered (·.id) :=
      hfiled.numbered.create fun n => rfl
    unfold AccountHistory.journal
    rw [if_pos hstores]
    constructor
    · rw [hoperations]
      exact hnumbered
    · intro account
      obtain ⟨os, hshown, hsuffix⟩ := hfiled.shown account
      have hold : List.Forall₂ (Shows (t.operations.create (note.object block time)))
          (t.entries account) os :=
        hshown.imp fun x o hxo => hxo.create hfiled.numbered fun n => rfl
      have hentries : (P.onOperation block head time note t).entries account =
          t.entries account ++ added.filter fun x => x.account = account :=
        entries_append hrows account
      rw [hentries, hoperations]
      unfold AccountHistory.concerning at hsuffix ⊢
      rw [List.filter_append]
      rcases filter_added hnames (P.accounts_nodup note.op) account with
        ⟨hout, hnil⟩ | ⟨hin, x, hx, hone⟩
      · refine ⟨os, ?_, ?_⟩
        · rw [hnil, List.append_nil]
          exact hold
        · rw [List.filter_cons_of_neg (by rw [decide_eq_true_eq]; exact hout), List.filter_nil, List.append_nil]
          exact hsuffix
      · refine ⟨os ++ [note.object block time t.operations.nextId], ?_, ?_⟩
        · rw [hone]
          have hnew : Shows (t.operations.create (note.object block time)) x
              (note.object block time t.operations.nextId) := by
            obtain ⟨hblock, hop⟩ := hadded x hx
            refine ⟨?_, hblock.symm⟩
            rw [hop]
            exact hnumbered.get (List.mem_append_right _ List.mem_cons_self)
          exact List.rel_append hold (List.Forall₂.cons hnew List.Forall₂.nil)
        · rw [List.filter_cons_of_pos (by rw [decide_eq_true_eq]; exact hin), List.filter_nil]
          obtain ⟨front, hfront⟩ := hsuffix
          exact ⟨front, by rw [← hfront, List.append_assoc]⟩
  · unfold AccountHistory.journal AccountHistory.onOperation
    rw [if_neg hstores, if_neg hstores]
    exact hfiled

/-- The entries stand in the order of their blocks. -/
structure Dated (n : Nat) (t : HistoryTables) : Prop where
  ascending : t.histories.rows.Pairwise fun x y => x.block ≤ y.block
  upTo : ∀ x ∈ t.histories.rows, x.block ≤ n

theorem onOperation_dated (h : Lined t) (hroom : P.Room head note t) (hdated : Dated block t) :
    Dated block (P.onOperation block head time note t) := by
  by_cases hstores : P.operationHistory.stores head note.op = true
  · have hvisited := (onOperation_visited block time h hroom hstores).1
    obtain ⟨added, hrows, _, hadded⟩ := hvisited.rows
    have hrows' : (P.onOperation block head time note t).histories.rows =
        t.histories.rows ++ added := hrows
    constructor
    · rw [hrows', List.pairwise_append]
      refine ⟨hdated.ascending, ?_, ?_⟩
      · apply List.pairwise_of_forall_mem_list
        intro x hx y hy
        rw [(hadded x hx).1, (hadded y hy).1]
      · intro x hx y hy
        rw [(hadded y hy).1]
        exact hdated.upTo x hx
    · intro x hx
      rw [hrows'] at hx
      rcases List.mem_append.1 hx with hx | hx
      · exact hdated.upTo x hx
      · exact le_of_eq (hadded x hx).1
  · unfold AccountHistory.onOperation
    rw [if_neg hstores]
    exact hdated

end OnOperation

/-! ## Purges -/

theorem purgeEntry_rows {t : HistoryTables} {x : AccountHistoryObject}
    {rest : List AccountHistoryObject} (hrows : t.histories.rows = x :: rest) :
    (purgeEntry t x).histories.rows = rest := by
  show t.histories.rows.eraseP _ = rest
  rw [hrows, List.eraseP_cons_of_pos (by simp)]

theorem sequences_cons_same {t t' : HistoryTables} {x : AccountHistoryObject}
    {rest : List AccountHistoryObject} (hrows : t.histories.rows = x :: rest)
    (hrest : t'.histories.rows = rest) :
    t.sequences x.account = x.sequence :: t'.sequences x.account := by
  unfold HistoryTables.sequences HistoryTables.entries
  rw [hrows, hrest, List.filter_cons_of_pos (by simp), List.map_cons]

theorem sequences_cons_other {t t' : HistoryTables} {x : AccountHistoryObject}
    {rest : List AccountHistoryObject} {account : AccountName}
    (hrows : t.histories.rows = x :: rest) (hrest : t'.histories.rows = rest)
    (hne : x.account ≠ account) : t.sequences account = t'.sequences account := by
  unfold HistoryTables.sequences HistoryTables.entries
  rw [hrows, hrest, List.filter_cons_of_neg (by simpa using hne)]

/-- **Dropping the oldest entry** moves the start of one range. -/
theorem purgeEntry_lined {t : HistoryTables} {x : AccountHistoryObject}
    {rest : List AccountHistoryObject} (h : Lined t) (hrows : t.histories.rows = x :: rest) :
    Lined (purgeEntry t x) := by
  have hrest := purgeEntry_rows hrows
  have hsame := sequences_cons_same hrows hrest
  have hcovers := h.covers x.account
  rw [hsame] at hcovers
  cases hr : t.ranges.get (·.account) x.account with
  | none =>
    rw [hr] at hcovers
    cases hcovers
  | some r =>
    rw [hr] at hcovers
    obtain ⟨hstart, hlast, hmore⟩ := hcovers.tail
    by_cases heq : r.startSequence = r.endSequence
    · have hranges : (purgeEntry t x).ranges = t.ranges.erase (·.account) x.account := by
        unfold purgeEntry
        simp only [hr, hstart, le_refl, if_true, heq]
      constructor
      · rw [hranges]
        exact h.keyed.erase _ _
      · intro account
        rw [hranges]
        by_cases haccount : x.account = account
        · subst haccount
          rw [h.keyed.get_erase_same]
          exact hlast heq
        · rw [Table.get_erase_ne _ _ (Ne.symm haccount),
            ← sequences_cons_other hrows hrest haccount]
          exact h.covers account
    · have hranges : (purgeEntry t x).ranges = t.ranges.update (·.account) x.account fun r =>
          { r with startSequence := (r.startSequence + 1) % 2 ^ 32 } := by
        unfold purgeEntry
        simp only [hr, hstart, le_refl, if_true, heq, if_false]
      have hkeys := Table.updateRows_map (fun r : AccountRangeObject => r.account) x.account
        (fun r => { r with startSequence := (r.startSequence + 1) % 2 ^ 32 }) (fun r => r.account)
        (fun r => rfl) t.ranges.rows
      have hget := Table.get_update_same t.ranges (fun r => r.account) x.account
        (fun r => { r with startSequence := (r.startSequence + 1) % 2 ^ 32 }) fun r => rfl
      constructor
      · rw [hranges]
        exact h.keyed.of_keys hkeys
      · intro account
        rw [hranges]
        by_cases haccount : x.account = account
        · subst haccount
          rw [hget, hr]
          exact hmore heq
        · have hother := Table.get_update_ne t.ranges (fun r => r.account)
            (fun r => { r with startSequence := (r.startSequence + 1) % 2 ^ 32 })
            (Ne.symm haccount) fun r => rfl
          rw [hother, ← sequences_cons_other hrows hrest haccount]
          exact h.covers account

/-- The loop of a purge drops what it walks over. -/
theorem foldl_purgeEntry {dropped rest : List AccountHistoryObject} {t : HistoryTables}
    (h : Lined t) (hrows : t.histories.rows = dropped ++ rest) :
    Lined (dropped.foldl purgeEntry t) ∧ (dropped.foldl purgeEntry t).histories.rows = rest ∧
      (dropped.foldl purgeEntry t).operations = t.operations := by
  induction dropped generalizing t with
  | nil => exact ⟨h, hrows, rfl⟩
  | cons x dropped ih => exact ih (purgeEntry_lined h hrows) (purgeEntry_rows hrows)

section Purge

variable {P : AccountHistory} {head count n : Nat} {t : HistoryTables}
  {applied : List OperationObject}

/-- A purge drops the oldest entries: those that stay are all younger. -/
theorem purgeHistories_spec (h : Lined t) (hdated : Dated n t) :
    ∃ dropped, t.histories.rows = dropped ++ (purgeHistories head count t).histories.rows ∧
      (∀ x ∈ dropped, x.block ≤ head - count) ∧
      (∀ x ∈ (purgeHistories head count t).histories.rows,
        count ≤ head → head - count < x.block) ∧
      (purgeHistories head count t).operations = t.operations ∧
      Lined (purgeHistories head count t) := by
  unfold purgeHistories
  split
  · rename_i hcount
    have hwalk : index (fun x : AccountHistoryObject => x.block) t.histories.rows =
        t.histories.rows := index_of_sorted hdated.ascending
    have hsplit := List.takeWhile_append_dropWhile
      (p := fun x : AccountHistoryObject => decide (x.block ≤ head - count))
      (l := t.histories.rows)
    have hdropped : upToBlock (·.block) (head - count) t.histories.rows =
        t.histories.rows.takeWhile fun x => decide (x.block ≤ head - count) := by
      unfold upToBlock
      rw [hwalk]
    obtain ⟨hlined, hrows, hoperations⟩ := foldl_purgeEntry h hsplit.symm
    rw [hdropped]
    refine ⟨t.histories.rows.takeWhile fun x => decide (x.block ≤ head - count), ?_, ?_, ?_,
      hoperations, hlined⟩
    · rw [hrows]
      exact hsplit.symm
    · intro x hx
      rw [← hdropped] at hx
      exact block_le_of_mem_upToBlock hx
    · intro x hx _
      rw [hrows, dropWhile_eq_filter, List.mem_filter] at hx
      · simpa using hx.2
      · refine hdated.ascending.imp ?_
        intro y z hyz hz
        exact decide_eq_true (hyz.trans (of_decide_eq_true hz))
  · rename_i hcount
    exact ⟨[], rfl, fun x hx => (by cases hx), fun x _ hle => absurd hle hcount, rfl, h⟩

/-- Nothing happens to entries that are all young. -/
theorem purgeHistories_of_young
    (hyoung : ∀ x ∈ t.histories.rows, count ≤ head → head - count < x.block) :
    purgeHistories head count t = t := by
  unfold purgeHistories
  split
  · rename_i hcount
    have hnil : upToBlock (fun x : AccountHistoryObject => x.block) (head - count)
        t.histories.rows = [] := by
      rw [upToBlock_eq_filter, List.filter_eq_nil_iff]
      intro x hx hold
      have hlt := hyoung x (mem_index.1 hx) hcount
      have hle := of_decide_eq_true hold
      omega
    rw [hnil]
    rfl
  · rfl

theorem purgeOldHistory_of_young
    (hyoung : ∀ x ∈ t.histories.rows, count ≤ head → head - count < x.block) :
    purgeOldHistory head count t =
      { t with operations := purgeOperations head count t.operations } :=
  purgeHistories_of_young hyoung

theorem purgeOldHistory_spec (head count : Nat) (h : Lined t) (hdated : Dated n t) :
    ∃ dropped, t.histories.rows = dropped ++ (purgeOldHistory head count t).histories.rows ∧
      (∀ x ∈ dropped, x.block ≤ head - count) ∧
      (∀ x ∈ (purgeOldHistory head count t).histories.rows,
        count ≤ head → head - count < x.block) ∧
      (purgeOldHistory head count t).operations = purgeOperations head count t.operations ∧
      Lined (purgeOldHistory head count t) := by
  have hlined : Lined { t with operations := purgeOperations head count t.operations } :=
    ⟨h.keyed, h.covers⟩
  have hdated' : Dated n { t with operations := purgeOperations head count t.operations } :=
    ⟨hdated.ascending, hdated.upTo⟩
  exact purgeHistories_spec hlined hdated'

theorem purgeOldHistory_lined (h : Lined t) (hdated : Dated n t) :
    Lined (purgeOldHistory head count t) := by
  obtain ⟨_, _, _, _, _, hlined⟩ := purgeOldHistory_spec head count h hdated
  exact hlined

theorem purgeOldHistory_dated (h : Lined t) (hdated : Dated n t) :
    Dated n (purgeOldHistory head count t) := by
  obtain ⟨dropped, hrows, _⟩ := purgeOldHistory_spec head count h hdated
  have hkept : (purgeOldHistory head count t).histories.rows.Sublist t.histories.rows := by
    rw [hrows]
    exact List.sublist_append_right _ _
  exact ⟨hdated.ascending.sublist hkept, fun x hx => hdated.upTo x (hkept.subset hx)⟩

/-- **A purge** drops the oldest entries of each account, and no operation that is still shown. -/
theorem purgeOldHistory_filed (h : Lined t) (hdated : Dated n t) (hfiled : Filed P applied t) :
    Filed P applied (purgeOldHistory head count t) := by
  obtain ⟨dropped, hrows, _, hyoung, hoperations, _⟩ := purgeOldHistory_spec head count h hdated
  constructor
  · rw [hoperations]
    exact purgeOperations_numbered head count hfiled.numbered
  · intro account
    obtain ⟨os, hshown, hsuffix⟩ := hfiled.shown account
    have hentries : t.entries account = (dropped.filter fun x => x.account = account) ++
        (purgeOldHistory head count t).entries account := by
      unfold HistoryTables.entries
      rw [hrows, List.filter_append]
    rw [hentries] at hshown
    have hdrop := List.forall₂_drop (dropped.filter fun x => x.account = account).length hshown
    rw [List.drop_left] at hdrop
    have hmem : ∀ x ∈ (purgeOldHistory head count t).entries account,
        x ∈ (purgeOldHistory head count t).histories.rows := fun x hx => (List.mem_filter.1 hx).1
    refine ⟨os.drop (dropped.filter fun x => x.account = account).length, ?_,
      (List.drop_suffix _ os).trans hsuffix⟩
    rw [hoperations]
    refine List.Forall₂.imp ?_ ((List.forall₂_and_left _ _).2 ⟨hmem, hdrop⟩)
    rintro x o ⟨hx, hget, hblock⟩
    refine ⟨get_purgeOperations hfiled.numbered hget ?_, hblock⟩
    rw [hblock]
    exact hyoung x hx

end Purge

/-! ## Queries -/

theorem range'_between (start count low high : Nat) (hhigh : high < start + count) :
    ((List.range' start count).filter fun s => decide (low ≤ s ∧ s ≤ high)) =
      List.range' (max start low) (high + 1 - max start low) := by
  have hsorted : ∀ a n, (List.range' a n).Pairwise fun x y => x < y :=
    fun a n => List.pairwise_lt_range'
  apply @List.Perm.eq_of_pairwise Nat (fun x y => x ≤ y)
  · intro a b _ _ hab hba
    omega
  · exact ((hsorted _ _).sublist List.filter_sublist).imp Nat.le_of_lt
  · exact (hsorted _ _).imp Nat.le_of_lt
  · rw [List.perm_ext_iff_of_nodup]
    · intro s
      rw [List.mem_filter, List.mem_range'_1, List.mem_range'_1, decide_eq_true_eq]
      omega
    · exact (List.nodup_range').filter _
    · exact List.nodup_range'

/-- What a query answers for an entry. -/
def Answers (operations : Table OperationObject) (x : AccountHistoryObject)
    (answer : Nat × AppliedOperation) : Prop :=
  ∃ o, operations.get (·.id) x.op = some o ∧ answer = (x.sequence, o.toApplied)

/-- The walk of a query meets the entries newest first. -/
theorem scan_eq_reverse {t : HistoryTables} {account : AccountName} {first last : Nat}
    (hsorted : (t.sequences account).Pairwise fun x y => x < y) :
    scan AccountHistoryObject.key (historyKey account first) (historyKey account last)
        t.histories.rows =
      ((t.entries account).filter fun x =>
        decide (last ≤ x.sequence ∧ x.sequence ≤ first)).reverse := by
  have hfilter : ((t.entries account).filter fun x =>
      decide (last ≤ x.sequence ∧ x.sequence ≤ first)) =
      t.histories.rows.filter fun x =>
        decide (historyKey account first ≤ x.key ∧ x.key ≤ historyKey account last) := by
    unfold HistoryTables.entries
    rw [List.filter_filter]
    apply List.filter_congr
    intro x _
    rw [← Bool.decide_and, decide_eq_decide]
    rw [key_between]
    exact and_comm.trans Iff.rfl
  rw [scan_eq_filter, hfilter]
  have hperm : ((index AccountHistoryObject.key t.histories.rows).filter fun x =>
      decide (historyKey account first ≤ x.key ∧ x.key ≤ historyKey account last)).Perm
      (t.histories.rows.filter fun x =>
        decide (historyKey account first ≤ x.key ∧ x.key ≤ historyKey account last)).reverse :=
    ((index_perm _ _).filter _).trans (List.reverse_perm _).symm
  have hentries : ((t.entries account).filter fun x =>
      decide (last ≤ x.sequence ∧ x.sequence ≤ first)).Pairwise fun x y =>
        x.sequence < y.sequence := by
    have hmap : (t.entries account).Pairwise fun x y => x.sequence < y.sequence :=
      List.pairwise_map.1 hsorted
    exact hmap.sublist List.filter_sublist
  rw [hfilter] at hentries
  refine @List.Perm.eq_of_pairwise _ (fun x y => x.key ≤ y.key) _ _ ?_ ?_ ?_ hperm
  · intro x y hx hy hxy hyx
    have hx' := hperm.subset hx
    rw [List.mem_reverse] at hx' hy
    have hsequence : x.sequence = y.sequence := by
      have hkey : x.key = y.key := le_antisymm hxy hyx
      unfold AccountHistoryObject.key historyKey at hkey
      exact congrArg (fun k => OrderDual.ofDual (ofLex k).2) hkey
    have hnodup : ((t.histories.rows.filter fun x =>
        decide (historyKey account first ≤ x.key ∧ x.key ≤ historyKey account last)).map
          (·.sequence)).Nodup :=
      List.Pairwise.imp (fun h => ne_of_lt h) (List.pairwise_map.2 hentries)
    exact List.inj_on_of_nodup_map hnodup hx' hy hsequence
  · exact (index_le _ _).sublist List.filter_sublist
  · rw [List.pairwise_reverse]
    refine List.Pairwise.imp_of_mem ?_ hentries
    intro x y hx hy hlt
    have hx' := key_between.1 (of_decide_eq_true (List.mem_filter.1 hx).2)
    have hy' := key_between.1 (of_decide_eq_true (List.mem_filter.1 hy).2)
    unfold AccountHistoryObject.key
    rw [historyKey_le]
    exact Or.inr ⟨hy'.1.trans hx'.1.symm, Nat.le_of_lt hlt⟩

theorem exists_forall₂ {α β : Type} {R : α → β → Prop} {l : List α}
    (h : ∀ x ∈ l, ∃ y, R x y) : ∃ l', List.Forall₂ R l l' := by
  induction l with
  | nil => exact ⟨[], List.Forall₂.nil⟩
  | cons x rest ih =>
    obtain ⟨y, hxy⟩ := h x List.mem_cons_self
    obtain ⟨l', hrest⟩ := ih fun z hz => h z (List.mem_cons_of_mem x hz)
    exact ⟨y :: l', List.Forall₂.cons hxy hrest⟩

theorem mem_of_forall₂ {α β : Type} {R : α → β → Prop} {l : List α} {l' : List β}
    (h : List.Forall₂ R l l') : ∀ x ∈ l, ∃ y, R x y := by
  induction h with
  | nil =>
    intro x hx
    cases hx
  | cons hxy _ ih =>
    intro x hx
    rcases List.mem_cons.1 hx with rfl | hx
    · exact ⟨_, hxy⟩
    · exact ih x hx

/-- Every entry has an answer, numbered as the entry. -/
theorem Filed.answers {P : AccountHistory} {applied : List OperationObject} {t : HistoryTables}
    (hfiled : Filed P applied t) (account : AccountName) (p : Nat → Bool) :
    ∃ answers, List.Forall₂ (Answers t.operations)
        ((t.entries account).filter fun x => p x.sequence) answers ∧
      answers.map Prod.fst = (t.sequences account).filter p := by
  obtain ⟨os, hshown, _⟩ := hfiled.shown account
  have hanswer : ∀ x ∈ (t.entries account).filter fun x => p x.sequence,
      ∃ answer, Answers t.operations x answer := by
    intro x hx
    obtain ⟨o, hget, _⟩ := mem_of_forall₂ hshown x (List.mem_of_mem_filter hx)
    exact ⟨(x.sequence, o.toApplied), o, hget, rfl⟩
  obtain ⟨answers, hall⟩ := exists_forall₂ hanswer
  refine ⟨answers, hall, ?_⟩
  have hequal : List.Forall₂ (fun x y => x = y)
      (((t.entries account).filter fun x => p x.sequence).map (·.sequence))
      (answers.map Prod.fst) := by
    rw [List.forall₂_map_left_iff, List.forall₂_map_right_iff]
    refine List.Forall₂.imp ?_ hall
    rintro x answer ⟨o, _, rfl⟩
    rfl
  rw [List.forall₂_eq_eq_eq] at hequal
  rw [← hequal]
  unfold HistoryTables.sequences
  rw [List.filter_map]
  rfl

/-- **A query** returns exactly the entries that it asks for. -/
theorem getAccountHistory_spec {P : AccountHistory} {applied : List OperationObject}
    {t : HistoryTables} (h : Lined t) (hfiled : Filed P applied t) {account : AccountName}
    {r : AccountRangeObject} (hr : t.ranges.get (·.account) account = some r)
    {fromSequence limit : Nat} (hlow : r.startSequence ≤ fromSequence)
    (hhigh : fromSequence ≤ r.endSequence) (hlimit : limit ≤ min fromSequence 1000) :
    ∃ answers, getAccountHistory account fromSequence limit t = .ok answers ∧
      answers.map Prod.fst = List.range' (max r.startSequence (fromSequence - limit))
        (fromSequence + 1 - max r.startSequence (fromSequence - limit)) ∧
      List.Forall₂ (Answers t.operations)
        ((t.entries account).filter fun x =>
          decide (fromSequence - limit ≤ x.sequence ∧ x.sequence ≤ fromSequence)) answers := by
  have hsequences := h.sequences_eq hr
  have hbounds := h.bounds hr
  have hsorted : (t.sequences account).Pairwise fun x y => x < y := by
    rw [hsequences]
    exact List.pairwise_lt_range'
  obtain ⟨x, rest, hfound, _, hsequence⟩ := h.lowerBound_eq hr hlow
  rw [min_eq_left hhigh] at hsequence
  obtain ⟨answers, hall, hfst⟩ := hfiled.answers account
    fun s => decide (fromSequence - limit ≤ s ∧ s ≤ fromSequence)
  rw [hsequences, range'_between _ _ _ _ (by omega)] at hfst
  have hdesc : answers.reverse.Pairwise fun a b => b.1 < a.1 := by
    rw [List.pairwise_reverse]
    have hlt : (answers.map Prod.fst).Pairwise fun a b => a < b := by
      rw [hfst]
      exact List.pairwise_lt_range'
    exact List.pairwise_map.1 hlt
  refine ⟨answers, ?_, hfst, hall⟩
  unfold getAccountHistory
  rw [hfound, hr]
  rw [bind_eq_ok]
  refine ⟨r, rfl, ?_⟩
  rw [fcAssert_bind_eq_ok, fcAssert_bind_eq_ok, fcAssert_bind_eq_ok, fcAssert_bind_eq_ok]
  refine ⟨Or.inr hlow, Or.inr hhigh, by omega, by omega, ?_⟩
  rw [bind_eq_ok]
  refine ⟨answers.reverse, ?_, ?_⟩
  · rw [mapM_eq_ok_iff_forall₂, hsequence, scan_eq_reverse hsorted, List.forall₂_reverse_iff]
    refine List.Forall₂.imp ?_ hall
    rintro y answer ⟨o, hget, rfl⟩
    rw [hget]
    rfl
  · rw [foldl_assign hdesc (fun _ _ e he => by cases he), List.append_nil, List.reverse_reverse]
    rfl

end VizCore.Plugins
