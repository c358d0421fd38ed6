import VizCore.Plugins.AccountHistory

/-!
# Tracked ranges

The option `track-account-range` names ranges of accounts.  They are kept in a map from the first
name to the last one, and `on_operation` looks up the first start that is not below the account.

* `tracked_iff`: the accounts that pass the lookup are starts of ranges;
* `visitAll_files`: the visits of a notification that file an entry;
* `files_iff`: when an operation is filed for an account exactly if a range holds it.
-/

namespace VizCore.Plugins

open VizCore.Lib VizCore.Protocol VizCore.Chain

/-! ## The options -/

/-- The first and the last name of a range. -/
abbrev TrackedRange := AccountName × AccountName

/-- `insert` of a `flat_map`: a start that is there keeps its end. -/
def insertRange (r : TrackedRange) : List TrackedRange → List TrackedRange
  | [] => [r]
  | s :: rest =>
    if s.1 = r.1 then s :: rest
    else if r.1 < s.1 then r :: s :: rest
    else s :: insertRange r rest

/-- `LOAD_VALUE_SET` of `track-account-range`, in the order of the options. -/
def loadTrackedAccounts (ranges : List TrackedRange) : List TrackedRange :=
  ranges.foldl (fun m r => insertRange r m) []

/-- What `plugin_initialize` makes of the options. -/
def AccountHistory.pluginInitialize (H : OperationHistory) (ranges : List TrackedRange) :
    AccountHistory :=
  { operationHistory := H, trackedAccounts := loadTrackedAccounts ranges }

/-- Some range holds the account. -/
def InRanges (ranges : List TrackedRange) (account : AccountName) : Prop :=
  ∃ r ∈ ranges, r.1 ≤ account ∧ account ≤ r.2

/-- The first of the ranges that start with the account holds it. -/
def StartsRange (ranges : List TrackedRange) (account : AccountName) : Prop :=
  ∃ r, ranges.find? (fun r => r.1 = account) = some r ∧ account ≤ r.2

theorem StartsRange.inRanges {ranges : List TrackedRange} {account : AccountName}
    (h : StartsRange ranges account) : InRanges ranges account := by
  obtain ⟨r, hr, hle⟩ := h
  have hstart : r.1 = account := by simpa using List.find?_some hr
  exact ⟨r, List.mem_of_find?_eq_some hr, le_of_eq hstart, hle⟩

/-! ## The map -/

section Map

variable {m : List TrackedRange} {r : TrackedRange} {k : AccountName}

theorem mem_insertRange {s : TrackedRange} (h : s ∈ insertRange r m) : s = r ∨ s ∈ m := by
  induction m with
  | nil => exact .inl (List.mem_singleton.1 h)
  | cons x rest ih =>
    unfold insertRange at h
    split at h
    · exact .inr h
    · split at h
      · exact List.mem_cons.1 h
      · rcases List.mem_cons.1 h with heq | hrest
        · exact .inr (heq ▸ List.mem_cons_self)
        · rcases ih hrest with heq | hmem
          · exact .inl heq
          · exact .inr (List.mem_cons_of_mem x hmem)

theorem insertRange_sorted (h : m.Pairwise fun x y => x.1 < y.1) :
    (insertRange r m).Pairwise fun x y => x.1 < y.1 := by
  induction m with
  | nil => exact List.pairwise_singleton _ _
  | cons x rest ih =>
    have hcons := h
    rw [List.pairwise_cons] at h
    unfold insertRange
    split
    · exact hcons
    · rename_i hne
      split
      · rename_i hlt
        rw [List.pairwise_cons]
        refine ⟨?_, hcons⟩
        intro y hy
        rcases List.mem_cons.1 hy with heq | hrest
        · rw [heq]
          exact hlt
        · exact lt_trans hlt (h.1 y hrest)
      · rename_i hge
        rw [List.pairwise_cons]
        refine ⟨?_, ih h.2⟩
        intro y hy
        rcases mem_insertRange hy with heq | hrest
        · rw [heq]
          exact lt_of_le_of_ne (not_lt.1 hge) hne
        · exact h.1 y hrest

theorem find_of_below (h : ∀ x ∈ m, k < x.1) : m.find? (fun x => x.1 = k) = none := by
  rw [List.find?_eq_none]
  intro x hx heq
  exact absurd (of_decide_eq_true heq) (ne_of_gt (h x hx))

theorem find_insertRange (h : m.Pairwise fun x y => x.1 < y.1) :
    (insertRange r m).find? (fun x => x.1 = k) =
      (m.find? fun x => x.1 = k).or (if r.1 = k then some r else none) := by
  induction m with
  | nil => by_cases hr : r.1 = k <;> simp [insertRange, hr]
  | cons x rest ih =>
    rw [List.pairwise_cons] at h
    unfold insertRange
    split
    · rename_i heq
      by_cases hx : x.1 = k
      · simp [hx]
      · have hr : r.1 ≠ k := fun hr => hx (heq.trans hr)
        simp [hr]
    · rename_i hne
      split
      · rename_i hlt
        by_cases hr : r.1 = k
        · have hnone : (x :: rest).find? (fun x => x.1 = k) = none := by
            apply find_of_below
            intro y hy
            rw [← hr]
            rcases List.mem_cons.1 hy with heq | hrest
            · rw [heq]
              exact hlt
            · exact lt_trans hlt (h.1 y hrest)
          rw [hnone]
          simp [hr]
        · simp [hr]
      · by_cases hx : x.1 = k
        · simp [hx]
        · simp [hx, ih h.2]

theorem loadTrackedAccounts_sorted (ranges : List TrackedRange) :
    (loadTrackedAccounts ranges).Pairwise fun x y => x.1 < y.1 := by
  have hfold : ∀ m : List TrackedRange, (m.Pairwise fun x y => x.1 < y.1) →
      (ranges.foldl (fun m r => insertRange r m) m).Pairwise fun x y => x.1 < y.1 := by
    induction ranges with
    | nil => exact fun m hm => hm
    | cons r ranges ih => exact fun m hm => ih _ (insertRange_sorted hm)
  exact hfold [] List.Pairwise.nil

/-- The map holds the first range for every start. -/
theorem find_loadTrackedAccounts (ranges : List TrackedRange) (k : AccountName) :
    (loadTrackedAccounts ranges).find? (fun x => x.1 = k) =
      ranges.find? fun x => x.1 = k := by
  have hfold : ∀ m : List TrackedRange, (m.Pairwise fun x y => x.1 < y.1) →
      (ranges.foldl (fun m r => insertRange r m) m).find? (fun x => x.1 = k) =
        (m.find? fun x => x.1 = k).or (ranges.find? fun x => x.1 = k) := by
    induction ranges with
    | nil => simp
    | cons r ranges ih =>
      intro m hm
      rw [List.foldl_cons, ih _ (insertRange_sorted hm), find_insertRange hm, Option.or_assoc]
      by_cases hr : r.1 = k
      · simp [hr]
      · simp [hr]
  exact hfold [] List.Pairwise.nil

/-- What the lookup in `on_operation` finds. -/
theorem lookup_iff (h : m.Pairwise fun x y => x.1 < y.1) :
    (match m.dropWhile fun x => decide (x.1 < k) with
      | x :: _ => decide (x.1 ≤ k ∧ k ≤ x.2)
      | [] => false) = true ↔ StartsRange m k := by
  unfold StartsRange
  induction m with
  | nil => simp
  | cons x rest ih =>
    rw [List.pairwise_cons] at h
    by_cases hlt : x.1 < k
    · rw [List.dropWhile_cons_of_pos (by simpa using hlt),
        List.find?_cons_of_neg (by simpa using ne_of_lt hlt)]
      exact ih h.2
    · rw [List.dropWhile_cons_of_neg (by simpa using hlt)]
      by_cases heq : x.1 = k
      · rw [List.find?_cons_of_pos (by simpa using heq)]
        simp [heq]
      · have hgt : k < x.1 := lt_of_le_of_ne (not_lt.1 hlt) (Ne.symm heq)
        have hnone : (x :: rest).find? (fun x => x.1 = k) = none := by
          apply find_of_below
          intro y hy
          rcases List.mem_cons.1 hy with hsame | hrest
          · rw [hsame]
            exact hgt
          · exact lt_trans hgt (h.1 y hrest)
        rw [hnone]
        simp [hgt]

end Map

/-- **The lookup** passes an account that starts a range, and no other. -/
theorem tracked_iff (H : OperationHistory) {ranges : List TrackedRange} (hne : ranges ≠ [])
    (account : AccountName) :
    (AccountHistory.pluginInitialize H ranges).tracked account = true ↔
      StartsRange ranges account := by
  have hload : loadTrackedAccounts ranges ≠ [] := by
    intro hnil
    obtain ⟨r, rest, rfl⟩ := List.exists_cons_of_ne_nil hne
    have hfind := find_loadTrackedAccounts (r :: rest) r.1
    rw [hnil] at hfind
    simp at hfind
  have hlookup := lookup_iff (k := account) (loadTrackedAccounts_sorted ranges)
  have hempty : (AccountHistory.pluginInitialize H ranges).trackedAccounts.isEmpty = false := by
    simpa [AccountHistory.pluginInitialize] using hload
  unfold AccountHistory.tracked
  rw [hempty]
  refine hlookup.trans ?_
  unfold StartsRange
  rw [find_loadTrackedAccounts]

/-! ## The visits -/

/-- Both the first and the last number are in use, so the next one is taken. -/
def Full (t : HistoryTables) (account : AccountName) : Prop :=
  0 ∈ t.sequences account ∧ 2 ^ 32 - 1 ∈ t.sequences account

/-- The operation is filed for the account: a new entry follows the others. -/
def Files (block dbId : Nat) (account : AccountName) (t t' : HistoryTables) : Prop :=
  ∃ e : AccountHistoryObject, e.block = block ∧ e.op = dbId ∧
    t'.entries account = t.entries account ++ [e]

section Visits

variable {t t' : HistoryTables} {account : AccountName} {block dbId : Nat}

/-- The number that is looked for is the first one after the greatest. -/
theorem nextSequence_cases (t : HistoryTables) (account : AccountName) :
    (nextSequence t account = 0 ∧ ∀ s ∈ t.sequences account, 2 ^ 32 ≤ s) ∨
    ∃ last ∈ t.sequences account, last < 2 ^ 32 ∧ nextSequence t account = (last + 1) % 2 ^ 32 ∧
      ∀ s ∈ t.sequences account, s < 2 ^ 32 → s ≤ last := by
  have hkey : ∀ x ∈ t.histories.rows, x.account = account → x.sequence < 2 ^ 32 →
      historyKey account (2 ^ 32 - 1) ≤ x.key := by
    intro x _ haccount hlt
    exact historyKey_le.2 (.inr ⟨haccount.symm, by omega⟩)
  unfold nextSequence
  cases hfound : lowerBound AccountHistoryObject.key (historyKey account (2 ^ 32 - 1))
      t.histories.rows with
  | nil =>
    refine .inl ⟨rfl, ?_⟩
    intro s hs
    obtain ⟨x, hx, haccount, rfl⟩ := mem_sequences.1 hs
    by_contra hlt
    have hbelow := lowerBound_eq_nil hfound x hx
    exact absurd (hkey x hx haccount (not_le.1 hlt)) (not_le.2 hbelow)
  | cons y rest =>
    obtain ⟨⟨hy, hge⟩, hleast⟩ := lowerBound_head hfound
    have hpast := historyKey_le.1 hge
    by_cases haccount : y.account = account
    · refine .inr ⟨y.sequence, mem_sequences.2 ⟨y, hy, haccount, rfl⟩, ?_, if_pos haccount, ?_⟩
      · rcases hpast with hlt | ⟨_, hle⟩
        · exact absurd hlt (haccount ▸ lt_irrefl _)
        · omega
      · intro s hs hlt
        obtain ⟨x, hx, hsame, rfl⟩ := mem_sequences.1 hs
        rcases historyKey_le.1 (hleast x hx (hkey x hx hsame hlt)) with hless | ⟨_, hle⟩
        · exact absurd hless (by rw [haccount, hsame]; exact lt_irrefl _)
        · exact hle
    · refine .inl ⟨if_neg haccount, ?_⟩
      intro s hs
      obtain ⟨x, hx, hsame, rfl⟩ := mem_sequences.1 hs
      by_contra hlt
      have hafter : account < y.account := by
        rcases hpast with hless | ⟨heq, _⟩
        · exact hless
        · exact absurd heq.symm haccount
      rcases historyKey_le.1 (hleast x hx (hkey x hx hsame (not_le.1 hlt))) with hless | ⟨heq, _⟩
      · exact absurd (hsame ▸ hless) (not_lt.2 (le_of_lt hafter))
      · exact haccount (heq.trans hsame)

theorem taken_iff (t : HistoryTables) (account : AccountName) :
    nextSequence t account ∈ t.sequences account ↔ Full t account := by
  unfold Full
  rcases nextSequence_cases t account with ⟨hnext, hbig⟩ | ⟨last, hlast, hlt, hnext, hgreatest⟩
  · rw [hnext]
    have hzero : 0 ∉ t.sequences account := fun h => absurd (hbig 0 h) (by omega)
    exact ⟨fun h => absurd h hzero, fun h => absurd h.1 hzero⟩
  · rw [hnext]
    by_cases hend : last = 2 ^ 32 - 1
    · rw [hend] at hlast ⊢
      rw [show (2 ^ 32 - 1 + 1) % 2 ^ 32 = 0 by decide]
      exact ⟨fun h => ⟨h, hlast⟩, fun h => h.1⟩
    · have hmod : (last + 1) % 2 ^ 32 = last + 1 := Nat.mod_eq_of_lt (by omega)
      rw [hmod]
      constructor
      · intro h
        have hle := hgreatest _ h (by omega)
        omega
      · intro h
        have hle := hgreatest _ h.2 (by omega)
        omega

theorem operationVisitor_of_full (h : Full t account) :
    operationVisitor block dbId t account = none := by
  obtain ⟨x, hx, haccount, hsequence⟩ := mem_sequences.1 ((taken_iff t account).2 h)
  have htaken : (t.histories.rows.any fun x =>
      x.account = account && x.sequence = nextSequence t account) = true := by
    rw [List.any_eq_true]
    exact ⟨x, hx, by simp [haccount, hsequence]⟩
  exact if_pos htaken

theorem operationVisitor_of_not_full (block dbId : Nat) (h : ¬ Full t account) :
    ∃ t', operationVisitor block dbId t account = some t' ∧
      t'.histories.rows = t.histories.rows ++ [nextEntry block dbId t account] := by
  have hfree : ¬ (t.histories.rows.any fun x =>
      x.account = account && x.sequence = nextSequence t account) = true := by
    intro hany
    obtain ⟨x, hx, htaken⟩ := List.any_eq_true.1 hany
    rw [Bool.and_eq_true, decide_eq_true_eq, decide_eq_true_eq] at htaken
    exact h ((taken_iff t account).1 (mem_sequences.2 ⟨x, hx, htaken⟩))
  unfold operationVisitor
  rw [if_neg hfree]
  exact ⟨_, rfl, rfl⟩

theorem entries_append_same {e : AccountHistoryObject}
    (hrows : t'.histories.rows = t.histories.rows ++ [e]) (haccount : e.account = account) :
    t'.entries account = t.entries account ++ [e] := by
  unfold HistoryTables.entries
  rw [hrows, List.filter_append]
  simp [haccount]

theorem entries_append_other {e : AccountHistoryObject}
    (hrows : t'.histories.rows = t.histories.rows ++ [e]) (hne : e.account ≠ account) :
    t'.entries account = t.entries account := by
  unfold HistoryTables.entries
  rw [hrows, List.filter_append]
  simp [hne]

theorem Full.congr (h : t'.entries account = t.entries account) :
    Full t' account ↔ Full t account := by
  unfold Full HistoryTables.sequences
  rw [h]

theorem not_files_of_same (h : t'.entries account = t.entries account) :
    ¬ Files block dbId account t t' := by
  rintro ⟨e, -, -, he⟩
  rw [h] at he
  exact absurd he (by simp)

/-- An account that is not visited keeps its entries. -/
theorem visitAll_other {l : List AccountName} (h : account ∉ l) (t : HistoryTables) :
    (visitAll block dbId l t).entries account = t.entries account := by
  induction l generalizing t with
  | nil => rfl
  | cons a rest ih =>
    rw [List.mem_cons, not_or] at h
    unfold visitAll
    by_cases hfull : Full t a
    · rw [operationVisitor_of_full hfull]
    · obtain ⟨t₁, hrun, hrows⟩ := operationVisitor_of_not_full block dbId hfull
      rw [hrun]
      exact (ih h.2 t₁).trans (entries_append_other hrows (Ne.symm h.1))

/-- **The visits** file an entry for every account up to the first that has no number left. -/
theorem visitAll_files (block dbId : Nat) {l : List AccountName}
    (hsorted : l.Pairwise fun a b => a < b) (t : HistoryTables) (account : AccountName) :
    Files block dbId account t (visitAll block dbId l t) ↔
      account ∈ l ∧ ∀ b ∈ l, b ≤ account → ¬ Full t b := by
  induction l generalizing t with
  | nil =>
    constructor
    · intro h
      exact absurd h (not_files_of_same rfl)
    · intro h
      exact absurd h.1 List.not_mem_nil
  | cons a rest ih =>
    rw [List.pairwise_cons] at hsorted
    obtain ⟨hbelow, hrest⟩ := hsorted
    unfold visitAll
    by_cases hfull : Full t a
    · rw [operationVisitor_of_full hfull]
      constructor
      · intro h
        exact absurd h (not_files_of_same rfl)
      · rintro ⟨hmem, hfree⟩
        refine absurd hfull (hfree a List.mem_cons_self ?_)
        rcases List.mem_cons.1 hmem with heq | hin
        · exact le_of_eq heq.symm
        · exact le_of_lt (hbelow account hin)
    · obtain ⟨t₁, hrun, hrows⟩ := operationVisitor_of_not_full block dbId hfull
      rw [hrun]
      show Files block dbId account t (visitAll block dbId rest t₁) ↔ _
      by_cases heq : account = a
      · subst heq
        have hout : account ∉ rest := fun hin => lt_irrefl _ (hbelow account hin)
        have hentries : (visitAll block dbId rest t₁).entries account =
            t.entries account ++ [nextEntry block dbId t account] :=
          (visitAll_other hout t₁).trans (entries_append_same hrows rfl)
        constructor
        · intro _
          refine ⟨List.mem_cons_self, ?_⟩
          intro b hb hle
          rcases List.mem_cons.1 hb with hsame | hin
          · rw [hsame]
            exact hfull
          · exact absurd hle (not_le.2 (hbelow b hin))
        · intro _
          exact ⟨_, rfl, rfl, hentries⟩
      · have hsame : t₁.entries account = t.entries account :=
          entries_append_other hrows (Ne.symm heq)
        have hfiles : Files block dbId account t (visitAll block dbId rest t₁) ↔
            Files block dbId account t₁ (visitAll block dbId rest t₁) := by
          unfold Files
          rw [hsame]
        have hfull_iff : ∀ b ∈ rest, (Full t₁ b ↔ Full t b) := by
          intro b hb
          exact Full.congr (entries_append_other hrows (ne_of_lt (hbelow b hb)))
        rw [hfiles, ih hrest t₁]
        constructor
        · rintro ⟨hmem, hfree⟩
          refine ⟨List.mem_cons_of_mem a hmem, ?_⟩
          intro b hb hle
          rcases List.mem_cons.1 hb with hhead | hin
          · rw [hhead]
            exact hfull
          · exact fun h => hfree b hin hle ((hfull_iff b hin).2 h)
        · rintro ⟨hmem, hfree⟩
          refine ⟨(List.mem_cons.1 hmem).resolve_left heq, ?_⟩
          intro b hin hle h
          exact hfree b (List.mem_cons_of_mem a hin) hle ((hfull_iff b hin).1 h)

end Visits

/-! ## Filing -/

theorem AccountHistory.accounts_sorted (P : AccountHistory) (op : ChainOperation) :
    (P.accounts op).Pairwise fun a b => a < b := by
  unfold AccountHistory.accounts operationGetImpactedAccounts
  exact (foldl_insertName_sorted List.Pairwise.nil).filter _

/-- Every account up to this one for which the operation is filed has a number left. -/
def NumbersLeft (ranges : List TrackedRange) (op : ChainOperation) (t : HistoryTables)
    (account : AccountName) : Prop :=
  ∀ b ∈ operationGetImpactedAccounts op, b ≤ account → StartsRange ranges b → ¬ Full t b

theorem onOperation_files (H : OperationHistory) {ranges : List TrackedRange} (hne : ranges ≠ [])
    (block head : Nat) (time : TimePointSec) {note : OperationNotification} (t : HistoryTables)
    (hstored : H.stores head note.op = true) {account : AccountName}
    (himpacted : account ∈ operationGetImpactedAccounts note.op) :
    Files block t.operations.nextId account t
        ((AccountHistory.pluginInitialize H ranges).onOperation block head time note t) ↔
      StartsRange ranges account ∧ NumbersLeft ranges note.op t account := by
  have hrun : (AccountHistory.pluginInitialize H ranges).onOperation block head time note t =
      visitAll block t.operations.nextId
        ((AccountHistory.pluginInitialize H ranges).accounts note.op)
        { t with operations := t.operations.create (note.object block time) } := if_pos hstored
  have hvisits := visitAll_files block t.operations.nextId
    ((AccountHistory.pluginInitialize H ranges).accounts_sorted note.op)
    { t with operations := t.operations.create (note.object block time) } account
  have hmem : ∀ b, b ∈ (AccountHistory.pluginInitialize H ranges).accounts note.op ↔
      b ∈ operationGetImpactedAccounts note.op ∧ StartsRange ranges b := by
    intro b
    unfold AccountHistory.accounts
    rw [List.mem_filter, tracked_iff H hne]
  rw [hrun]
  refine hvisits.trans ?_
  unfold NumbersLeft
  rw [hmem]
  constructor
  · rintro ⟨⟨_, hstarts⟩, hfree⟩
    exact ⟨hstarts, fun b hb hle hin => hfree b ((hmem b).2 ⟨hb, hin⟩) hle⟩
  · rintro ⟨hstarts, hfree⟩
    refine ⟨⟨himpacted, hstarts⟩, ?_⟩
    intro b hb hle
    exact hfree b ((hmem b).1 hb).1 hle ((hmem b).1 hb).2

/-- **Tracked ranges.**  An operation is filed for exactly the accounts in the ranges, as far as an
account in a range is itself the start of one.  Between two starts the lookup finds the wrong
range. -/
theorem files_iff (H : OperationHistory) {ranges : List TrackedRange} (hne : ranges ≠ [])
    (block head : Nat) (time : TimePointSec) {note : OperationNotification} (t : HistoryTables)
    (hstored : H.stores head note.op = true) {account : AccountName}
    (himpacted : account ∈ operationGetImpactedAccounts note.op) :
    (Files block t.operations.nextId account t
        ((AccountHistory.pluginInitialize H ranges).onOperation block head time note t) ↔
      InRanges ranges account) ↔
    (¬ InRanges ranges account ∨
      StartsRange ranges account ∧ NumbersLeft ranges note.op t account) := by
  rw [onOperation_files H hne block head time t hstored himpacted]
  constructor
  · intro h
    by_cases hin : InRanges ranges account
    · exact .inr (h.2 hin)
    · exact .inl hin
  · rintro (hout | hfiled)
    · constructor
      · intro h
        exact h.1.inRanges
      · intro h
        exact absurd h hout
    · constructor
      · intro _
        exact hfiled.1.inRanges
      · intro _
        exact hfiled

/-- Every operation is stored. -/
def storesAll : OperationHistory := { typeName := fun _ => "" }

def awardTo (receiver : AccountName) : OperationNotification :=
  { op := .virtual (.receiveAward receiver) }

/-- The names from alice to carol. -/
def aliceToCarol : List TrackedRange := [("alice", "carol")]

theorem files_iff_alice :
    InRanges aliceToCarol "alice" ∧
    (Files 1 0 "alice" {} ((AccountHistory.pluginInitialize storesAll aliceToCarol).onOperation
      1 0 0 (awardTo "alice") {}) ↔ InRanges aliceToCarol "alice") := by
  have hstarts : StartsRange aliceToCarol "alice" := ⟨("alice", "carol"), rfl, by decide⟩
  have hfree : NumbersLeft aliceToCarol (awardTo "alice").op {} "alice" :=
    fun _ _ _ _ h => absurd h.1 List.not_mem_nil
  have hne : aliceToCarol ≠ [] := by simp [aliceToCarol]
  refine ⟨hstarts.inRanges, ?_⟩
  exact (files_iff storesAll hne 1 0 0 {} rfl (by decide)).2 (.inr ⟨hstarts, hfree⟩)

/-- bob lies inside the only range, and nothing is filed for him. -/
theorem inside_not_filed :
    storesAll.stores 0 (awardTo "bob").op = true ∧
    "bob" ∈ operationGetImpactedAccounts (awardTo "bob").op ∧
    InRanges aliceToCarol "bob" ∧
    ¬ Files 1 0 "bob" {} ((AccountHistory.pluginInitialize storesAll aliceToCarol).onOperation
      1 0 0 (awardTo "bob") {}) := by
  have hne : aliceToCarol ≠ [] := by simp [aliceToCarol]
  refine ⟨rfl, by decide, ⟨("alice", "carol"), by simp [aliceToCarol], by decide, by decide⟩, ?_⟩
  intro h
  obtain ⟨⟨r, hr, -⟩, -⟩ := (onOperation_files storesAll hne 1 0 0 {} rfl (by decide)).1 h
  simp [aliceToCarol] at hr

end VizCore.Plugins
