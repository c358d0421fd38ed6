import VizCore.Lib.Runs
import VizCore.Plugins.HistoryIndex

/-!
# The history tables over a run of a node

A node applies blocks in undo sessions, opens further sessions inside a block, applies pending
transactions in a session of their own, and drops or keeps each session as a whole.

* `step_kept`: what every step keeps;
* `history_holds`: the entries of every account stand in a row as long as no account runs out of
  numbers;
* `history_wraps`: what happens when one does.
-/

namespace VizCore.Plugins

open VizCore.Lib VizCore.Protocol VizCore.Chain

/-- What an undo session restores. -/
structure Recorded where
  tables : HistoryTables := {}
  headBlockNum : Nat := 0
  headBlockTime : TimePointSec := 0
  /-- all operations that were stored on this branch, oldest first; no code reads it -/
  applied : List OperationObject := []

/-- Where the node is, with the number of sessions inside the session of a block or of the pending
transactions. -/
inductive Phase
  | idle
  | block (inner : Nat)
  | pending (inner : Nat)

def Phase.inner : Phase → Nat
  | .idle => 0
  | .block inner => inner
  | .pending inner => inner

/-- The phase after the newest session is gone. -/
def Phase.outer : Phase → Phase
  | .idle => .idle
  | .block 0 => .idle
  | .block (inner + 1) => .block inner
  | .pending 0 => .idle
  | .pending (inner + 1) => .pending inner

structure HistoryNode where
  now : Recorded := {}
  /-- newest first -/
  undoStack : List Recorded := []
  currentBlockNum : Nat := 0
  phase : Phase := .idle

/-- What the database does with the tables.  The number of blocks to keep may differ from purge to
purge, as the option may change when the node is restarted. -/
inductive HistoryAction
  | startBlock
  | startPending
  | startSession
  | applyOperation (note : OperationNotification)
  | updateGlobalDynamicData (time : TimePointSec)
  | appliedBlock (historyCountBlocks : Option Nat)
  | keepSession
  | undo
  | commit (kept : Nat)

/-- The newest session is merged into what is around it.  The session of a block is kept by itself,
after the block has become the head; that of the pending transactions is never kept. -/
def HistoryNode.keepSession (s : HistoryNode) : HistoryNode :=
  match s.phase with
  | .block 0 =>
    if s.now.headBlockNum = s.currentBlockNum then { s with phase := .idle } else s
  | .block (inner + 1) => { s with undoStack := s.undoStack.tail, phase := .block inner }
  | .pending (inner + 1) => { s with undoStack := s.undoStack.tail, phase := .pending inner }
  | _ => s

/-- One step of the node; an action that is not possible in the phase changes nothing. -/
def AccountHistory.step (P : AccountHistory) (s : HistoryNode) : HistoryAction → HistoryNode
  | .startBlock =>
    match s.phase with
    | .idle => { s with
        undoStack := s.now :: s.undoStack
        currentBlockNum := s.now.headBlockNum + 1
        phase := .block 0 }
    | _ => s
  | .startPending =>
    match s.phase with
    | .idle => { s with undoStack := s.now :: s.undoStack, phase := .pending 0 }
    | _ => s
  | .startSession =>
    match s.phase with
    | .block inner => { s with undoStack := s.now :: s.undoStack, phase := .block (inner + 1) }
    | .pending inner => { s with undoStack := s.now :: s.undoStack, phase := .pending (inner + 1) }
    | .idle => s
  | .applyOperation note =>
    match s.phase with
    | .idle => s
    | _ => { s with now := { s.now with
        tables := P.onOperation s.currentBlockNum s.now.headBlockNum s.now.headBlockTime note
          s.now.tables
        applied := P.journal s.currentBlockNum s.now.headBlockNum s.now.headBlockTime note
          s.now.tables s.now.applied } }
  | .updateGlobalDynamicData time =>
    match s.phase with
    | .block _ => { s with now := { s.now with
        headBlockNum := s.currentBlockNum
        headBlockTime := time } }
    | _ => s
  | .appliedBlock historyCountBlocks =>
    match s.phase, historyCountBlocks with
    | .block _, some count => { s with now := { s.now with
        tables := purgeOldHistory s.now.headBlockNum count s.now.tables } }
    | _, _ => s
  | .keepSession => s.keepSession
  | .undo =>
    match s.undoStack with
    | [] => s
    | r :: rest => { s with now := r, undoStack := rest, phase := s.phase.outer }
  | .commit kept => { s with undoStack := s.undoStack.take kept }

/-! ## What every step keeps -/

variable {P : AccountHistory}

/-- The entries stand in a row and show operations. -/
structure Sound (P : AccountHistory) (r : Recorded) : Prop where
  lined : Lined r.tables
  filed : Filed P r.applied r.tables

structure Settled (P : AccountHistory) (r : Recorded) : Prop extends Sound P r where
  dated : Dated r.headBlockNum r.tables

/-- The tables inside a session of the phase.  Pending operations may carry any block number; no
purge sees them. -/
def Fine (P : AccountHistory) (currentBlockNum : Nat) : Phase → Recorded → Prop
  | .idle, r => Settled P r
  | .block _, r => Sound P r ∧ Dated currentBlockNum r.tables
  | .pending _, r => Sound P r

structure Kept (P : AccountHistory) (s : HistoryNode) : Prop where
  now : Fine P s.currentBlockNum s.phase s.now
  inner : ∀ r ∈ s.undoStack.take s.phase.inner, Fine P s.currentBlockNum s.phase r
  outer : ∀ r ∈ s.undoStack.drop s.phase.inner, Settled P r

/-- The accounts that an applied operation is filed for have numbers left. -/
def AccountHistory.HasRoom (P : AccountHistory) (s : HistoryNode) : HistoryAction → Prop
  | .applyOperation note => P.Room s.now.headBlockNum note s.now.tables
  | _ => True

instance AccountHistory.HasRoom.decidable (P : AccountHistory) (s : HistoryNode) :
    (a : HistoryAction) → Decidable (P.HasRoom s a)
  | .applyOperation note =>
    inferInstanceAs (Decidable (P.operationHistory.stores s.now.headBlockNum note.op = true →
      ∀ account ∈ P.accounts note.op, Fits s.now.tables account))
  | .startBlock | .startPending | .startSession | .updateGlobalDynamicData _ | .appliedBlock _
  | .keepSession | .undo | .commit _ => isTrue trivial

theorem Fine.sound {current : Nat} {phase : Phase} {r : Recorded} (h : Fine P current phase r) :
    Sound P r := by
  cases phase with
  | idle => exact h.toSound
  | block inner => exact h.1
  | pending inner => exact h

theorem start_kept : Kept P {} := by
  have hlined : Lined {} := ⟨List.nodup_nil, fun _ => rfl⟩
  have hfiled : Filed P [] {} := by
    constructor
    · exact ⟨List.nodup_nil, fun x hx => by cases hx⟩
    · intro account
      exact ⟨[], List.Forall₂.nil, List.suffix_refl _⟩
  have hdated : Dated 0 {} := ⟨List.Pairwise.nil, fun x hx => by cases hx⟩
  constructor
  · exact ⟨⟨hlined, hfiled⟩, hdated⟩
  · intro r hr
    cases hr
  · intro r hr
    cases hr

section Step

variable {s : HistoryNode}

theorem Dated.mono {n m : Nat} {t : HistoryTables} (h : Dated n t) (hle : n ≤ m) : Dated m t :=
  ⟨h.ascending, fun x hx => (h.upTo x hx).trans hle⟩

/-- A block or the pending transactions get a session. -/
theorem Kept.begin {current : Nat} {phase : Phase} (h : Kept P s) (hidle : s.phase = .idle)
    (hphase : phase.inner = 0) (hfine : Settled P s.now → Fine P current phase s.now) :
    Kept P { s with
      undoStack := s.now :: s.undoStack, currentBlockNum := current, phase := phase } := by
  obtain ⟨hnow, hinner, houter⟩ := h
  rw [hidle] at hnow houter
  constructor
  · exact hfine hnow
  · intro r hr
    have hr' : r ∈ (s.now :: s.undoStack).take phase.inner := hr
    rw [hphase] at hr'
    cases hr'
  · intro r hr
    have hr' : r ∈ (s.now :: s.undoStack).drop phase.inner := hr
    rw [hphase] at hr'
    rcases List.mem_cons.1 hr' with rfl | hr'
    · exact hnow
    · exact houter r hr'

/-- A session is opened on top of the others. -/
theorem Kept.push {current : Nat} {phase : Phase} (h : Kept P s)
    (hphase : phase.inner = s.phase.inner + 1)
    (hfine : ∀ r, Fine P s.currentBlockNum s.phase r → Fine P current phase r) :
    Kept P { s with
      undoStack := s.now :: s.undoStack, currentBlockNum := current, phase := phase } := by
  constructor
  · exact hfine s.now h.now
  · intro r hr
    show Fine P current phase r
    rw [show r ∈ (s.now :: s.undoStack).take phase.inner ↔ _ from Iff.rfl, hphase,
      List.take_succ_cons, List.mem_cons] at hr
    rcases hr with rfl | hr
    · exact hfine _ h.now
    · exact hfine r (h.inner r hr)
  · intro r hr
    show Settled P r
    have hr' : r ∈ (s.now :: s.undoStack).drop phase.inner := hr
    rw [hphase, List.drop_succ_cons] at hr'
    exact h.outer r hr'

/-- The tables of the newest session change. -/
theorem Kept.change {r : Recorded} (h : Kept P s) (hr : Fine P s.currentBlockNum s.phase r) :
    Kept P { s with now := r } := ⟨hr, h.inner, h.outer⟩

/-- The newest session of several is merged into the one around it. -/
theorem Kept.squash {phase : Phase} (h : Kept P s) (hphase : s.phase.inner = phase.inner + 1)
    (hfine : ∀ r, Fine P s.currentBlockNum s.phase r → Fine P s.currentBlockNum phase r) :
    Kept P { s with undoStack := s.undoStack.tail, phase := phase } := by
  constructor
  · exact hfine s.now h.now
  · intro r hr
    have hr' : r ∈ s.undoStack.tail.take phase.inner := hr
    apply hfine r (h.inner r _)
    rw [hphase]
    cases hstack : s.undoStack with
    | nil =>
      rw [hstack] at hr'
      simp at hr'
    | cons x rest =>
      rw [hstack] at hr'
      rw [List.take_succ_cons]
      exact List.mem_cons_of_mem x hr'
  · intro r hr
    have hr' : r ∈ s.undoStack.tail.drop phase.inner := hr
    apply h.outer r
    rw [hphase]
    rw [List.drop_tail] at hr'
    exact hr'

/-- The newest session is dropped. -/
theorem Kept.restore {r : Recorded} {rest : List Recorded} (h : Kept P s)
    (hstack : s.undoStack = r :: rest) :
    Kept P { s with now := r, undoStack := rest, phase := s.phase.outer } := by
  obtain ⟨hnow, hinner, houter⟩ := h
  rw [hstack] at hinner houter
  have hsettled : s.phase.inner = 0 → s.phase.outer = .idle ∧ Settled P r ∧
      ∀ x ∈ rest, Settled P x := by
    intro hzero
    rw [hzero] at houter
    refine ⟨?_, houter r List.mem_cons_self, fun x hx => houter x (List.mem_cons_of_mem r hx)⟩
    cases hphase : s.phase with
    | idle => rfl
    | block inner =>
      rw [hphase] at hzero
      obtain rfl : inner = 0 := hzero
      rfl
    | pending inner =>
      rw [hphase] at hzero
      obtain rfl : inner = 0 := hzero
      rfl
  have hinside : ∀ inner, s.phase.inner = inner + 1 →
      Fine P s.currentBlockNum s.phase r ∧
        (∀ x ∈ rest.take inner, Fine P s.currentBlockNum s.phase x) ∧
        ∀ x ∈ rest.drop inner, Settled P x := by
    intro inner hsucc
    rw [hsucc] at hinner houter
    rw [List.take_succ_cons] at hinner
    rw [List.drop_succ_cons] at houter
    exact ⟨hinner r List.mem_cons_self, fun x hx => hinner x (List.mem_cons_of_mem r hx), houter⟩
  by_cases hzero : s.phase.inner = 0
  · obtain ⟨hidle, hr, hrest⟩ := hsettled hzero
    rw [hidle]
    exact ⟨hr, fun x hx => (by cases hx), hrest⟩
  · cases hphase : s.phase with
    | idle =>
      rw [hphase] at hzero
      exact absurd rfl hzero
    | block inner =>
      rw [hphase] at hzero hinside
      cases inner with
      | zero => exact absurd rfl hzero
      | succ inner =>
        obtain ⟨hr, htake, hdrop⟩ := hinside inner rfl
        exact ⟨hr, htake, hdrop⟩
    | pending inner =>
      rw [hphase] at hzero hinside
      cases inner with
      | zero => exact absurd rfl hzero
      | succ inner =>
        obtain ⟨hr, htake, hdrop⟩ := hinside inner rfl
        exact ⟨hr, htake, hdrop⟩

/-- The oldest sessions become final. -/
theorem Kept.commit (h : Kept P s) (kept : Nat) :
    Kept P { s with undoStack := s.undoStack.take kept } := by
  constructor
  · exact h.now
  · intro r hr
    have hr' : r ∈ (s.undoStack.take kept).take s.phase.inner := hr
    apply h.inner r
    rw [List.take_take, Nat.min_comm, ← List.take_take] at hr'
    exact List.mem_of_mem_take hr'
  · intro r hr
    have hr' : r ∈ (s.undoStack.take kept).drop s.phase.inner := hr
    apply h.outer r
    rw [List.drop_take] at hr'
    exact List.mem_of_mem_take hr'

/-- **An operation** keeps the tables in order. -/
theorem applyOperation_kept {note : OperationNotification} (h : Kept P s)
    (hroom : P.Room s.now.headBlockNum note s.now.tables) :
    Kept P (P.step s (.applyOperation note)) := by
  have hsound := h.now.sound
  have hsound' : Sound P { s.now with
      tables := P.onOperation s.currentBlockNum s.now.headBlockNum s.now.headBlockTime note
        s.now.tables
      applied := P.journal s.currentBlockNum s.now.headBlockNum s.now.headBlockTime note
        s.now.tables s.now.applied } :=
    ⟨onOperation_lined hsound.lined hroom, onOperation_filed hsound.lined hroom hsound.filed⟩
  simp only [AccountHistory.step]
  split
  · exact h
  · rename_i hbusy
    have hnow := h.now
    refine h.change ?_
    cases hphase : s.phase with
    | idle => exact absurd hphase hbusy
    | block inner =>
      rw [hphase] at hnow
      exact ⟨hsound', onOperation_dated hsound.lined hroom hnow.2⟩
    | pending inner => exact hsound'

/-- **A purge** keeps the tables in order. -/
theorem appliedBlock_kept {count : Option Nat} (h : Kept P s) :
    Kept P (P.step s (.appliedBlock count)) := by
  simp only [AccountHistory.step]
  split
  · rename_i inner count hphase
    have hnow := h.now
    rw [hphase] at hnow
    obtain ⟨hsound, hdated⟩ := hnow
    refine h.change ?_
    rw [hphase]
    exact ⟨⟨purgeOldHistory_lined hsound.lined hdated,
      purgeOldHistory_filed hsound.lined hdated hsound.filed⟩,
      purgeOldHistory_dated hsound.lined hdated⟩
  · exact h

theorem keepSession_kept (h : Kept P s) : Kept P s.keepSession := by
  unfold HistoryNode.keepSession
  split
  · rename_i hphase
    split
    · rename_i hhead
      obtain ⟨hnow, hinner, houter⟩ := h
      rw [hphase] at hnow houter
      obtain ⟨hsound, hdated⟩ := hnow
      rw [← hhead] at hdated
      exact ⟨⟨hsound, hdated⟩, fun r hr => (by cases hr), houter⟩
    · exact h
  · rename_i inner hphase
    refine h.squash ?_ ?_
    · rw [hphase]
      rfl
    · rw [hphase]
      exact fun r hr => hr
  · rename_i inner hphase
    refine h.squash ?_ ?_
    · rw [hphase]
      rfl
    · rw [hphase]
      exact fun r hr => hr
  · exact h

/-- **Every step** keeps the tables in order. -/
theorem step_kept (a : HistoryAction) (h : Kept P s) (hroom : P.HasRoom s a) :
    Kept P (P.step s a) := by
  cases a with
  | startBlock =>
    simp only [AccountHistory.step]
    split
    · rename_i hidle
      exact h.begin hidle rfl fun hr => ⟨hr.toSound, hr.dated.mono (Nat.le_succ _)⟩
    · exact h
  | startPending =>
    simp only [AccountHistory.step]
    split
    · rename_i hidle
      exact h.begin hidle rfl fun hr => hr.toSound
    · exact h
  | startSession =>
    simp only [AccountHistory.step]
    split
    · rename_i inner hphase
      refine h.push ?_ ?_
      · rw [hphase]
        rfl
      · rw [hphase]
        exact fun r hr => hr
    · rename_i inner hphase
      refine h.push ?_ ?_
      · rw [hphase]
        rfl
      · rw [hphase]
        exact fun r hr => hr
    · exact h
  | applyOperation note => exact applyOperation_kept h hroom
  | updateGlobalDynamicData time =>
    simp only [AccountHistory.step]
    split
    · rename_i inner hphase
      have hnow := h.now
      rw [hphase] at hnow
      refine h.change ?_
      rw [hphase]
      exact ⟨⟨hnow.1.lined, hnow.1.filed⟩, hnow.2⟩
    · exact h
  | appliedBlock count => exact appliedBlock_kept h
  | keepSession => exact keepSession_kept h
  | undo =>
    simp only [AccountHistory.step]
    split
    · exact h
    · rename_i r rest hstack
      exact h.restore hstack
  | commit kept => exact h.commit kept

end Step

/-! ## Histories stand in a row -/

/-- What a node shows of an account whose range object is `r`. -/
structure InRow (t : HistoryTables) (account : AccountName) (r : AccountRangeObject) : Prop where
  nonempty : r.startSequence ≤ r.endSequence
  sequences : t.sequences account =
    List.range' r.startSequence (r.endSequence + 1 - r.startSequence)
  queries : ∀ fromSequence limit, r.startSequence ≤ fromSequence →
    fromSequence ≤ r.endSequence → limit ≤ min fromSequence 1000 →
    ∃ answers, getAccountHistory account fromSequence limit t = .ok answers ∧
      answers.map Prod.fst = List.range' (max r.startSequence (fromSequence - limit))
        (fromSequence + 1 - max r.startSequence (fromSequence - limit)) ∧
      List.Forall₂ (Answers t.operations)
        ((t.entries account).filter fun x =>
          decide (fromSequence - limit ≤ x.sequence ∧ x.sequence ≤ fromSequence)) answers

/-- The history index of every account is in order. -/
structure HistoryHolds (P : AccountHistory) (r : Recorded) : Prop where
  unlisted : ∀ account, r.tables.ranges.get (·.account) account = none ↔
    r.tables.entries account = []
  listed : ∀ account range, r.tables.ranges.get (·.account) account = some range →
    InRow r.tables account range
  shown : ∀ account, ∃ os, List.Forall₂ (Shows r.tables.operations) (r.tables.entries account) os ∧
    os <:+ P.concerning account r.applied

theorem Sound.holds {r : Recorded} (h : Sound P r) : HistoryHolds P r := by
  constructor
  · intro account
    constructor
    · intro hnone
      unfold HistoryTables.entries
      rw [List.filter_eq_nil_iff]
      intro x hx haccount
      exact h.lined.absent hnone x hx (of_decide_eq_true haccount)
    · intro hnil
      cases hr : r.tables.ranges.get (·.account) account with
      | none => rfl
      | some range =>
        have hbounds := h.lined.bounds hr
        have hsequences := h.lined.sequences_eq hr
        unfold HistoryTables.sequences at hsequences
        rw [hnil, List.map_nil, eq_comm, List.range'_eq_nil_iff] at hsequences
        omega
  · intro account range hr
    refine ⟨(h.lined.bounds hr).1, h.lined.sequences_eq hr, ?_⟩
    intro fromSequence limit hlow hhigh hlimit
    exact getAccountHistory_spec h.lined h.filed hr hlow hhigh hlimit
  · exact h.filed.shown

/-- **Histories stand in a row** after any run in which no account runs out of numbers. -/
theorem history_holds (P : AccountHistory) (acts : List HistoryAction)
    (hroom : Guarded P.step P.HasRoom {} acts) : HistoryHolds P (run P.step {} acts).now := by
  have hkept : Kept P (run P.step {} acts) :=
    run_invariant start_kept (fun s a h hok => step_kept a h hok) hroom
  exact hkept.now.sound.holds

/-- The actions of a block that is applied, in a node that keeps `count` blocks. -/
def blockActions (count : Nat) (notes : List OperationNotification) : List HistoryAction :=
  .startBlock :: notes.map .applyOperation ++
    [.updateGlobalDynamicData 0, .appliedBlock (some count), .keepSession]

/-- A node that tracks all accounts and stores all operations. -/
def historyPlugin : AccountHistory := { operationHistory := { typeName := fun _ => "" } }

def awardNote : OperationNotification := { op := .virtual (.receiveAward "alice") }

def saleNote : OperationNotification := { op := .virtual (.accountSale "alice" "bob" "carol") }

def metadataNote : OperationNotification := { op := .carried (.accountMetadata ⟨"bob", "x"⟩) }

/-- The second block has a session that is undone and one that is kept, and pending transactions
follow it; the fifth block is undone.  The third and the fourth block purge the first and the
second. -/
def historyActions : List HistoryAction :=
  blockActions 2 [awardNote, saleNote] ++
    [.startBlock, .applyOperation awardNote, .startSession, .applyOperation saleNote, .undo,
      .startSession, .applyOperation metadataNote, .keepSession, .updateGlobalDynamicData 3,
      .appliedBlock (some 2), .keepSession] ++
    [.startPending, .applyOperation awardNote, .undo] ++
    blockActions 2 [saleNote] ++ [.commit 1] ++
    blockActions 2 [awardNote, metadataNote] ++ blockActions 2 [metadataNote] ++ [.undo]

theorem history_holds_historyActions :
    Guarded historyPlugin.step historyPlugin.HasRoom {} historyActions ∧
      HistoryHolds historyPlugin (run historyPlugin.step {} historyActions).now ∧
      (run historyPlugin.step {} historyActions).now.tables.sequences "alice" = [3, 4] ∧
      (run historyPlugin.step {} historyActions).now.tables.sequences "bob" = [2, 3] := by
  have hroom : Guarded historyPlugin.step historyPlugin.HasRoom {} historyActions := by
    decide +kernel
  refine ⟨hroom, history_holds historyPlugin historyActions hroom, ?_, ?_⟩
  · decide +kernel
  · decide +kernel

/-! ## Running out of numbers -/

theorem accounts_award : historyPlugin.accounts awardNote.op = ["alice"] := rfl

theorem stores_award (head : Nat) :
    historyPlugin.operationHistory.stores head awardNote.op = true := by
  unfold OperationHistory.stores
  simp [historyPlugin]

/-- The tables after one more award, as long as the visit succeeds. -/
theorem onOperation_award {block head : Nat} {time : TimePointSec} {t t' : HistoryTables}
    (hvisit : operationVisitor block t.operations.nextId
      { t with operations := t.operations.create (awardNote.object block time) } "alice" =
        some t') :
    historyPlugin.onOperation block head time awardNote t = t' := by
  unfold AccountHistory.onOperation
  rw [if_pos (stores_award head), accounts_award]
  unfold visitAll
  rw [hvisit]
  rfl

theorem onOperation_award_spec (block head : Nat) (time : TimePointSec) {t : HistoryTables}
    (h : Lined t) (hfits : Fits t "alice") :
    Lined (historyPlugin.onOperation block head time awardNote t) ∧
      (historyPlugin.onOperation block head time awardNote t).histories.rows =
        t.histories.rows ++ [nextEntry block t.operations.nextId t "alice"] := by
  have hlined : Lined { t with operations := t.operations.create (awardNote.object block time) } :=
    ⟨h.keyed, h.covers⟩
  obtain ⟨t', hvisit, _, hrows, _, hlined'⟩ :=
    operationVisitor_spec block t.operations.nextId hlined hfits
  rw [onOperation_award hvisit]
  exact ⟨hlined', hrows⟩

/-- The entries of the account are numbered from 0 to `last`; the first is of block 1, and all others
are of later blocks than the second. -/
structure Filling (n last : Nat) (t : HistoryTables) : Prop where
  lined : Lined t
  dated : Dated n t
  numbers : t.sequences "alice" = List.range' 0 (last + 1)
  rows : ∃ first rest, t.histories.rows = first :: rest ∧ first.block = 1 ∧
    first.account = "alice" ∧ ∀ x ∈ rest, 3 ≤ x.block

namespace Filling

variable {n last : Nat} {t : HistoryTables}

theorem range (h : Filling n last t) :
    ∃ r, t.ranges.get (·.account) "alice" = some r ∧ r.startSequence = 0 ∧
      r.endSequence = last := by
  cases hr : t.ranges.get (·.account) "alice" with
  | none =>
    have hcovers := h.lined.covers "alice"
    rw [hr, h.numbers] at hcovers
    cases hcovers
  | some r =>
    have hequal := (h.lined.sequences_eq hr).symm.trans h.numbers
    have hbounds := h.lined.bounds hr
    have hlength := congrArg List.length hequal
    rw [List.length_range', List.length_range'] at hlength
    have hlength' : r.endSequence + 1 - r.startSequence = last + 1 := hlength
    rw [hlength', List.range'_succ, List.range'_succ, List.cons.injEq] at hequal
    exact ⟨r, rfl, hequal.1, by omega⟩

theorem fits (h : Filling n last t) (hlast : last + 1 < 2 ^ 32) : Fits t "alice" := by
  intro r hr
  obtain ⟨r', hr', _, hend⟩ := h.range
  rw [hr] at hr'
  obtain rfl := Option.some.inj hr'
  rw [hend]
  exact hlast

theorem next {block : Nat} (h : Filling n last t) (hn : n ≤ block) (hblock : 3 ≤ block)
    (hlast : last + 1 < 2 ^ 32) (head : Nat) (time : TimePointSec) :
    Filling block (last + 1) (historyPlugin.onOperation block head time awardNote t) := by
  have hroom : historyPlugin.Room head awardNote t := by
    intro _ account haccount
    rw [accounts_award, List.mem_singleton] at haccount
    rw [haccount]
    exact h.fits hlast
  obtain ⟨hlined, hrows⟩ := onOperation_award_spec block head time h.lined (h.fits hlast)
  obtain ⟨r, hr, _, hend⟩ := h.range
  constructor
  · exact hlined
  · exact onOperation_dated h.lined hroom (h.dated.mono hn)
  · have hnumbers : (historyPlugin.onOperation block head time awardNote t).sequences "alice" =
        t.sequences "alice" ++ [nextSequence t "alice"] := sequences_append_same hrows rfl
    have hconcat : List.range' 0 (last + 1 + 1) = List.range' 0 (last + 1) ++ [last + 1] := by
      rw [List.range'_concat, Nat.one_mul, Nat.zero_add]
    rw [hnumbers, h.numbers, h.lined.nextSequence_of_some hr, hend, Nat.mod_eq_of_lt hlast, hconcat]
  · obtain ⟨first, rest, hsplit, hfirst, haccount, hrest⟩ := h.rows
    refine ⟨first, rest ++ [nextEntry block t.operations.nextId t "alice"], ?_, hfirst,
      haccount, ?_⟩
    · rw [hrows, hsplit]
      rfl
    · intro x hx
      rcases List.mem_append.1 hx with hx | hx
      · exact hrest x hx
      · rw [List.mem_singleton.1 hx]
        exact hblock

end Filling

/-- The operations of a block, one after the other. -/
def AccountHistory.applyAll (P : AccountHistory) (block head : Nat) (time : TimePointSec)
    (notes : List OperationNotification) (t : HistoryTables) : HistoryTables :=
  notes.foldl (fun t note => P.onOperation block head time note t) t

namespace Filling

variable {n last : Nat} {t : HistoryTables}

theorem fill {block : Nat} (h : Filling n last t) (hn : n ≤ block) (hblock : 3 ≤ block)
    (awards : Nat) (hlast : last + awards < 2 ^ 32) (head : Nat) (time : TimePointSec) :
    Filling block (last + awards)
      (historyPlugin.applyAll block head time (List.replicate awards awardNote) t) := by
  induction awards generalizing last n t with
  | zero => exact ⟨h.lined, h.dated.mono hn, h.numbers, h.rows⟩
  | succ awards ih =>
    have hnext := h.next hn hblock (by omega) head time
    have hfilled := ih hnext (le_refl block) (by omega)
    rw [show last + (awards + 1) = last + 1 + awards by omega]
    exact hfilled

/-- A purge that finds no old entries. -/
theorem purge (head count : Nat) (h : Filling n last t) (hcount : head ≤ count) :
    Filling n last (purgeOldHistory head count t) := by
  have hyoung : ∀ x ∈ t.histories.rows, count ≤ head → head - count < x.block := by
    obtain ⟨first, rest, hrows, hfirst, _, hrest⟩ := h.rows
    intro x hx hle
    rw [hrows] at hx
    rcases List.mem_cons.1 hx with rfl | hx
    · omega
    · have hblock := hrest x hx
      omega
  rw [purgeOldHistory_of_young hyoung]
  exact ⟨⟨h.lined.keyed, h.lined.covers⟩, ⟨h.dated.ascending, h.dated.upTo⟩, h.numbers, h.rows⟩

/-- The purge that drops the first entry and no other. -/
theorem purged (count : Nat) (h : Filling n last t) :
    Lined (purgeOldHistory (count + 1) count t) ∧
      (purgeOldHistory (count + 1) count t).sequences "alice" = List.range' 1 last ∧
      ∀ x ∈ (purgeOldHistory (count + 1) count t).histories.rows, 3 ≤ x.block := by
  obtain ⟨first, rest, hrows, hfirst, haccount, hrest⟩ := h.rows
  obtain ⟨dropped, hsplit, hold, hyoung, _, hlined⟩ :=
    purgeOldHistory_spec (count + 1) count h.lined h.dated
  have hkept : (purgeOldHistory (count + 1) count t).histories.rows = rest := by
    rw [hrows] at hsplit
    cases dropped with
    | nil =>
      have hmem : first ∈ (purgeOldHistory (count + 1) count t).histories.rows := by
        rw [List.nil_append] at hsplit
        rw [← hsplit]
        exact List.mem_cons_self
      have hlt := hyoung first hmem (by omega)
      omega
    | cons x dropped =>
      rw [List.cons_append, List.cons.injEq] at hsplit
      cases dropped with
      | nil => exact hsplit.2.symm
      | cons y dropped =>
        have hmem : y ∈ rest := by
          rw [hsplit.2]
          exact List.mem_cons_self
        have hle := hold y (List.mem_cons_of_mem x List.mem_cons_self)
        have hblock := hrest y hmem
        omega
  refine ⟨hlined, ?_, ?_⟩
  · have hcons := sequences_cons_same hrows hkept
    rw [haccount, h.numbers, List.range'_succ, List.cons.injEq] at hcons
    exact hcons.2.symm
  · rw [hkept]
    exact hrest

end Filling

/-- The number after the last one is 0, which is behind the start of the range. -/
theorem onOperation_wraps {t : HistoryTables} {last : Nat} (h : Lined t)
    (hnumbers : t.sequences "alice" = List.range' 1 last) (hlast : last + 1 = 2 ^ 32)
    (block head : Nat) (time : TimePointSec) :
    (historyPlugin.onOperation block head time awardNote t).histories.rows =
        t.histories.rows ++ [nextEntry block t.operations.nextId t "alice"] ∧
      ∃ r, (historyPlugin.onOperation block head time awardNote t).ranges.get (·.account) "alice" =
          some r ∧ r.startSequence = 1 ∧ r.endSequence = 0 := by
  have hlength : last = last - 1 + 1 := by omega
  cases hr : t.ranges.get (·.account) "alice" with
  | none =>
    have hcovers := h.covers "alice"
    rw [hr, hnumbers, hlength] at hcovers
    cases hcovers
  | some r =>
    have hequal := (h.sequences_eq hr).symm.trans hnumbers
    have hbounds := h.bounds hr
    have hlen := congrArg List.length hequal
    rw [List.length_range', List.length_range'] at hlen
    have hsucc : r.endSequence + 1 - r.startSequence = last - 1 + 1 := by omega
    rw [hsucc, hlength, Nat.add_sub_cancel, List.range'_succ, List.range'_succ,
      List.cons.injEq] at hequal
    have hend : r.endSequence + 1 = 2 ^ 32 := by omega
    have hnext : nextSequence t "alice" = 0 := by
      rw [h.nextSequence_of_some hr, hend]
      rfl
    have hfresh : ¬ (t.histories.rows.any fun x => x.account = "alice" && x.sequence = 0) = true := by
      intro hany
      obtain ⟨x, hx, htaken⟩ := List.any_eq_true.1 hany
      rw [Bool.and_eq_true, decide_eq_true_eq, decide_eq_true_eq] at htaken
      have hin := (h.sequence_iff hr 0).1 ⟨x, hx, htaken.1, htaken.2⟩
      omega
    have hget := Table.get_update_same t.ranges (fun x => x.account) "alice"
      (fun r => { r with endSequence := 0 }) fun x => rfl
    have hvisit : operationVisitor block t.operations.nextId
        { t with operations := t.operations.create (awardNote.object block time) } "alice" =
          some { operations := t.operations.create (awardNote.object block time)
                 histories := t.histories.create fun id =>
                   { id := id, account := "alice", block := block, sequence := 0,
                     op := t.operations.nextId }
                 ranges := t.ranges.update (·.account) "alice"
                   fun r => { r with endSequence := 0 } } := by
      have hnext' : nextSequence
          { t with operations := t.operations.create (awardNote.object block time) } "alice" = 0 :=
        hnext
      unfold operationVisitor
      rw [hnext', if_neg hfresh, hr]
    rw [onOperation_award hvisit]
    constructor
    · show t.histories.rows ++ [_] = _
      unfold nextEntry
      rw [hnext]
    · refine ⟨{ r with endSequence := 0 }, ?_, hequal.1, rfl⟩
      show (t.ranges.update (·.account) "alice" fun r => { r with endSequence := 0 }).get
        (·.account) "alice" = _
      rw [hget, hr]
      rfl

theorem run_applyOperations (notes : List OperationNotification) {s : HistoryNode} {inner : Nat}
    (hphase : s.phase = .block inner) :
    ∃ applied, run P.step s (notes.map .applyOperation) = { s with now := { s.now with
      tables := P.applyAll s.currentBlockNum s.now.headBlockNum s.now.headBlockTime notes
        s.now.tables
      applied := applied } } := by
  induction notes generalizing s with
  | nil => exact ⟨s.now.applied, rfl⟩
  | cons note rest ih =>
    have hstep : P.step s (.applyOperation note) = { s with now := { s.now with
        tables := P.onOperation s.currentBlockNum s.now.headBlockNum s.now.headBlockTime note
          s.now.tables
        applied := P.journal s.currentBlockNum s.now.headBlockNum s.now.headBlockTime note
          s.now.tables s.now.applied } } := by
      simp only [AccountHistory.step]
      split
      · rename_i hidle
        rw [hphase] at hidle
        cases hidle
      · rfl
    rw [List.map_cons, run_cons, hstep]
    obtain ⟨applied, hrun⟩ := ih (s := { s with now := { s.now with
        tables := P.onOperation s.currentBlockNum s.now.headBlockNum s.now.headBlockTime note
          s.now.tables
        applied := P.journal s.currentBlockNum s.now.headBlockNum s.now.headBlockTime note
          s.now.tables s.now.applied } }) hphase
    exact ⟨applied, hrun⟩

/-- A whole block, when the node stands at a known one. -/
theorem run_blockActions (count : Nat) (notes : List OperationNotification) {s : HistoryNode}
    {head : Nat} (hidle : s.phase = .idle) (hhead : s.now.headBlockNum = head) :
    (run P.step s (blockActions count notes)).phase = .idle ∧
      (run P.step s (blockActions count notes)).now.headBlockNum = head + 1 ∧
      (run P.step s (blockActions count notes)).now.tables = purgeOldHistory (head + 1) count
        (P.applyAll (head + 1) head s.now.headBlockTime notes s.now.tables) := by
  subst hhead
  have hstart : P.step s .startBlock = { s with
      undoStack := s.now :: s.undoStack
      currentBlockNum := s.now.headBlockNum + 1
      phase := .block 0 } := by
    simp only [AccountHistory.step]
    split
    · rfl
    · rename_i hbusy
      exact absurd hidle hbusy
  unfold blockActions
  rw [List.cons_append, run_cons, hstart, run_append]
  obtain ⟨applied, hrun⟩ := run_applyOperations (P := P) notes (s := { s with
      undoStack := s.now :: s.undoStack
      currentBlockNum := s.now.headBlockNum + 1
      phase := .block 0 }) rfl
  rw [hrun]
  simp only [run_cons, run_nil, AccountHistory.step, HistoryNode.keepSession, if_true]
  exact ⟨trivial, trivial, trivial⟩

/-- Blocks of awards, one after the other. -/
def awardActions (count awards : Nat) : Nat → List HistoryAction
  | 0 => []
  | blocks + 1 =>
    blockActions count (List.replicate awards awardNote) ++ awardActions count awards blocks

theorem run_awardActions (count awards blocks : Nat) {head last : Nat} {s : HistoryNode}
    (hidle : s.phase = .idle) (hhead : s.now.headBlockNum = head) (htwo : 2 ≤ head)
    (hcount : head + blocks ≤ count) (hfilling : Filling head last s.now.tables)
    (hlast : last + awards * blocks < 2 ^ 32) :
    (run historyPlugin.step s (awardActions count awards blocks)).phase = .idle ∧
      (run historyPlugin.step s (awardActions count awards blocks)).now.headBlockNum =
        head + blocks ∧
      Filling (head + blocks) (last + awards * blocks)
        (run historyPlugin.step s (awardActions count awards blocks)).now.tables := by
  induction blocks generalizing s head last with
  | zero => exact ⟨hidle, hhead, hfilling⟩
  | succ blocks ih =>
    unfold awardActions
    rw [run_append]
    obtain ⟨hidle', hhead', htables⟩ := run_blockActions (P := historyPlugin) count
      (List.replicate awards awardNote) hidle hhead
    have hmul : last + awards * (blocks + 1) = last + awards + awards * blocks := by
      rw [Nat.mul_succ]
      omega
    have hfilled := hfilling.fill (Nat.le_succ head) (by omega) awards (by omega) head
      s.now.headBlockTime
    have hkept := hfilled.purge (head + 1) count (by omega)
    rw [← htables] at hkept
    have hrest := ih hidle' hhead' (by omega) (by omega) hkept (by omega)
    rw [hmul, show head + (blocks + 1) = head + 1 + blocks by omega]
    exact hrest

/-- One award in the first block, none in the second, so many in the following blocks that the
account has no number left, none in the block whose purge drops the first one, and one more. -/
def wrapActions (awards blocks : Nat) : List HistoryAction :=
  blockActions (blocks + 2) [awardNote] ++ (blockActions (blocks + 2) [] ++
    (awardActions (blocks + 2) awards blocks ++
      (blockActions (blocks + 2) [] ++ blockActions (blocks + 2) [awardNote])))

/-- The tables after the first award. -/
theorem filling_start (time : TimePointSec) :
    Filling 1 0 (historyPlugin.applyAll 1 0 time [awardNote] {}) := by
  have hstart : Lined {} := (start_kept (P := historyPlugin)).now.sound.lined
  have hfits : Fits {} "alice" := fun r hr => (by cases hr)
  have hrows : (historyPlugin.applyAll 1 0 time [awardNote] {}).histories.rows =
      [nextEntry 1 0 {} "alice"] := (onOperation_award_spec 1 0 time hstart hfits).2
  constructor
  · exact (onOperation_award_spec 1 0 time hstart hfits).1
  · constructor
    · rw [hrows]
      exact List.pairwise_singleton _ _
    · intro x hx
      rw [hrows, List.mem_singleton] at hx
      rw [hx]
      exact le_refl 1
  · have hnumbers : (historyPlugin.applyAll 1 0 time [awardNote] {}).sequences "alice" =
        HistoryTables.sequences {} "alice" ++ [nextSequence {} "alice"] :=
      sequences_append_same (onOperation_award_spec 1 0 time hstart hfits).2 rfl
    rw [hnumbers, hstart.nextSequence_of_none rfl]
    rfl
  · refine ⟨nextEntry 1 0 {} "alice", [], hrows, rfl, rfl, ?_⟩
    intro x hx
    cases hx

/-- **An account that runs out of numbers** starts again at 0, and its range ends before it
starts. -/
theorem range_wraps (awards blocks : Nat) (htotal : awards * blocks + 1 = 2 ^ 32) :
    ∃ r, (run historyPlugin.step {} (wrapActions awards blocks)).now.tables.ranges.get (·.account)
      "alice" = some r ∧ r.endSequence < r.startSequence := by
  unfold wrapActions
  rw [run_append, run_append, run_append, run_append]
  have hzero : ({} : HistoryNode).now.headBlockNum = 0 := rfl
  obtain ⟨hidle₁, hhead₁, htables₁⟩ :=
    run_blockActions (P := historyPlugin) (blocks + 2) [awardNote] rfl hzero
  generalize run historyPlugin.step {} (blockActions (blocks + 2) [awardNote]) = s₁ at *
  obtain ⟨hidle₂, hhead₂, htables₂⟩ :=
    run_blockActions (P := historyPlugin) (blocks + 2) [] hidle₁ hhead₁
  generalize run historyPlugin.step s₁ (blockActions (blocks + 2) []) = s₂ at *
  have hfilling₁ : Filling 1 0 s₁.now.tables := by
    rw [htables₁]
    exact (filling_start _).purge 1 (blocks + 2) (by omega)
  have hfilling₂ : Filling 2 0 s₂.now.tables := by
    rw [htables₂]
    have hkept := hfilling₁.purge 2 (blocks + 2) (by omega)
    exact ⟨hkept.lined, hkept.dated.mono (by omega), hkept.numbers, hkept.rows⟩
  obtain ⟨hidle₃, hhead₃, hfilling₃⟩ := run_awardActions (blocks + 2) awards blocks
    hidle₂ hhead₂ (le_refl 2) (by omega) hfilling₂ (by omega)
  generalize run historyPlugin.step s₂ (awardActions (blocks + 2) awards blocks) = s₃ at *
  obtain ⟨hidle₄, hhead₄, htables₄⟩ :=
    run_blockActions (P := historyPlugin) (blocks + 2) [] hidle₃ hhead₃
  generalize run historyPlugin.step s₃ (blockActions (blocks + 2) []) = s₄ at *
  obtain ⟨_, _, htables₅⟩ :=
    run_blockActions (P := historyPlugin) (blocks + 2) [awardNote] hidle₄ hhead₄
  obtain ⟨hlined, hnumbers, hblock⟩ := hfilling₃.purged (blocks + 2)
  have htables : s₄.now.tables = purgeOldHistory (blocks + 2 + 1) (blocks + 2) s₃.now.tables := by
    rw [htables₄, show 2 + blocks = blocks + 2 by omega]
    rfl
  rw [← htables] at hlined hnumbers hblock
  obtain ⟨hrows, r, hr, hfirst, hlast⟩ :=
    onOperation_wraps hlined hnumbers (by omega) (2 + blocks + 1 + 1) (2 + blocks + 1)
      s₄.now.headBlockTime
  refine ⟨r, ?_, by omega⟩
  rw [htables₅]
  have hyoung : ∀ x ∈ (historyPlugin.applyAll (2 + blocks + 1 + 1) (2 + blocks + 1)
      s₄.now.headBlockTime [awardNote] s₄.now.tables).histories.rows,
      blocks + 2 ≤ 2 + blocks + 1 + 1 → 2 + blocks + 1 + 1 - (blocks + 2) < x.block := by
    intro x hx _
    have hx' : x ∈ s₄.now.tables.histories.rows ++
        [nextEntry (2 + blocks + 1 + 1) s₄.now.tables.operations.nextId s₄.now.tables
          "alice"] := by
      rw [← hrows]
      exact hx
    rcases List.mem_append.1 hx' with hx' | hx'
    · have hthree := hblock x hx'
      omega
    · rw [List.mem_singleton.1 hx']
      show 2 + blocks + 1 + 1 - (blocks + 2) < 2 + blocks + 1 + 1
      omega
  rw [purgeOldHistory_of_young hyoung]
  exact hr

/-- The history of an account with more than 2³² operations is not in order. -/
theorem history_wraps :
    ¬ HistoryHolds historyPlugin (run historyPlugin.step {} (wrapActions 255 16843009)).now := by
  intro h
  obtain ⟨r, hr, hlt⟩ := range_wraps 255 16843009 (by norm_num)
  have hle := (h.listed "alice" r hr).nonempty
  omega

end VizCore.Plugins
