import VizCore.Chain.Block.Rounds

/-!
# The activation of hardforks

The other modules look at a chain on which every hardfork is applied; this one looks at how
they get applied.  Witnesses vote for a version and a time in the headers of their blocks, a
schedule update counts the votes of the schedule it replaces, and the blocks that follow apply
what was voted for.  The state is `hardfork_property_object` with the votes and the schedule;
what else a block does is an input: the witnesses that a schedule update selects.  The
migrations of `apply_hardfork`, which change other objects, are left out.

* `hardforks_follow_votes`: in a run whose majorities name no version between two hardforks,
  hardforks are applied in order, each with a majority for its version or a later one whose
  time has come;
* `hardfork_without_votes`: a majority for a version between two hardforks applies the later
  of the two;
* `processHeaderExtension_votes`, `scheduleWitnesses_votes`, `processHardforks_applied`: the
  steps of the database do the same to the votes, the schedule and the property object.
-/

namespace VizCore.Chain

open VizCore.Lib VizCore.Protocol

/-! ## The hardforks -/

/-- `CHAIN_NUM_HARDFORKS` -/
def numHardforks : Nat := 11

/-- `hardfork_version(version(m, h, 0))` -/
def hardforkVersion (m h : Nat) : Version := m * 2 ^ 24 + h * 2 ^ 16

/-- `_hardfork_versions` -/
def hardforkVersions : List Version :=
  [hardforkVersion 1 0, hardforkVersion 1 1, hardforkVersion 1 2, hardforkVersion 1 3,
    hardforkVersion 2 0, hardforkVersion 2 1, hardforkVersion 2 2, hardforkVersion 2 3,
    hardforkVersion 2 4, hardforkVersion 2 5, hardforkVersion 2 6, hardforkVersion 3 0]

/-- `_hardfork_times`; the first one is the genesis time, which is not read here. -/
def hardforkTimes : List TimePointSec :=
  [0, 1538647200, 1538906400, 1540497600, 1547460000, 1550656800, 1555236000, 1556359200,
    1556600400, 1589173200, 1638162000, 1691643600]

def versionOf (hardfork : Nat) : Version := hardforkVersions.getD hardfork 0

def timeOf (hardfork : Nat) : TimePointSec := hardforkTimes.getD hardfork 0

theorem versionOf_mono {j k : Nat} (h : j ≤ k) (hk : k ≤ numHardforks) :
    versionOf j ≤ versionOf k := by
  have hall : ∀ k < numHardforks + 1, ∀ j < k + 1, versionOf j ≤ versionOf k := by decide
  exact hall k (Nat.lt_succ_of_le hk) j (Nat.lt_succ_of_le h)

/-- `hardfork_property_object` with all of its fields. -/
structure HardforkState extends HardforkPropertyObject where
  processedHardforks : List TimePointSec
  lastHardfork : Nat := 0

namespace HardforkState

/-- The bookkeeping of `apply_hardfork`. -/
def applyHardfork (s : HardforkState) (hardfork : Nat) : Result HardforkState := do
  fcAssert (hardfork = s.lastHardfork + 1) "Hardfork being applied out of order"
  fcAssert (s.processedHardforks.length = hardfork) "Hardfork being applied out of order"
  let s := { s with
    processedHardforks := s.processedHardforks ++ [timeOf hardfork]
    lastHardfork := hardfork
    currentHardforkVersion := versionOf hardfork }
  fcAssert (s.processedHardforks[s.lastHardfork]? = some (timeOf s.lastHardfork))
    "Hardfork processing failed sanity check..."
  return s

/-- The guard of the loop of `process_hardforks`. -/
def Due (s : HardforkState) (now : TimePointSec) : Prop :=
  versionOf s.lastHardfork < s.nextHardfork ∧ s.nextHardforkTime ≤ now

instance (s : HardforkState) (now : TimePointSec) : Decidable (s.Due now) :=
  inferInstanceAs (Decidable (_ ∧ _))

/-- The loop of `process_hardforks`, where `known` hardforks follow the last one.  The list
holds the hardforks whose operations are pushed. -/
def applyDue (now : TimePointSec) : Nat → HardforkState → Result (HardforkState × List Nat)
  | 0, s => do
    require (¬ s.Due now) .unknownHardfork
    return (s, [])
  | known + 1, s =>
    if s.Due now then do
      let s' ← s.applyHardfork (s.lastHardfork + 1)
      let (s'', applied) ← applyDue now known s'
      return (s'', (s.lastHardfork + 1) :: applied)
    else return (s, [])

/-- `process_hardforks` -/
def processHardforks (s : HardforkState) (now : TimePointSec) :
    Result (HardforkState × List Nat) :=
  applyDue now (numHardforks - s.lastHardfork) s

/-- The first of the votes that enough witnesses share. -/
def winner (votes : List (Version × TimePointSec)) : Option (Version × TimePointSec) :=
  (orderBy Db.voteBefore votes).find? fun v => hardforkRequiredWitnesses ≤ votes.count v

/-- The votes are counted by `update_witness_schedule`. -/
def countVotes (s : HardforkState) (votes : List (Version × TimePointSec)) : HardforkState :=
  match winner votes with
  | some (version, time) => { s with nextHardfork := version, nextHardforkTime := time }
  | none => { s with nextHardfork := s.currentHardforkVersion }

end HardforkState

/-! ## Votes and blocks -/

/-- `process_header_extensions`, as far as the votes go. -/
def recordVote (name : AccountName) (votes : AccountName → Version × TimePointSec) :
    HeaderExtension → AccountName → Version × TimePointSec
  | .hardforkVersionVote hfVersion hfTime =>
    Function.update votes name (Db.releaseless hfVersion, hfTime)
  | _ => votes

/-- The votes that witnesses have recorded, and the witnesses on the schedule. -/
structure Ballot where
  votes : AccountName → Version × TimePointSec
  scheduled : List AccountName
  nodup : scheduled.Nodup

namespace Ballot

def record (name : AccountName) (b : Ballot) (e : HeaderExtension) : Ballot :=
  { b with votes := recordVote name b.votes e }

/-- The votes of the schedule. -/
def cast (b : Ballot) : List (Version × TimePointSec) := b.scheduled.map b.votes

/-- Enough witnesses of the schedule share a vote. -/
def Majority (b : Ballot) (vote : Version × TimePointSec) : Prop :=
  ∃ names : List AccountName, names.Nodup ∧ hardforkRequiredWitnesses ≤ names.length ∧
    ∀ name ∈ names, name ∈ b.scheduled ∧ b.votes name = vote

/-- No majority names a version that lies strictly between those of two hardforks. -/
def Clear (b : Ballot) : Prop :=
  ∀ version time, b.Majority (version, time) →
    ∀ k < numHardforks, ¬ (versionOf k < version ∧ version < versionOf (k + 1))

end Ballot

/-- What a block says about hardforks, and the witnesses that the schedule update of the block
selects, if it makes one. -/
structure HardforkBlock where
  timestamp : TimePointSec
  witness : AccountName
  extensions : List HeaderExtension := []
  selected : List AccountName := []
  nodup : selected.Nodup := by decide

/-- The part of the chain's state that decides about hardforks. -/
structure HardforkNode extends Ballot where
  headBlockNum : Nat := 0
  headBlockTime : TimePointSec := 0
  hardforks : HardforkState

namespace HardforkNode

/-- The state that `init_genesis` leaves, with the witnesses that it creates. -/
def genesis (genesisTime : TimePointSec) (witnesses : List AccountName) : HardforkNode where
  votes name := if name ∈ witnesses then (versionOf 0, 0) else (0, 0)
  scheduled := ["committee"]
  nodup := by decide
  hardforks :=
    { currentHardforkVersion := versionOf 0, processedHardforks := [genesisTime] }

/-- The votes as a block finds them after its header. -/
def recorded (n : HardforkNode) (b : HardforkBlock) : Ballot :=
  b.extensions.foldl (Ballot.record b.witness) n.toBallot

/-- The votes that the schedule update of a block counts; it makes one every 21 blocks. -/
def counted (n : HardforkNode) (b : HardforkBlock) : Option Ballot :=
  if (n.headBlockNum + 1) % maxWitnesses = 0 then some (n.recorded b) else none

/-- The first block sets the genesis time. -/
def opened (n : HardforkNode) (b : HardforkBlock) : HardforkState :=
  if n.headBlockNum = 0 then
    { n.hardforks with
      processedHardforks := n.hardforks.processedHardforks.set 0
        ((b.timestamp + 2 ^ 32 - blockInterval) % 2 ^ 32) }
  else n.hardforks

/-- The schedule after the schedule update. -/
def reseated (b : HardforkBlock) (ballot : Ballot) : Option Ballot → Ballot
  | some _ => { ballot with scheduled := b.selected, nodup := b.nodup }
  | none => ballot

/-- The property object after the schedule update. -/
def countedState (s : HardforkState) : Option Ballot → HardforkState
  | some ballot => s.countVotes ballot.cast
  | none => s

/-- What `_apply_block` does about hardforks, with the hardforks that are applied. -/
def applyBlock (n : HardforkNode) (b : HardforkBlock) : Result (HardforkNode × List Nat) := do
  fcAssert (n.headBlockTime < b.timestamp) "head_block_time() < next_block.timestamp"
  let ballot := n.recorded b
  let state := countedState (n.opened b) (n.counted b)
  let (state, applied) ← state.processHardforks b.timestamp
  return ({
    toBallot := reseated b ballot (n.counted b)
    headBlockNum := n.headBlockNum + 1
    headBlockTime := b.timestamp
    hardforks := state }, applied)

/-- The nodes that a run of blocks reaches from the genesis, with the votes that the last
schedule update counted.  Every schedule update counts votes that meet `C`. -/
inductive Reached (C : Ballot → Prop) : HardforkNode → Option Ballot → Prop
  | genesis (genesisTime : TimePointSec) (witnesses : List AccountName) :
    Reached C (genesis genesisTime witnesses) none
  | block {n n' : HardforkNode} {last : Option Ballot} {b : HardforkBlock} {applied : List Nat} :
    Reached C n last → (∀ ballot, n.counted b = some ballot → C ballot) →
    n.applyBlock b = .ok (n', applied) → Reached C n' ((n.counted b).or last)

end HardforkNode

/-! ## What the loop applies -/

namespace HardforkState

variable {s s' : HardforkState} {now : TimePointSec}

/-- The state of a node that applied hardforks in their order. -/
structure Sound (s : HardforkState) : Prop where
  size : s.processedHardforks.length = s.lastHardfork + 1
  known : s.lastHardfork ≤ numHardforks
  current : s.currentHardforkVersion = versionOf s.lastHardfork

theorem Sound.applyHardfork (h : s.Sound) {hardfork : Nat}
    (hknown : hardfork ≤ numHardforks) (hrun : s.applyHardfork hardfork = .ok s') :
    s'.Sound ∧ s' = { s with
      processedHardforks := s.processedHardforks ++ [timeOf hardfork]
      lastHardfork := s.lastHardfork + 1
      currentHardforkVersion := versionOf hardfork } := by
  simp only [HardforkState.applyHardfork, bind_eq_ok, fcAssert_eq_ok, exists_const, pure_eq_ok]
    at hrun
  obtain ⟨rfl, -, -, rfl⟩ := hrun
  constructor
  · constructor
    · show (s.processedHardforks ++ [_]).length = s.lastHardfork + 1 + 1
      rw [List.length_append, h.size]
      rfl
    · exact hknown
    · rfl
  · rfl

/-- What the loop does to a sound state. -/
structure Advance (now : TimePointSec) (s s' : HardforkState) (applied : List Nat) : Prop where
  sound : s'.Sound
  next : s'.nextHardfork = s.nextHardfork
  nextTime : s'.nextHardforkTime = s.nextHardforkTime
  last : s'.lastHardfork = s.lastHardfork + applied.length
  processed : s'.processedHardforks = s.processedHardforks ++ applied.map timeOf
  inOrder : applied = List.range' (s.lastHardfork + 1) applied.length
  due : ∀ k ∈ applied, ∃ j < numHardforks, k = j + 1 ∧ versionOf j < s.nextHardfork ∧
    s.nextHardforkTime ≤ now

theorem Advance.idle (h : s.Sound) : Advance now s s [] where
  sound := h
  next := rfl
  nextTime := rfl
  last := rfl
  processed := (List.append_nil _).symm
  inOrder := rfl
  due := by
    intro k hk
    cases hk

theorem Advance.applied {t : HardforkState} {applied : List Nat} (h : s.Sound)
    (hdue : s.Due now) (hroom : s.lastHardfork < numHardforks)
    (hrun : s.applyHardfork (s.lastHardfork + 1) = .ok t) (hrest : Advance now t s' applied) :
    Advance now s s' ((s.lastHardfork + 1) :: applied) := by
  obtain ⟨-, rfl⟩ := h.applyHardfork hroom hrun
  constructor
  · exact hrest.sound
  · exact hrest.next
  · exact hrest.nextTime
  · rw [hrest.last, List.length_cons]
    show s.lastHardfork + 1 + applied.length = s.lastHardfork + (applied.length + 1)
    omega
  · rw [hrest.processed, List.map_cons]
    exact List.append_assoc _ _ _
  · rw [List.length_cons, List.range'_succ]
    exact congrArg _ hrest.inOrder
  · intro k hk
    rcases List.mem_cons.1 hk with rfl | hk
    · exact ⟨s.lastHardfork, hroom, rfl, hdue⟩
    · exact hrest.due k hk

theorem applyDue_advance {known : Nat} {applied : List Nat} (h : s.Sound)
    (hknown : s.lastHardfork + known = numHardforks)
    (hrun : applyDue now known s = .ok (s', applied)) : Advance now s s' applied := by
  induction known generalizing s applied with
  | zero =>
    simp only [applyDue, bind_eq_ok, pure_eq_ok, Prod.mk.injEq] at hrun
    obtain ⟨-, -, rfl, rfl⟩ := hrun
    exact Advance.idle h
  | succ known ih =>
    rw [applyDue] at hrun
    split at hrun
    · rename_i hdue
      simp only [bind_eq_ok, pure_eq_ok, Prod.mk.injEq] at hrun
      obtain ⟨t, ht, ⟨u, rest⟩, hrest, rfl, rfl⟩ := hrun
      have hroom : s.lastHardfork < numHardforks := by omega
      obtain ⟨hsound, heq⟩ := h.applyHardfork hroom ht
      have hlast : t.lastHardfork + known = numHardforks := by
        rw [heq]
        show s.lastHardfork + 1 + known = numHardforks
        omega
      exact Advance.applied h hdue hroom ht (ih hsound hlast hrest)
    · simp only [pure_eq_ok, Prod.mk.injEq] at hrun
      obtain ⟨rfl, rfl⟩ := hrun
      exact Advance.idle h

theorem processHardforks_advance {applied : List Nat} (h : s.Sound)
    (hrun : s.processHardforks now = .ok (s', applied)) : Advance now s s' applied := by
  apply applyDue_advance h _ hrun
  have hknown := h.known
  omega

theorem countVotes_sound (h : s.Sound) (votes : List (Version × TimePointSec)) :
    (s.countVotes votes).Sound := by
  unfold countVotes
  split
  · exact ⟨h.size, h.known, h.current⟩
  · exact ⟨h.size, h.known, h.current⟩

@[simp] theorem countVotes_last (votes : List (Version × TimePointSec)) :
    (s.countVotes votes).lastHardfork = s.lastHardfork := by
  unfold countVotes
  split
  · rfl
  · rfl

@[simp] theorem countVotes_processed (votes : List (Version × TimePointSec)) :
    (s.countVotes votes).processedHardforks = s.processedHardforks := by
  unfold countVotes
  split
  · rfl
  · rfl

theorem winner_count {votes : List (Version × TimePointSec)} {v : Version × TimePointSec}
    (h : winner votes = some v) : hardforkRequiredWitnesses ≤ votes.count v := by
  have hfound := List.find?_some h
  exact of_decide_eq_true hfound

end HardforkState

/-! ## What a majority is -/

namespace Ballot

theorem majority_of_count {b : Ballot} {v : Version × TimePointSec}
    (h : hardforkRequiredWitnesses ≤ b.cast.count v) : b.Majority v := by
  refine ⟨b.scheduled.filter fun name => b.votes name == v, b.nodup.filter _, ?_, ?_⟩
  · rw [← List.countP_eq_length_filter]
    rw [cast, List.count, List.countP_map] at h
    exact h
  · intro name hname
    obtain ⟨hmem, hvote⟩ := List.mem_filter.1 hname
    exact ⟨hmem, eq_of_beq hvote⟩

/-- A vote that all share is the only one that can have a majority. -/
theorem Majority.eq_of_unanimous {b : Ballot} {v w : Version × TimePointSec}
    (h : b.Majority v) (hall : ∀ name ∈ b.scheduled, b.votes name = w) : v = w := by
  obtain ⟨names, -, hlen, hnames⟩ := h
  have hpos : 0 < names.length := Nat.lt_of_lt_of_le (by decide) hlen
  obtain ⟨name, hname⟩ := List.exists_mem_of_length_pos hpos
  obtain ⟨hmem, hvote⟩ := hnames name hname
  exact hvote.symm.trans (hall name hmem)

/-- All votes are for hardforks, or for none. -/
def Plain (b : Ballot) : Bool := b.cast.all fun v => v.1 ∈ 0 :: hardforkVersions

theorem Plain.clear {b : Ballot} (h : b.Plain) : b.Clear := by
  intro version time hmajority k hk hbetween
  obtain ⟨names, -, hlen, hnames⟩ := hmajority
  have hpos : 0 < names.length := Nat.lt_of_lt_of_le (by decide) hlen
  obtain ⟨name, hname⟩ := List.exists_mem_of_length_pos hpos
  obtain ⟨hmem, hvote⟩ := hnames name hname
  have hknown := List.all_eq_true.1 h (b.votes name) (List.mem_map_of_mem hmem)
  rw [hvote] at hknown
  have hnone : ∀ version ∈ 0 :: hardforkVersions, ∀ k < numHardforks,
      ¬ (versionOf k < version ∧ version < versionOf (k + 1)) := by decide
  exact hnone version (of_decide_eq_true hknown) k hk hbetween

/-- In a clear vote a hardfork that follows one before the version is not after it. -/
theorem Clear.reaches {b : Ballot} (h : b.Clear) {version : Version} {time : TimePointSec}
    (hmajority : b.Majority (version, time)) {k : Nat} (hk : k < numHardforks)
    (hbefore : versionOf k < version) : versionOf (k + 1) ≤ version := by
  have hclear := h version time hmajority k hk
  by_contra hlt
  exact hclear ⟨hbefore, Nat.lt_of_not_le hlt⟩

end Ballot

/-! ## Runs -/

namespace HardforkNode

variable {C : Ballot → Prop} {n n' : HardforkNode} {last : Option Ballot} {b : HardforkBlock}
  {applied : List Nat}

/-- What a reached node keeps: a version after that of the last hardfork has a majority in the
last vote. -/
structure Sound (n : HardforkNode) (last : Option Ballot) : Prop where
  state : n.hardforks.Sound
  pending : versionOf n.hardforks.lastHardfork < n.hardforks.nextHardfork →
    ∃ ballot, last = some ballot ∧
      ballot.Majority (n.hardforks.nextHardfork, n.hardforks.nextHardforkTime)

/-- The state before `process_hardforks`. -/
def polled (n : HardforkNode) (b : HardforkBlock) : HardforkState :=
  countedState (n.opened b) (n.counted b)

theorem opened_sound (h : n.hardforks.Sound) (b : HardforkBlock) : (n.opened b).Sound := by
  unfold opened
  split
  · constructor
    · show (n.hardforks.processedHardforks.set 0 _).length = _
      rw [List.length_set]
      exact h.size
    · exact h.known
    · exact h.current
  · exact h

theorem opened_keeps (n : HardforkNode) (b : HardforkBlock) :
    (n.opened b).toHardforkPropertyObject = n.hardforks.toHardforkPropertyObject ∧
      (n.opened b).lastHardfork = n.hardforks.lastHardfork ∧
      (n.opened b).processedHardforks.tail = n.hardforks.processedHardforks.tail := by
  unfold opened
  split
  · refine ⟨rfl, rfl, ?_⟩
    show (n.hardforks.processedHardforks.set 0 _).tail = _
    cases n.hardforks.processedHardforks with
    | nil => rw [List.set_nil]
    | cons t ts => rw [List.set_cons_zero, List.tail_cons, List.tail_cons]
  · exact ⟨rfl, rfl, rfl⟩

theorem polled_sound (h : n.Sound last) (b : HardforkBlock) : (n.polled b).Sound := by
  unfold polled
  cases n.counted b with
  | none => exact opened_sound h.state b
  | some ballot => exact HardforkState.countVotes_sound (opened_sound h.state b) _

theorem polled_keeps (n : HardforkNode) (b : HardforkBlock) :
    (n.polled b).lastHardfork = n.hardforks.lastHardfork ∧
      (n.polled b).processedHardforks.tail = n.hardforks.processedHardforks.tail := by
  obtain ⟨-, hlast, htail⟩ := n.opened_keeps b
  unfold polled
  cases n.counted b with
  | none => exact ⟨hlast, htail⟩
  | some ballot =>
    rw [countedState, HardforkState.countVotes_last, HardforkState.countVotes_processed]
    exact ⟨hlast, htail⟩

/-- What is pending after the schedule update of a block has a majority. -/
theorem polled_pending (h : n.Sound last)
    (hpending : versionOf (n.polled b).lastHardfork < (n.polled b).nextHardfork) :
    ∃ ballot, (n.counted b).or last = some ballot ∧
      ballot.Majority ((n.polled b).nextHardfork, (n.polled b).nextHardforkTime) := by
  obtain ⟨hproperty, hlast, -⟩ := n.opened_keeps b
  unfold polled at hpending ⊢
  cases hcounted : n.counted b with
  | none =>
    rw [hcounted] at hpending
    simp only [countedState, hproperty, hlast] at hpending ⊢
    exact h.pending hpending
  | some ballot =>
    rw [hcounted] at hpending
    simp only [countedState, HardforkState.countVotes] at hpending ⊢
    split at hpending
    · rename_i version time hwinner
      exact ⟨ballot, rfl, Ballot.majority_of_count (HardforkState.winner_count hwinner)⟩
    · -- without a majority the next hardfork is the current one
      have hsound := (opened_sound h.state b).current
      exact absurd hpending (Nat.lt_irrefl _ ∘ fun hlt => hsound ▸ hlt)

theorem applyBlock_parts (h : n.applyBlock b = .ok (n', applied)) :
    (n.polled b).processHardforks b.timestamp = .ok (n'.hardforks, applied) := by
  simp only [applyBlock, bind_eq_ok, fcAssert_eq_ok, exists_const, pure_eq_ok,
    Prod.mk.injEq] at h
  obtain ⟨-, ⟨state, applied'⟩, hrun, rfl, rfl⟩ := h
  exact hrun

theorem Sound.applyBlock (h : n.Sound last) (hrun : n.applyBlock b = .ok (n', applied)) :
    n'.Sound ((n.counted b).or last) := by
  have hadvance := HardforkState.processHardforks_advance (polled_sound h b)
    (applyBlock_parts hrun)
  constructor
  · exact hadvance.sound
  · intro hpending
    rw [hadvance.next, hadvance.nextTime] at *
    apply polled_pending h
    apply Nat.lt_of_le_of_lt _ hpending
    apply versionOf_mono _ hadvance.sound.known
    rw [hadvance.last]
    exact Nat.le_add_right _ _

theorem genesis_sound (genesisTime : TimePointSec) (witnesses : List AccountName) :
    (genesis genesisTime witnesses).Sound none := by
  constructor
  · exact ⟨rfl, Nat.zero_le _, rfl⟩
  · intro hpending
    exact absurd hpending (Nat.not_lt_zero _)

theorem Reached.sound (h : Reached C n last) : n.Sound last := by
  induction h with
  | genesis genesisTime witnesses => exact genesis_sound genesisTime witnesses
  | block _ _ hrun ih => exact ih.applyBlock hrun

/-- What a block may do about hardforks when `last` is the last vote: it applies them in their
order, each with a majority for its version or a later one whose time has come. -/
structure Activates (last : Option Ballot) (now : TimePointSec) (n n' : HardforkNode)
    (applied : List Nat) : Prop where
  size : n'.hardforks.processedHardforks.length = n'.hardforks.lastHardfork + 1
  inOrder : applied = List.range' (n.hardforks.lastHardfork + 1) applied.length
  lastHardfork : n'.hardforks.lastHardfork = n.hardforks.lastHardfork + applied.length
  processed : n'.hardforks.processedHardforks.tail =
    n.hardforks.processedHardforks.tail ++ applied.map timeOf
  voted : ∀ k ∈ applied, ∃ ballot version time, last = some ballot ∧
    ballot.Majority (version, time) ∧ time ≤ now ∧ versionOf k ≤ version
  idle : (∀ ballot, last = some ballot → ∀ vote, ¬ ballot.Majority vote) → applied = []

theorem Reached.clear (h : Reached C n last) {ballot : Ballot} (hlast : last = some ballot) :
    C ballot := by
  induction h with
  | genesis => cases hlast
  | @block n n' last b applied _ hmeets _ ih =>
    cases hcounted : n.counted b with
    | none =>
      rw [hcounted, Option.none_or] at hlast
      exact ih hlast
    | some ballot' =>
      rw [hcounted, Option.some_or] at hlast
      cases hlast
      exact hmeets ballot hcounted

/-- A hardfork that a block applies follows one before a version with a majority. -/
theorem applied_voted (h : n.Sound last) (hrun : n.applyBlock b = .ok (n', applied)) {k : Nat}
    (hk : k ∈ applied) : ∃ j < numHardforks, k = j + 1 ∧ ∃ ballot version time,
      (n.counted b).or last = some ballot ∧ ballot.Majority (version, time) ∧
        time ≤ b.timestamp ∧ versionOf j < version := by
  have hadvance := HardforkState.processHardforks_advance (polled_sound h b)
    (applyBlock_parts hrun)
  obtain ⟨j, hj, rfl, hbefore, htime⟩ := hadvance.due k hk
  have hpending : versionOf (n.polled b).lastHardfork < (n.polled b).nextHardfork := by
    apply Nat.lt_of_le_of_lt _ hbefore
    apply versionOf_mono _ (Nat.le_of_lt hj)
    have hle : (n.polled b).lastHardfork + 1 ≤ j + 1 := by
      rw [hadvance.inOrder] at hk
      exact (List.mem_range'_1.1 hk).1
    exact Nat.le_of_succ_le_succ hle
  obtain ⟨ballot, hlast, hmajority⟩ := polled_pending h hpending
  exact ⟨j, hj, rfl, ballot, _, _, hlast, hmajority, htime, hbefore⟩

/-- **Hardforks**: in every run whose majorities name no version between two hardforks, as many
hardforks are processed as the last one says, and each block applies hardforks in their order
and as the last schedule update found them voted for. -/
theorem hardforks_follow_votes (h : Reached Ballot.Clear n last) :
    n.hardforks.processedHardforks.length = n.hardforks.lastHardfork + 1 ∧
    ∀ b n' applied, (∀ ballot, n.counted b = some ballot → ballot.Clear) →
      n.applyBlock b = .ok (n', applied) →
      Activates ((n.counted b).or last) b.timestamp n n' applied := by
  refine ⟨h.sound.state.size, ?_⟩
  intro b n' applied hclear hrun
  have hadvance := HardforkState.processHardforks_advance (polled_sound h.sound b)
    (applyBlock_parts hrun)
  have hreached : Reached Ballot.Clear n' ((n.counted b).or last) := Reached.block h hclear hrun
  obtain ⟨hlast, htail⟩ := n.polled_keeps b
  constructor
  · exact hadvance.sound.size
  · rw [← hlast]
    exact hadvance.inOrder
  · rw [← hlast]
    exact hadvance.last
  · have hpos : (n.polled b).processedHardforks ≠ [] := by
      intro hnil
      have hsize := (polled_sound h.sound b).size
      rw [hnil] at hsize
      cases hsize
    rw [hadvance.processed, List.tail_append_of_ne_nil hpos, htail]
  · intro k hk
    obtain ⟨j, hj, rfl, ballot, version, time, heq, hmajority, htime, hbefore⟩ :=
      applied_voted h.sound hrun hk
    exact ⟨ballot, version, time, heq, hmajority, htime,
      (hreached.clear heq).reaches hmajority hj hbefore⟩
  · intro hnone
    by_contra hne
    obtain ⟨k, hk⟩ := List.exists_mem_of_ne_nil applied hne
    obtain ⟨j, -, -, ballot, version, time, heq, hmajority, -⟩ := applied_voted h.sound hrun hk
    exact hnone ballot heq _ hmajority

/-- A run of blocks, with the votes that its schedule updates counted, the last ones first. -/
def applyBlocks (bs : List HardforkBlock) (p : HardforkNode × List Ballot) :
    Result (HardforkNode × List Ballot) :=
  bs.foldlM (fun p b => do
    let (n, _) ← p.1.applyBlock b
    return (n, (p.1.counted b).toList ++ p.2)) p

theorem Reached.applyBlocks {bs : List HardforkBlock} {ballots : List Ballot}
    (h : Reached C n none) (hrun : applyBlocks bs (n, []) = .ok (n', ballots))
    (hmeets : ∀ ballot ∈ ballots, C ballot) : Reached C n' ballots.head? := by
  refine foldlM_invariant (fun p : HardforkNode × List Ballot =>
    (∀ ballot ∈ p.2, C ballot) → Reached C p.1 p.2.head?) _ bs ?_ (n, []) (n', ballots)
    (fun _ => h) hrun hmeets
  intro b _ p p' hp hstep hall
  simp only [bind_eq_ok, pure_eq_ok] at hstep
  obtain ⟨⟨m, applied⟩, hm, rfl⟩ := hstep
  have hreached := hp fun ballot hballot => hall ballot (List.mem_append_right _ hballot)
  have hcounted : ∀ ballot, p.1.counted b = some ballot → C ballot := by
    intro ballot hballot
    apply hall ballot
    rw [hballot]
    exact List.mem_append_left _ (List.mem_singleton.2 rfl)
  have hnext := Reached.block hreached hcounted hm
  show Reached C m ((p.1.counted b).toList ++ p.2).head?
  rw [List.head?_append, Option.head?_toList]
  exact hnext

/-! ## A vote between two hardforks -/

def seventeen : List AccountName :=
  ["w0", "w1", "w2", "w3", "w4", "w5", "w6", "w7", "w8", "w9", "w10", "w11", "w12", "w13",
    "w14", "w15", "w16"]

/-- The block of number `i`: the committee makes the first 21, which are followed by a round of
17 witnesses that vote. -/
def roundBlock (vote : HeaderExtension) (i : Nat) : HardforkBlock where
  timestamp := 1600000000 + 3 * i
  witness := if i ≤ 21 then "committee" else seventeen.getD (i % 17) ""
  extensions := if 21 < i ∧ i ≤ 38 then [.version (hardforkVersion 3 0), vote] else []
  selected := seventeen

/-- The run up to the second schedule update. -/
def twoRounds (vote : HeaderExtension) : Result (HardforkNode × List Ballot) :=
  applyBlocks ((List.range' 1 41).map (roundBlock vote)) (genesis 1600000000 ["committee"], [])

/-- All of 17 witnesses vote for version 1.2: the block of the schedule update applies the
first two hardforks. -/
theorem hardforks_follow_votes_twice : ∃ n last n', Reached Ballot.Clear n last ∧
    n.hardforks.processedHardforks.length = 1 ∧
    n.applyBlock (roundBlock (.hardforkVersionVote (hardforkVersion 1 2) 1600000000) 42) =
      .ok (n', [1, 2]) ∧
    n'.hardforks.processedHardforks.length = 3 ∧
    ∃ last', Activates last' 1600000126 n n' [1, 2] := by
  generalize hvote : HeaderExtension.hardforkVersionVote (hardforkVersion 1 2) 1600000000 = vote
  obtain ⟨⟨n, ballots⟩, hrun, hcheck⟩ := returns_eq_true
    (show returns (twoRounds vote) (fun p =>
      returns (p.1.applyBlock (roundBlock vote 42)) (fun q => q.2 = [1, 2]) &&
        (p.1.hardforks.lastHardfork == 0 &&
          ((p.1.counted (roundBlock vote 42)).toList ++ p.2).all Ballot.Plain)) = true by
      rw [← hvote]
      decide +kernel)
  rw [Bool.and_eq_true, Bool.and_eq_true, List.all_eq_true] at hcheck
  obtain ⟨hblock, hfirst, hplain⟩ := hcheck
  have hclear : ∀ ballot ∈ (n.counted (roundBlock vote 42)).toList ++ ballots, ballot.Clear := by
    intro ballot hballot
    exact Ballot.Plain.clear (hplain ballot hballot)
  obtain ⟨⟨n', applied⟩, hblock, happlied⟩ := returns_eq_true hblock
  cases of_decide_eq_true happlied
  have hreached := Reached.applyBlocks (Reached.genesis 1600000000 ["committee"]) hrun
    fun ballot hballot => hclear ballot (List.mem_append_right _ hballot)
  have hmain := hardforks_follow_votes hreached
  have hactivates := hmain.2 _ n' [1, 2] (fun ballot hballot =>
    hclear ballot (List.mem_append_left _ (hballot ▸ List.mem_singleton.2 rfl))) hblock
  have hlast : n.hardforks.lastHardfork = 0 := eq_of_beq hfirst
  refine ⟨n, _, n', hreached, ?_, hblock, ?_, _, hactivates⟩
  · rw [hmain.1, hlast]
  · rw [hactivates.size, hactivates.lastHardfork, hlast]
    rfl

/-- All of 17 witnesses vote for version 1.4, for which there is no hardfork: the fourth
hardfork, with version 2.0, is applied. -/
theorem hardfork_without_votes : ∃ n last b n' applied, Reached (fun _ => True) n last ∧
    n.applyBlock b = .ok (n', applied) ∧ 4 ∈ applied ∧
    ¬ ∃ ballot version time, (n.counted b).or last = some ballot ∧
      ballot.Majority (version, time) ∧ time ≤ b.timestamp ∧ versionOf 4 ≤ version := by
  generalize hvote : HeaderExtension.hardforkVersionVote (hardforkVersion 1 4) 1600000000 = vote
  obtain ⟨⟨n, ballots⟩, hrun, hcheck⟩ := returns_eq_true
    (show returns (twoRounds vote) (fun p =>
      returns (p.1.applyBlock (roundBlock vote 42)) (fun q => 4 ∈ q.2) &&
        ((p.1.counted (roundBlock vote 42)).or p.2.head?).any fun ballot =>
          ballot.scheduled.all fun name =>
            ballot.votes name == (hardforkVersion 1 4, 1600000000)) = true by
      rw [← hvote]
      decide +kernel)
  rw [Bool.and_eq_true] at hcheck
  obtain ⟨⟨n', applied⟩, hblock, happlied⟩ := returns_eq_true hcheck.1
  refine ⟨n, ballots.head?, roundBlock vote 42, n', applied,
    Reached.applyBlocks (Reached.genesis 1600000000 ["committee"]) hrun (fun _ _ => trivial),
    hblock, of_decide_eq_true happlied, ?_⟩
  rintro ⟨ballot, version, time, heq, hmajority, -, hversion⟩
  rw [heq, Option.any_some, List.all_eq_true] at hcheck
  have hshared := hmajority.eq_of_unanimous fun name hname => eq_of_beq (hcheck.2 name hname)
  rw [(Prod.mk.inj hshared).1] at hversion
  exact absurd hversion (by decide)

end HardforkNode

/-! ## The database -/

namespace Db

variable {db db' db'' : Db}

/-- The vote of a witness, with its name. -/
def ballotPaper (w : WitnessObject) : AccountName × Version × TimePointSec :=
  (w.owner, w.hardforkVersionVote, w.hardforkTimeVote)

/-- The votes that the witnesses of the database have recorded. -/
def hardforkVotes (db : Db) (name : AccountName) : Version × TimePointSec :=
  ((db.findWitness name).map fun w => (ballotPaper w).2).getD (0, 0)

/-- A step that neither records nor counts votes. -/
structure SamePoll (db db' : Db) : Prop where
  property : db'.hardforkProperty = db.hardforkProperty
  names : db'.scheduledNames = db.scheduledNames
  papers : db'.witnesses.image ballotPaper = db.witnesses.image ballotPaper

theorem SamePoll.refl (db : Db) : SamePoll db db := ⟨rfl, rfl, rfl⟩

theorem SamePoll.trans (h : SamePoll db db') (h' : SamePoll db' db'') : SamePoll db db'' :=
  ⟨h'.property.trans h.property, h'.names.trans h.names, h'.papers.trans h.papers⟩

theorem SamePoll.votes (h : SamePoll db db') : db'.hardforkVotes = db.hardforkVotes := by
  funext name
  have heq := get_map_of_image Prod.fst (fun _ => rfl) h.papers name
  have hvote := congrArg (fun o => (o.map Prod.snd).getD (0, 0)) heq
  simp only [Option.map_map] at hvote
  exact hvote

theorem modifyWitness_samePoll (db : Db) (name : AccountName) {f : WitnessObject → WitnessObject}
    (hf : ∀ w, ballotPaper (f w) = ballotPaper w) : SamePoll db (db.modifyWitness name f) :=
  ⟨rfl, rfl, modifyWitness_image ballotPaper db name hf⟩

theorem foldl_samePoll {β : Type} {f : Db → β → Db} (hf : ∀ db x, SamePoll db (f db x))
    (l : List β) (db : Db) : SamePoll db (l.foldl f db) := by
  induction l generalizing db with
  | nil => exact SamePoll.refl db
  | cons x l ih => exact (hf db x).trans (ih (f db x))

theorem expirePenalty_samePoll {p : WitnessPenaltyExpireObject}
    (h : db.expirePenalty p = .ok db') : SamePoll db db' := by
  simp only [expirePenalty, bind_eq_ok, pure_eq_ok] at h
  obtain ⟨w, -, counted, -, rfl⟩ := h
  exact ⟨rfl, rfl, modifyWitness_image ballotPaper db p.witness fun _ => rfl⟩

theorem expirePenalties_samePoll (h : db.expirePenalties = .ok db') : SamePoll db db' :=
  foldlM_invariant (SamePoll db) _ _
    (fun _ _ _ _ hs hstep => hs.trans (expirePenalty_samePoll hstep)) db db' (SamePoll.refl db) h

theorem setVirtualTime_samePoll (now : Nat) (db : Db) (w : WitnessObject × Nat) :
    SamePoll db (setVirtualTime now db w) :=
  modifyWitness_samePoll db w.1.owner fun _ => rfl

theorem setSchedule_samePoll (kind : WitnessScheduleType) (db : Db) (w : WitnessObject) :
    SamePoll db (setSchedule kind db w) :=
  modifyWitness_samePoll db w.owner fun _ => rfl

theorem updateVirtualSchedule_samePoll {now now' : Nat} {passed : List WitnessObject}
    (h : db.updateVirtualSchedule now passed = .ok (now', db')) : SamePoll db db' := by
  have hpapers := updateVirtualSchedule_image ballotPaper (fun _ _ _ _ => rfl) h
  simp only [updateVirtualSchedule, bind_eq_ok] at h
  obtain ⟨times, -, h⟩ := h
  split at h
  · simp only [resetVirtualScheduleTime, bind_eq_ok, pure_eq_ok, Prod.mk.injEq] at h
    obtain ⟨_, ⟨rows, -, rfl⟩, -, rfl⟩ := h
    exact ⟨rfl, rfl, hpapers⟩
  · simp only [pure_eq_ok, Prod.mk.injEq] at h
    obtain ⟨-, rfl⟩ := h
    exact foldl_samePoll (setVirtualTime_samePoll _) _ db

/-- The witnesses of a list of names show the votes of these names. -/
theorem mapM_getWitness_votes {names : List AccountName} {scheduled : List WitnessObject}
    (h : names.mapM db.getWitness = .ok scheduled) :
    scheduled.map (fun w => (w.hardforkVersionVote, w.hardforkTimeVote)) =
      names.map db.hardforkVotes := by
  induction names generalizing scheduled with
  | nil =>
    cases h
    rfl
  | cons name names ih =>
    rw [List.mapM_cons] at h
    simp only [bind_eq_ok, pure_eq_ok] at h
    obtain ⟨w, hw, rest, hrest, rfl⟩ := h
    have hfound := (getOrThrow_eq_ok _ _ _).1 hw
    rw [List.map_cons, List.map_cons, ih hrest, hardforkVotes, hfound]
    rfl

/-- A header records votes as on a ballot. -/
theorem processHeaderExtension_votes {name : AccountName} {e : HeaderExtension}
    (h : db.processHeaderExtension name e = .ok db') :
    db'.hardforkVotes = recordVote name db.hardforkVotes e ∧
      db'.hardforkProperty = db.hardforkProperty ∧ db'.scheduledNames = db.scheduledNames := by
  cases e with
  | void =>
    cases h
    exact ⟨rfl, rfl, rfl⟩
  | version v =>
    simp only [processHeaderExtension, bind_eq_ok, pure_eq_ok] at h
    obtain ⟨_, -, rfl⟩ := h
    have hsame := modifyWitness_samePoll db name
      (f := fun w => { w with runningVersion := v }) fun _ => rfl
    exact ⟨hsame.votes, rfl, rfl⟩
  | hardforkVersionVote hfVersion hfTime =>
    simp only [processHeaderExtension, bind_eq_ok, pure_eq_ok] at h
    obtain ⟨w, hw, rfl⟩ := h
    have hfound := (getOrThrow_eq_ok _ _ _).1 hw
    refine ⟨?_, rfl, rfl⟩
    funext other
    unfold hardforkVotes findWitness
    by_cases hother : other = name
    · subst hother
      have hget := Table.get_update_same db.witnesses (·.owner) other (fun w =>
        { w with hardforkVersionVote := releaseless hfVersion, hardforkTimeVote := hfTime })
        fun _ => rfl
      rw [recordVote, Function.update_self]
      rw [findWitness] at hfound
      rw [hfound] at hget
      exact congrArg (fun o => (o.map fun w => (ballotPaper w).2).getD (0, 0)) hget
    · have hget := Table.get_update_ne db.witnesses (·.owner) (fun w =>
        { w with hardforkVersionVote := releaseless hfVersion, hardforkTimeVote := hfTime })
        hother fun _ => rfl
      rw [recordVote, Function.update_of_ne hother]
      exact congrArg (fun o => (o.map fun w => (ballotPaper w).2).getD (0, 0)) hget

/-- A schedule update counts the votes of the schedule that it replaces. -/
theorem scheduleWitnesses_votes (h : db.scheduleWitnesses = .ok db')
    (processed : List TimePointSec) (last : Nat) :
    db'.hardforkVotes = db.hardforkVotes ∧
      db'.hardforkProperty = (HardforkState.countVotes
        { db.hardforkProperty with processedHardforks := processed, lastHardfork := last }
        (db.scheduledNames.map db.hardforkVotes)).toHardforkPropertyObject := by
  simp only [scheduleWitnesses, bind_eq_ok] at h
  obtain ⟨db₁, hpenalties, ⟨now, db₃⟩, hvirtual, h⟩ := h
  simp only at h
  obtain ⟨_, -, scheduled, hscheduled, hmedian⟩ := h
  have hseats (kind : WitnessScheduleType) (l : List WitnessObject) (db : Db) :
      SamePoll db (l.foldl (setSchedule kind) db) :=
    foldl_samePoll (setSchedule_samePoll kind) l db
  have hsame : SamePoll db db₃ := ((((expirePenalties_samePoll hpenalties).trans
    (hseats _ _ _)).trans (hseats _ _ _)).trans (updateVirtualSchedule_samePoll hvirtual))
  have hvotes := mapM_getWitness_votes hscheduled
  rw [hsame.names, hsame.votes] at hvotes
  simp only [updateMedianWitnessProps, bind_eq_ok, pure_eq_ok] at hmedian
  obtain ⟨_, -, rfl⟩ := hmedian
  constructor
  · rw [← hsame.votes]
    funext name
    show ((((db₃.countHardforkVotes scheduled).witnesses.get _ name).map _).getD (0, 0)) = _
    rw [countHardforkVotes_witnesses]
    rfl
  · show (db₃.countHardforkVotes scheduled).hardforkProperty = _
    rw [countHardforkVotes, HardforkState.countVotes, HardforkState.winner, hvotes]
    rw [← hsame.property]
    generalize (orderBy voteBefore (db.scheduledNames.map db.hardforkVotes)).find? _ = found
    cases found with
    | none => rfl
    | some v => rfl

/-- Where all hardforks are applied, `process_hardforks` has none to apply. -/
theorem processHardforks_applied
    (hcurrent : db.hardforkProperty.currentHardforkVersion = versionOf numHardforks)
    (processed : List TimePointSec) :
    db.processHardforks = .ok db' ↔ db' = db ∧ HardforkState.processHardforks
      { db.hardforkProperty with processedHardforks := processed, lastHardfork := numHardforks }
      db.headBlockTime = .ok ({ db.hardforkProperty with
        processedHardforks := processed, lastHardfork := numHardforks }, []) := by
  rw [HardforkState.processHardforks, Nat.sub_self, HardforkState.applyDue]
  simp only [processHardforks, bind_eq_ok, require_eq_ok, exists_const, pure_eq_ok, and_true,
    HardforkState.Due, hcurrent]
  constructor
  · rintro ⟨hdue, rfl⟩
    exact ⟨rfl, (), (require_eq_ok _ _ _).2 hdue⟩
  · rintro ⟨rfl, u, hdue⟩
    exact ⟨(require_eq_ok _ _ _).1 hdue, rfl⟩

end Db

end VizCore.Chain
