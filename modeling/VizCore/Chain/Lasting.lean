import VizCore.Chain.Reopen

/-!
# What lasts in a run of a node

A node is called, receives post-validations, is closed and is opened again, in any order.

* `Act.run_standing`: it stays at the end of a chain, and its log grows;
* `log_kept`: the log is never rewritten, follows the chain and holds what is irreversible;
* `lookups_right`: what the node answers to a block number is what its chain holds there;
* `irreversible_final`: the answer for an irreversible block never changes.
-/

namespace VizCore.Chain

open VizCore.Lib VizCore.Protocol

/-- What happens to a node: a call with the clock of its time, a post-validation, and the end of
the process with a new start. -/
inductive Act
  | call (clock : Nat → TimePointSec) (a : Call)
  | postValidation (id : BlockId) (name : AccountName)
  | reopen

namespace Act

/-- The node after it. -/
def run (env : Env) (fuel : Nat) (n : Node) : Act → Node
  | .call clock a => a.run { env with clock := clock } fuel n
  | .postValidation id name =>
    { n with toStore := Node.leftStore (n.applyBlockPostValidation env id name) }
  | .reopen =>
    match n.toStore.reopen env with
    | .ok s => { toStore := s }
    | .error _ => n

/-- Blocks are pushed where they are placed and do not fail in the middle of a switch, and neither a
post-validation nor a new start throws. -/
def Smooth (env : Env) (fuel : Nat) (n : Node) : Act → Prop
  | .call _ (.pushTransaction _ _) => True
  | .call clock (.pushBlock skip budget b) =>
    Node.Sound { env with clock := clock } fuel skip budget n b
  | .call clock (.generateBlock skip budget headerSize time witnessOwner key) =>
    ∀ m b, n.assembleBlock { env with clock := clock } fuel skip headerSize time witnessOwner key =
      .ok (m, b) → Node.Sound { env with clock := clock } fuel skip budget m b
  | .postValidation id name => ∃ s, n.applyBlockPostValidation env id name = .ok s
  | .reopen => ∃ s, n.toStore.reopen env = .ok s

variable {env : Env} {fuel : Nat} {n : Node} {a : Act}

instance : Decidable (a.Smooth env fuel n) :=
  match a with
  | .call _ (.pushTransaction _ _) => .isTrue trivial
  | .call _ (.pushBlock _ _ _) => inferInstanceAs (Decidable (Node.Sound _ _ _ _ _ _))
  | .call clock (.generateBlock skip budget headerSize time witnessOwner key) =>
    decidable_of_iff (∀ r, n.assembleBlock { env with clock := clock } fuel skip headerSize time
        witnessOwner key = .ok r → Node.Sound { env with clock := clock } fuel skip budget r.1 r.2)
      ⟨fun h m b => h (m, b), fun h r => h r.1 r.2⟩
  | .postValidation id name =>
    inferInstanceAs (Decidable (∃ s, n.applyBlockPostValidation env id name = .ok s))
  | .reopen => inferInstanceAs (Decidable (∃ s, n.toStore.reopen env = .ok s))

/-- The node is at the end of some chain. -/
def Standing (env : Env) (n : Node) : Prop := ∃ c base, Node.Seated env c base n

/-- **One step**: the node is at the end of a chain again, and the log is longer or the same. -/
theorem run_standing (h : Standing env n) (ha : a.Smooth env fuel n) :
    Standing env (a.run env fuel n) ∧ n.blockLog <+: (a.run env fuel n).blockLog := by
  obtain ⟨c, base, hseated⟩ := h
  have hlog : n.blockLog = base.blockLog := hseated.store.1
  have hnext : ∀ {c' base'} {m : Node}, Node.Seated env c' base' m →
      base.blockLog <+: base'.blockLog → Standing env m ∧ n.blockLog <+: m.blockLog := by
    intro c' base' m hm hgrown
    refine ⟨⟨c', base', hm⟩, ?_⟩
    rw [hlog, hm.store.1]
    exact hgrown
  cases a with
  | call clock a =>
    cases a with
    | pushTransaction skip trx =>
      have hpush := @Node.Seated.pushTransaction env { env with clock := clock } fuel skip c n base
        hseated trx
      show Standing env (Node.left ((fun m => (m, ())) <$>
        n.pushTransaction { env with clock := clock } fuel skip trx)) ∧ _ <+: (Node.left _).blockLog
      cases hcase : n.pushTransaction { env with clock := clock } fuel skip trx with
      | ok m => exact hnext (hpush.of_ok hcase) (List.prefix_refl _)
      | error e => exact hnext (hpush.of_error hcase) (List.prefix_refl _)
    | pushBlock skip budget b =>
      obtain ⟨c', base', hend, hgrown, -⟩ := hseated.pushBlock ha
      exact hnext hend hgrown
    | generateBlock skip budget headerSize time witnessOwner key =>
      obtain ⟨c', base', hend, hgrown, -⟩ := hseated.generateBlock ha
      exact hnext hend hgrown
  | postValidation id name =>
    obtain ⟨s, hs⟩ := ha
    obtain ⟨base', hend, hgrown⟩ := hseated.applyBlockPostValidation hs
    have hrun : run env fuel n (.postValidation id name) = { n with toStore := s } := by
      simp only [run, hs, Node.leftStore]
    rw [hrun]
    exact hnext hend hgrown
  | reopen =>
    obtain ⟨s, hs⟩ := ha
    obtain ⟨hend, hsame⟩ := hseated.reopen hs
    have hrun : run env fuel n .reopen = { toStore := s } := by
      simp only [run, hs]
    rw [hrun]
    refine hnext hend.seated ?_
    show base.blockLog <+: s.blockLog
    rw [hsame, hlog]

/-- Everything that has happened up to some point of a run, and then up to a later one. -/
theorem run_between {acts early late : List Act} (h : Standing env n)
    (hacts : Guarded (run env fuel) (Smooth env fuel) n acts) (hearly : early <+: late)
    (hlate : late <+: acts) :
    Standing env (Lib.run (run env fuel) n early) ∧ Standing env (Lib.run (run env fuel) n late) ∧
      (Lib.run (run env fuel) n early).blockLog <+: (Lib.run (run env fuel) n late).blockLog := by
  obtain ⟨after, rfl⟩ := hlate
  obtain ⟨between, rfl⟩ := hearly
  obtain ⟨hsofar, -⟩ := guarded_append.1 hacts
  obtain ⟨hfirst, hsecond⟩ := guarded_append.1 hsofar
  have hstart : Standing env (Lib.run (run env fuel) n early) :=
    run_invariant h (fun m a hm ha => (run_standing hm ha).1) hfirst
  rw [run_append]
  generalize Lib.run (run env fuel) n early = m at *
  have hall : Standing env (Lib.run (run env fuel) m between) ∧
      m.blockLog <+: (Lib.run (run env fuel) m between).blockLog := by
    refine run_invariant (I := fun u => Standing env u ∧ m.blockLog <+: u.blockLog)
      ⟨hstart, List.prefix_refl _⟩ ?_ hsecond
    intro u a hu ha
    obtain ⟨hnext, hgrown⟩ := run_standing hu.1 ha
    exact ⟨hnext, hu.2.trans hgrown⟩
  exact ⟨hstart, hall.1, hall.2⟩

end Act

/-- **The log.**  It is never rewritten, it follows the chain that leads to the head, and it holds
all irreversible blocks. -/
theorem log_kept (env : Env) (fuel : Nat) {c : List SignedBlock} {n : Node}
    (h : Node.Rested env c n) {acts : List Act}
    (hacts : Guarded (Act.run env fuel) (Act.Smooth env fuel) n acts) {early late : List Act}
    (hearly : early <+: late) (hlate : late <+: acts) :
    (run (Act.run env fuel) n early).blockLog <+: (run (Act.run env fuel) n late).blockLog ∧
      ∃ chain, (links env).Linked chain ∧
        (run (Act.run env fuel) n late).db.headMark = (chain.length, (links env).tip chain) ∧
        (run (Act.run env fuel) n late).blockLog <+: chain ∧
        (run (Act.run env fuel) n late).irreversible ≤
          (run (Act.run env fuel) n late).blockLog.length := by
  obtain ⟨-, ⟨chain, base, hend⟩, hgrown⟩ :=
    Act.run_between ⟨c, n.toStore, h.seated⟩ hacts hearly hlate
  have hreadable := hend.readable
  exact ⟨hgrown, chain, hreadable.linked, hreadable.stands.mark, hreadable.log, hreadable.logged⟩

/-- A database without a block, and the witnesses that are scheduled. -/
def newDb (witnesses : List AccountName) : Db :=
  let db := (smallStore [{ id := 4, name := "bob" }]).db
  { db.modifyDgp fun p => { p with headBlockNumber := 0, headBlockId := ⟨0, 0⟩, time := 0 } with
    witnessSchedule := { db.witnessSchedule with
      currentShuffledWitnesses := witnesses, numScheduledWitnesses := witnesses.length }
    witnesses := ⟨[{ id := 0, owner := "alice", signingKey := 7, currentRun := 1 },
      { id := 1, owner := "bob", signingKey := 9, currentRun := 1 }], 2⟩
    blockSummaries := ⟨(List.range 5).map fun k => ⟨k, ⟨0, 0⟩⟩, 65536⟩ }

theorem newDb_at (env : Env) (witnesses : List AccountName) : Db.At env [] (newDb witnesses) where
  mark := rfl
  rows row hrow := by
    obtain ⟨k, -, rfl⟩ := List.mem_map.1 hrow
    exact .inl rfl
  ring b hb := absurd hb List.not_mem_nil
  validations v hv := absurd hv List.not_mem_nil
  backed := by
    refine ⟨fun _ => 1, fun name w hw => ?_⟩
    rcases List.mem_cons.1 (Table.get_mem hw) with rfl | hrow
    · exact ⟨le_rfl, le_rfl⟩
    · rw [List.mem_singleton.1 hrow]
      exact ⟨le_rfl, le_rfl⟩
  ceiling := le_rfl
  reach := show 0 < 0 + 2 ^ 16 by decide

/-- A node that has not seen a block. -/
def newNode (witnesses : List AccountName) : Node := { db := newDb witnesses }

theorem newNode_rested (env : Env) (witnesses : List AccountName) :
    Node.Rested env [] (newNode witnesses) := by
  refine ⟨⟨⟨⟨List.prefix_refl _, .nil _, rfl, ?_, le_rfl⟩, newDb_at env witnesses, le_rfl, ?_⟩, 1,
    ForkDb.filed_empty, le_max_left _ _⟩, rfl, rfl⟩
  · exact fun u hu => absurd hu List.not_mem_nil
  · exact fun u hu => absurd hu List.not_mem_nil

/-- A block without transactions is pushed. -/
def pushEmpty (previous : BlockId) (timestamp : TimePointSec) (witness : AccountName)
    (witnessSignature : Nat) : Act :=
  .call (fun _ => 33) (.pushBlock { merkleCheck := true } 1 ⟨⟨previous, timestamp, witness, 1, [],
    witnessSignature⟩, []⟩)

/-- A node of alice and bob, who take turns.  After two blocks there is a switch to another branch,
then come a block without a parent, a block with a wrong signature, a block off the head while that
one is the head of the fork database, and the next block.  The first one is validated, and after a
new start it is followed by another one. -/
def pairRun : List Act :=
  [pushEmpty ⟨0, 0⟩ 30 "alice" 7, pushEmpty ⟨1, 30⟩ 33 "bob" 9, pushEmpty ⟨1, 30⟩ 36 "alice" 7,
    pushEmpty ⟨2, 36⟩ 39 "bob" 9, pushEmpty ⟨8, 8⟩ 42 "alice" 7, pushEmpty ⟨3, 39⟩ 42 "alice" 8,
    pushEmpty ⟨2, 33⟩ 36 "alice" 7, pushEmpty ⟨3, 39⟩ 48 "alice" 7,
    .postValidation ⟨1, 30⟩ "bob", .reopen, pushEmpty ⟨1, 30⟩ 33 "bob" 9]

def pairNode : Node := newNode ["bob", "alice"]

theorem pairNode_rested (env : Env) : Node.Rested env [] pairNode := newNode_rested env _

theorem pairRun_guarded :
    Guarded (Act.run smallEnv 3) (Act.Smooth smallEnv 3) pairNode pairRun := by
  refine ⟨?_, ?_, ?_, ?_, ?_, ?_, ?_, ?_, ?_, ?_, ?_, trivial⟩
  all_goals decide +kernel

theorem log_kept_pairRun :
    (run (Act.run smallEnv 3) pairNode (pairRun.take 9)).blockLog <+:
        (run (Act.run smallEnv 3) pairNode pairRun).blockLog ∧
      ∃ chain, (links smallEnv).Linked chain ∧
        (run (Act.run smallEnv 3) pairNode pairRun).db.headMark =
          (chain.length, (links smallEnv).tip chain) ∧
        (run (Act.run smallEnv 3) pairNode pairRun).blockLog <+: chain ∧
        (run (Act.run smallEnv 3) pairNode pairRun).irreversible ≤
          (run (Act.run smallEnv 3) pairNode pairRun).blockLog.length :=
  log_kept smallEnv 3 (pairNode_rested smallEnv) pairRun_guarded (List.take_prefix 9 pairRun)
    (List.prefix_refl pairRun)

/-- What `Placed` shuts out: a block off the head comes to the height of the block of time 42, which
has failed, and this one gets into the log instead of the block of time 48. -/
example : (run (Act.run smallEnv 3) pairNode (pairRun.take 8 ++
    [pushEmpty ⟨3, 39⟩ 54 "alice" 7, .postValidation ⟨1, 30⟩ "bob", .postValidation ⟨2, 36⟩ "bob",
      .postValidation ⟨3, 39⟩ "alice", .postValidation ⟨4, 48⟩ "bob"])).blockLog.map
        (·.timestamp) = [30, 36, 39, 42] := by
  decide +kernel

/-- **Lookups.**  The ring of block ids, the log and the fork database answer with one voice: what
they find at a height is what the chain that leads to the head holds there. -/
theorem lookups_right (env : Env) (fuel : Nat) {c : List SignedBlock} {n : Node}
    (h : Node.Rested env c n) {acts : List Act}
    (hacts : Guarded (Act.run env fuel) (Act.Smooth env fuel) n acts) :
    ∃ chain, (links env).Linked chain ∧
      (run (Act.run env fuel) n acts).db.headMark = (chain.length, (links env).tip chain) ∧
      (∀ num, (run (Act.run env fuel) n acts).findBlockIdForNum env num =
        Store.idAt env chain num) ∧
      ∀ num b, (run (Act.run env fuel) n acts).fetchBlockByNumber num = some b →
        0 < num ∧ chain[num - 1]? = some b := by
  obtain ⟨-, ⟨chain, base, hend⟩, -⟩ := Act.run_between ⟨c, n.toStore, h.seated⟩ hacts
    (List.prefix_refl acts) (List.prefix_refl acts)
  have hreadable := hend.readable
  exact ⟨chain, hreadable.linked, hreadable.stands.mark, hreadable.findBlockIdForNum_eq,
    fun num b => hreadable.fetchBlockByNumber_eq⟩

theorem lookups_right_pairRun :
    ∃ chain, (links smallEnv).Linked chain ∧
      (run (Act.run smallEnv 3) pairNode pairRun).db.headMark =
        (chain.length, (links smallEnv).tip chain) ∧
      (∀ num, (run (Act.run smallEnv 3) pairNode pairRun).findBlockIdForNum smallEnv num =
        Store.idAt smallEnv chain num) ∧
      ∀ num b, (run (Act.run smallEnv 3) pairNode pairRun).fetchBlockByNumber num = some b →
        0 < num ∧ chain[num - 1]? = some b :=
  lookups_right smallEnv 3 (pairNode_rested smallEnv) pairRun_guarded

namespace Store.Readable

variable {env : Env} {c c' : List SignedBlock} {s s' : Store}

/-- Two stores with a common log give the same ids for what the log holds. -/
theorem findBlockIdForNum_logged (h : Readable env c s) (h' : Readable env c' s')
    (hgrown : s.blockLog <+: s'.blockLog) {num : Nat} (hle : num ≤ s.blockLog.length) :
    s'.findBlockIdForNum env num = s.findBlockIdForNum env num := by
  rw [h.findBlockIdForNum_eq, h'.findBlockIdForNum_eq]
  unfold idAt
  split
  · rfl
  · rename_i hpos
    have hget : ∀ {d : List SignedBlock}, s.blockLog <+: d →
        d[num - 1]? = s.blockLog[num - 1]? := by
      intro d hd
      obtain ⟨rest, rfl⟩ := hd
      exact List.getElem?_append_left (by omega)
    rw [hget h.log, hget (hgrown.trans h'.log)]

end Store.Readable

/-- **Irreversible blocks** are final: whatever happens to the node later, their numbers have the
ids that they had. -/
theorem irreversible_final (env : Env) (fuel : Nat) {c : List SignedBlock} {n : Node}
    (h : Node.Rested env c n) {acts : List Act}
    (hacts : Guarded (Act.run env fuel) (Act.Smooth env fuel) n acts) {early late : List Act}
    (hearly : early <+: late) (hlate : late <+: acts) {num : Nat}
    (hnum : num ≤ (run (Act.run env fuel) n early).irreversible) :
    (run (Act.run env fuel) n late).findBlockIdForNum env num =
      (run (Act.run env fuel) n early).findBlockIdForNum env num := by
  obtain ⟨⟨before, base, hbefore⟩, ⟨after, base', hafter⟩, hgrown⟩ :=
    Act.run_between ⟨c, n.toStore, h.seated⟩ hacts hearly hlate
  have hreadable := hbefore.readable
  exact hreadable.findBlockIdForNum_logged hafter.readable hgrown (hnum.trans hreadable.logged)

theorem irreversible_final_pairRun :
    1 ≤ (run (Act.run smallEnv 3) pairNode (pairRun.take 9)).irreversible ∧
      (run (Act.run smallEnv 3) pairNode pairRun).findBlockIdForNum smallEnv 1 =
        (run (Act.run smallEnv 3) pairNode (pairRun.take 9)).findBlockIdForNum smallEnv 1 := by
  have hnum : 1 ≤ (run (Act.run smallEnv 3) pairNode (pairRun.take 9)).irreversible := by
    decide +kernel
  exact ⟨hnum, irreversible_final smallEnv 3 (pairNode_rested smallEnv) pairRun_guarded
    (List.take_prefix 9 pairRun) (List.prefix_refl pairRun) hnum⟩

end VizCore.Chain
