import VizCore.Chain.Lasting
import VizCore.Chain.Slots

/-!
# The witness plugin

Every second the plugin looks whether one of its witnesses has to make a block, and signs the
post-validations that wait for them.

* `WitnessNode.blockProductionLoop`: one look;
* `blockProductionLoop_looked`: what it sends is right for the chain that the node is on;
* `blockProductionLoop_sends`: one block at most, for the second of the look;
* `production_right`, `signs_once`: over a run of the node, calls and looks in any order.
-/

namespace VizCore.Chain.Db

open VizCore.Protocol

/-- `CHAIN_MAX_BLOCK_POST_VALIDATION_COUNT` entries without a block. -/
def noPostValidation : BlockPostValidationObject := ⟨0, 0, ⟨0, 0⟩, [], []⟩

/-- `get_block_post_validations`: an array that is filled up with empty entries.  A write past its
end is an exception. -/
def getBlockPostValidations (db : Db) (witnessAccount : AccountName) :
    Result (List BlockPostValidationObject) := do
  let found := db.blockPostValidations.rows.flatMap fun v =>
    ((v.currentShuffledWitnesses.zip v.currentShuffledWitnessesValidations).filter
      (· = (witnessAccount, false))).map fun _ => v
  fcAssert (found.length ≤ Store.maxBlockPostValidationCount) "result[i]"
  return found ++ List.replicate (Store.maxBlockPostValidationCount - found.length) noPostValidation

/-- `witness_participation_rate` -/
def witnessParticipationRate (db : Db) : Nat :=
  percent100 * oneBits 128 db.dgp.recentSlotsFilled / 128

end VizCore.Chain.Db

namespace VizCore.Plugins

open VizCore.Lib VizCore.Protocol VizCore.Chain VizCore.Chain.Node

/-- `block_production_condition_enum` -/
inductive BlockProductionCondition
  | produced
  | notSynced
  | notMyTurn
  | notTimeYet
  | noPrivateKey
  | lowParticipation
  | lag
  | consecutive
  | exceptionProducingBlock
  deriving DecidableEq

/-- What the plugin hands to the network. -/
inductive Sent
  | block (b : SignedBlock)
  | postValidation (id : BlockId) (witness : AccountName) (signature : Nat)

/-- The settings of the plugin and its state.  Times are in microseconds. -/
structure WitnessPlugin where
  witnesses : List AccountName
  privateKeys : List SigningKey
  requiredWitnessParticipation : Nat := 3300
  productionSkipFlags : Skip := {}
  productionEnabled : Bool := false
  lastBlockPostValidationTime : Nat := 0

/-- What is set when the node starts. -/
def WitnessPlugin.settings (p : WitnessPlugin) : List AccountName × List SigningKey × Nat × Skip :=
  (p.witnesses, p.privateKeys, p.requiredWitnessParticipation, p.productionSkipFlags)

theorem WitnessPlugin.settings_eq_iff {p q : WitnessPlugin} : p.settings = q.settings ↔
    p.witnesses = q.witnesses ∧ p.privateKeys = q.privateKeys ∧
      p.requiredWitnessParticipation = q.requiredWitnessParticipation ∧
      p.productionSkipFlags = q.productionSkipFlags := by
  simp only [settings, Prod.mk.injEq]

/-- The time of the last post-validations is no setting. -/
theorem WitnessPlugin.settings_ticked (p : WitnessPlugin) (time : Nat) :
    ({ p with lastBlockPostValidationTime := time } : WitnessPlugin).settings = p.settings := rfl

/-- `_private_keys.find` -/
def WitnessPlugin.findKey (p : WitnessPlugin) (k : PublicKey) : Option SigningKey :=
  p.privateKeys.find? fun key => decide (key.publicKey = k)

/-- A node with the plugin, and what it has handed to the network so far. -/
structure WitnessNode where
  node : Node
  plugin : WitnessPlugin
  sent : List Sent := []

/-- A time in whole seconds. -/
def toSeconds (t : Nat) : TimePointSec := t / 1000000 % 2 ^ 32

/-- The whole second that is closest. -/
def closestSecond (nowFine : Nat) : TimePointSec := toSeconds (nowFine + 500000)

namespace WitnessNode

variable (env : Env) (fuel : Nat) (signId : SigningKey → BlockId → Nat)

/-- The post-validations of one witness.  A witness that does not exist is an exception. -/
def validateFor (n : WitnessNode) (witnessAccount : AccountName) : Result WitnessNode := do
  let validations ← n.node.db.getBlockPostValidations witnessAccount
  let w ← n.node.db.getWitness witnessAccount
  match n.plugin.findKey w.signingKey with
  | none => return n
  | some key =>
    let named := validations.filter fun v => v.blockNum ≠ 0 ∧ v.blockId ≠ ⟨0, 0⟩
    return { n with sent := n.sent ++ named.map fun v =>
      .postValidation v.blockId witnessAccount (signId key v.blockId) }

/-- The post-validations of the witnesses, one after the other. -/
def validateAll : List AccountName → WitnessNode → Except (Exception × WitnessNode) WitnessNode
  | [], n => .ok n
  | witnessAccount :: rest, n =>
    match n.validateFor signId witnessAccount with
    | .ok n => validateAll rest n
    | .error e => .error (e, n)

/-- Post-validations are signed at most once for every tick of the clock. -/
def postValidate (nowFine : Nat) (n : WitnessNode) :
    Except (Exception × WitnessNode) WitnessNode :=
  if n.plugin.lastBlockPostValidationTime < nowFine then
    validateAll signId n.plugin.witnesses { n with plugin := { n.plugin with
      lastBlockPostValidationTime := closestSecond nowFine * 1000000 } }
  else .ok n

/-- A block is generated, and once more without the pending transactions when this fails. -/
def generate (budget headerSize : Nat) (time : TimePointSec) (witnessOwner : AccountName)
    (key : SigningKey) : Nat → WitnessNode → BlockProductionCondition × WitnessNode
  | 0, n => (.exceptionProducingBlock, n)
  | tries + 1, n =>
    match n.node.generateBlock env fuel n.plugin.productionSkipFlags budget headerSize time
      witnessOwner key with
    | .ok (m, b) => (.produced, { n with node := m, sent := n.sent ++ [.block b] })
    | .error (_, m) =>
      generate budget headerSize time witnessOwner key tries { n with node := m.clearPending }

/-- The part of `maybe_produce_block` after the post-validations. -/
def produceAt (budget headerSize : Nat) (now : TimePointSec) (n : WitnessNode) :
    Except (Exception × WitnessNode) (BlockProductionCondition × WitnessNode) :=
  let db := n.node.db
  let slot := db.getSlotAtTime now
  if slot = 0 then .ok (.notTimeYet, n)
  else
    let scheduledWitness := db.getScheduledWitness slot
    if scheduledWitness ∉ n.plugin.witnesses then .ok (.notMyTurn, n)
    else
      match db.getWitness scheduledWitness with
      | .error e => .error (e, n)
      | .ok w =>
        let scheduledTime := db.getSlotTime slot
        match n.plugin.findKey w.signingKey with
        | none => .ok (.noPrivateKey, n)
        | some key =>
          if db.witnessParticipationRate < n.plugin.requiredWitnessParticipation then
            .ok (.lowParticipation, n)
          else if 500000 < ((scheduledTime : Int) - now).natAbs * 1000000 then .ok (.lag, n)
          else .ok (n.generate env fuel budget headerSize scheduledTime scheduledWitness key 2)

/-- `maybe_produce_block`, without its assertion that the clock is after the head. -/
def maybeProduceBlock (budget headerSize nowFine : Nat) (n : WitnessNode) :
    Except (Exception × WitnessNode) (BlockProductionCondition × WitnessNode) :=
  let now := closestSecond nowFine
  let synced := n.plugin.productionEnabled || decide (now ≤ n.node.db.getSlotTime 1)
  if synced then do
    let n ← { n with plugin := { n.plugin with productionEnabled := true } }.postValidate signId
      nowFine
    n.produceAt env fuel budget headerSize now
  else .ok (.notSynced, n)

/-- `block_production_loop`: what is thrown is caught. -/
def blockProductionLoop (budget headerSize nowFine : Nat) (n : WitnessNode) :
    BlockProductionCondition × WitnessNode :=
  match n.maybeProduceBlock env fuel signId budget headerSize nowFine with
  | .ok r => r
  | .error (_, n) => (.exceptionProducingBlock, n)

end WitnessNode

/-! ## Post-validations -/

theorem mem_getBlockPostValidations {db : Db} {name : AccountName}
    {l : List BlockPostValidationObject} (h : db.getBlockPostValidations name = .ok l)
    {v : BlockPostValidationObject} (hv : v ∈ l) : v = Db.noPostValidation ∨
      v ∈ db.blockPostValidations.rows ∧
        (name, false) ∈ v.currentShuffledWitnesses.zip v.currentShuffledWitnessesValidations := by
  obtain ⟨_, -, hl⟩ := (bind_eq_ok _ _ _).1 h
  cases hl
  rcases List.mem_append.1 hv with hfound | hempty
  · obtain ⟨v', hrow, hmap⟩ := List.mem_flatMap.1 hfound
    obtain ⟨pair, hpair, rfl⟩ := List.mem_map.1 hmap
    obtain ⟨hzip, heq⟩ := List.mem_filter.1 hpair
    exact .inr ⟨hrow, of_decide_eq_true heq ▸ hzip⟩
  · exact .inl (List.eq_of_mem_replicate hempty)

theorem WitnessPlugin.mem_of_findKey {p : WitnessPlugin} {k : PublicKey} {key : SigningKey}
    (h : p.findKey k = some key) : key ∈ p.privateKeys ∧ k = key.publicKey := by
  have hpublic := List.find?_some h
  exact ⟨List.mem_of_find?_eq_some h, (of_decide_eq_true hpublic).symm⟩

/-- What the signature for a block rests on: the block is one of the chain and waits for the
witness, and the plugin has the key of the witness. -/
structure Vouches (env : Env) (signId : SigningKey → BlockId → Nat) (c : List SignedBlock) (db : Db)
    (p : WitnessPlugin) (id : BlockId) (witness : AccountName) (signature : Nat) : Prop where
  block : ∃ b ∈ c, id = Db.blockId env b
  waiting : ∃ v ∈ db.blockPostValidations.rows, v.blockId = id ∧
    (witness, false) ∈ v.currentShuffledWitnesses.zip v.currentShuffledWitnessesValidations
  own : witness ∈ p.witnesses
  key : ∃ w key, db.getWitness witness = .ok w ∧ key ∈ p.privateKeys ∧
    w.signingKey = key.publicKey ∧ signature = signId key id

/-- A note that is no block, with a signature that rests on the chain. -/
def Sent.Vouched (env : Env) (signId : SigningKey → BlockId → Nat) (c : List SignedBlock) (db : Db)
    (p : WitnessPlugin) : Sent → Prop
  | .block _ => False
  | .postValidation id witness signature => Vouches env signId c db p id witness signature

/-- Only signatures for post-validations have been sent. -/
structure Vouching (env : Env) (signId : SigningKey → BlockId → Nat) (c : List SignedBlock)
    (n n' : WitnessNode) : Prop where
  node : n'.node = n.node
  plugin : n'.plugin = n.plugin
  sent : ∃ notes, n'.sent = n.sent ++ notes ∧
    ∀ note ∈ notes, note.Vouched env signId c n.node.db n.plugin

section

variable {env : Env} {fuel : Nat} {signId : SigningKey → BlockId → Nat} {c : List SignedBlock}
  {n n' : WitnessNode}

theorem Vouching.refl (n : WitnessNode) : Vouching env signId c n n where
  node := rfl
  plugin := rfl
  sent := ⟨[], (List.append_nil _).symm, fun note hnote => absurd hnote List.not_mem_nil⟩

theorem Vouching.trans {n'' : WitnessNode} (h : Vouching env signId c n n')
    (h' : Vouching env signId c n' n'') : Vouching env signId c n n'' := by
  obtain ⟨notes, hnotes, hvouched⟩ := h.sent
  obtain ⟨notes', hnotes', hvouched'⟩ := h'.sent
  refine ⟨h'.node.trans h.node, h'.plugin.trans h.plugin, notes ++ notes', ?_, ?_⟩
  · rw [hnotes', hnotes, List.append_assoc]
  · intro note hnote
    rcases List.mem_append.1 hnote with hold | hnew
    · exact hvouched note hold
    · rw [← h.node, ← h.plugin]
      exact hvouched' note hnew

theorem validateFor_vouching {name : AccountName} (hnamed : n.node.db.blockPostValidations.All
    (Db.Names env c)) (hown : name ∈ n.plugin.witnesses) (h : n.validateFor signId name = .ok n') :
    Vouching env signId c n n' := by
  obtain ⟨validations, hvalidations, h⟩ := (bind_eq_ok _ _ _).1 h
  obtain ⟨w, hw, h⟩ := (bind_eq_ok _ _ _).1 h
  cases hkey : n.plugin.findKey w.signingKey with
  | none =>
    rw [hkey] at h
    cases h
    exact .refl n
  | some key =>
    rw [hkey] at h
    cases h
    obtain ⟨hmem, hpublic⟩ := WitnessPlugin.mem_of_findKey hkey
    refine ⟨rfl, rfl, _, rfl, fun note hnote => ?_⟩
    obtain ⟨v, hv, rfl⟩ := List.mem_map.1 hnote
    obtain ⟨hv, hnonzero⟩ := List.mem_filter.1 hv
    rcases mem_getBlockPostValidations hvalidations hv with rfl | ⟨hrow, hwaits⟩
    · cases hnonzero
    · obtain ⟨b, hb, -, hid⟩ := hnamed v hrow
      exact ⟨⟨b, hb, hid⟩, ⟨v, hrow, rfl, hwaits⟩, hown, w, key, hw, hmem, hpublic, rfl⟩

/-- **The post-validations** of all the witnesses of the plugin. -/
theorem validateAll_vouching (names : List AccountName)
    (hown : ∀ name ∈ names, name ∈ n.plugin.witnesses)
    (hnamed : n.node.db.blockPostValidations.All (Db.Names env c)) :
    Ends (fun e => Vouching env signId c n e.2) (Vouching env signId c n)
      (WitnessNode.validateAll signId names n) := by
  induction names generalizing n with
  | nil => exact .refl n
  | cons name names ih =>
    unfold WitnessNode.validateAll
    cases hrun : n.validateFor signId name with
    | error e => exact .refl n
    | ok m =>
      have hfirst := validateFor_vouching hnamed (hown name List.mem_cons_self) hrun
      have hrest := ih (n := m)
        (fun name hname => hfirst.plugin ▸ hown name (List.mem_cons_of_mem _ hname))
        (hfirst.node ▸ hnamed)
      exact hrest.mono (fun e he => hfirst.trans he) fun m' hm' => hfirst.trans hm'

theorem postValidate_vouching {nowFine : Nat}
    (hnamed : n.node.db.blockPostValidations.All (Db.Names env c)) :
    Ends (fun e => ∃ p, p.settings = n.plugin.settings ∧
        Vouching env signId c { n with plugin := p } e.2)
      (fun m => ∃ p, p.settings = n.plugin.settings ∧
        Vouching env signId c { n with plugin := p } m)
      (n.postValidate signId nowFine) := by
  unfold WitnessNode.postValidate
  split
  · obtain ⟨p, hp⟩ : ∃ p : WitnessPlugin, p = { n.plugin with
      lastBlockPostValidationTime := closestSecond nowFine * 1000000 } := ⟨_, rfl⟩
    have hsettings : p.settings = n.plugin.settings := by
      rw [hp, WitnessPlugin.settings_ticked]
    obtain ⟨hwitnesses, -⟩ := WitnessPlugin.settings_eq_iff.1 hsettings
    rw [← hp]
    have hall := @validateAll_vouching env signId c { n with plugin := p } n.plugin.witnesses
      (fun name hname => hwitnesses ▸ hname) hnamed
    exact hall.mono (fun e he => ⟨p, hsettings, he⟩) fun m hm => ⟨p, hsettings, hm⟩
  · exact ⟨n.plugin, rfl, Vouching.refl n⟩

/-! ## Blocks -/

/-- The blocks that are assembled in up to `tries` tries are pushed as other blocks are. -/
def Tries (env : Env) (fuel : Nat) (skip : Skip) (budget headerSize : Nat) (time : TimePointSec)
    (witnessOwner : AccountName) (key : SigningKey) : Nat → Node → Prop
  | 0, _ => True
  | tries + 1, n =>
    (∀ m b, n.assembleBlock env fuel skip headerSize time witnessOwner key = .ok (m, b) →
      Node.Sound env fuel skip budget m b) ∧
    ∀ e m, n.generateBlock env fuel skip budget headerSize time witnessOwner key = .error (e, m) →
      Tries env fuel skip budget headerSize time witnessOwner key tries m.clearPending

/-- Where a block is generated at the first try, no other one is needed. -/
theorem Tries.of_generated {env : Env} {fuel : Nat} {skip : Skip} {budget headerSize tries : Nat}
    {time : TimePointSec} {witnessOwner : AccountName} {key : SigningKey} {n : Node}
    {r : Node × SignedBlock} (hskip : Unskipped skip)
    (h : n.generateBlock env fuel skip budget headerSize time witnessOwner key = .ok r) :
    Tries env fuel skip budget headerSize time witnessOwner key (tries + 1) n := by
  rcases generateBlock_cases env fuel skip budget headerSize time witnessOwner key n with
    ⟨e, m, hthrown, -⟩ | ⟨m, b, hrun, hpushed⟩
  · cases hthrown.symm.trans h
  · refine ⟨fun m' b' hassemble => ?_, fun e m' hthrown => by cases hthrown.symm.trans h⟩
    obtain ⟨rfl, rfl⟩ := Prod.mk.inj (Except.ok.inj (hrun.symm.trans hassemble))
    obtain ⟨-, -, -, w, trxs, -, hb⟩ := assembleBlock_eq_ok hrun
    refine ⟨hskip, fun _ _ => .inl (hb ▸ signedBlock_previous _ _ _), fun e m' hthrown => ?_⟩
    rw [hpushed, hthrown] at h
    cases h

/-- What the sending of a block rests on: it has become the next block of the chain `c`, and it was
made at the end of that chain. -/
structure Produced (env : Env) (c c' : List SignedBlock) (time : TimePointSec)
    (witnessOwner : AccountName) (key : SigningKey) (b : SignedBlock) : Prop where
  next : c' = c ++ [b]
  made : ∃ base m, Seated env c base m ∧ Produces env c m time witnessOwner key b

/-- What generating blocks leaves. -/
structure Generated (env : Env) (c : List SignedBlock) (base : Store) (time : TimePointSec)
    (witnessOwner : AccountName) (key : SigningKey) (n n' : WitnessNode) : Prop where
  plugin : n'.plugin = n.plugin
  seated : ∃ c' base', Seated env c' base' n'.node ∧ base.blockLog <+: base'.blockLog ∧
    (n'.sent = n.sent ∧ c' = c ∨ ∃ b, n'.sent = n.sent ++ [.block b] ∧
      Produced env c c' time witnessOwner key b)

/-- **Generating a block**, try after try. -/
theorem generate_generated {clock : Nat → TimePointSec} {budget headerSize : Nat}
    {time : TimePointSec} {witnessOwner : AccountName} {key : SigningKey} (tries : Nat)
    {base : Store} (h : Seated env c base n.node)
    (hsigned : n.plugin.productionSkipFlags.witnessSignature = false)
    (htries : Tries { env with clock := clock } fuel n.plugin.productionSkipFlags budget headerSize
      time witnessOwner key tries n.node) :
    Generated env c base time witnessOwner key n (n.generate { env with clock := clock } fuel budget
      headerSize time witnessOwner key tries).2 := by
  induction tries generalizing n base with
  | zero => exact ⟨rfl, c, base, h, List.prefix_refl _, .inl ⟨rfl, rfl⟩⟩
  | succ tries ih =>
    obtain ⟨hsound, hagain⟩ := htries
    obtain ⟨c', base', hend, hgrown, hmade, hsame⟩ := h.generateBlock hsound
    unfold WitnessNode.generate
    cases hrun : n.node.generateBlock { env with clock := clock } fuel n.plugin.productionSkipFlags
        budget headerSize time witnessOwner key with
    | ok r =>
      obtain ⟨m, b⟩ := r
      rw [hrun] at hend
      obtain ⟨hnext, hproduces⟩ := hmade m b hrun hsigned
      exact ⟨rfl, c', base', hend, hgrown, .inr ⟨b, rfl, hnext, base, n.node, h, hproduces⟩⟩
    | error e =>
      obtain ⟨e, m⟩ := e
      rw [hrun] at hend
      obtain rfl := hsame (e, m) hrun
      obtain ⟨hrested, hstore⟩ := hend.clearPending
      have hcleared := hrested.seated
      rw [hstore] at hcleared
      obtain ⟨hplugin, c'', base'', hlast, hgrown', hsent⟩ :=
        ih (n := { n with node := m.clearPending }) hcleared hsigned (hagain e m hrun)
      exact ⟨hplugin, c'', base'', hlast, hgrown.trans hgrown', hsent⟩

/-- The block of a look: one of the plugin's witnesses has made it with one of its keys, when enough
slots had been filled. -/
structure Turn (env : Env) (c c' : List SignedBlock) (now : TimePointSec) (n : WitnessNode)
    (b : SignedBlock) : Prop where
  produced : ∃ witnessOwner ∈ n.plugin.witnesses, ∃ key ∈ n.plugin.privateKeys,
    Produced env c c' now witnessOwner key b
  participation : n.plugin.requiredWitnessParticipation ≤ n.node.db.witnessParticipationRate

/-- **A look**: signatures for post-validations are sent, and then a block or none. -/
structure Looked (env : Env) (signId : SigningKey → BlockId → Nat) (c : List SignedBlock)
    (base : Store) (now : TimePointSec) (n n' : WitnessNode) : Prop where
  settings : n'.plugin.settings = n.plugin.settings
  seated : ∃ c' base' notes, Seated env c' base' n'.node ∧ base.blockLog <+: base'.blockLog ∧
    (∀ note ∈ notes, note.Vouched env signId c n.node.db n.plugin) ∧
    (n'.sent = n.sent ++ notes ∧ c' = c ∨
      ∃ b, n'.sent = n.sent ++ notes ++ [.block b] ∧ Turn env c c' now n b)

theorem Looked.refl {base : Store} {now : TimePointSec} (h : Seated env c base n.node) :
    Looked env signId c base now n n where
  settings := rfl
  seated := by
    refine ⟨c, base, [], h, List.prefix_refl _, fun note hnote => absurd hnote List.not_mem_nil, ?_⟩
    exact .inl ⟨(List.append_nil _).symm, rfl⟩

/-- Another state of the plugin at the start, with the same settings. -/
theorem Looked.of_plugin {base : Store} {now : TimePointSec} {p : WitnessPlugin}
    (hp : p.settings = n.plugin.settings)
    (h : Looked env signId c base now { n with plugin := p } n') :
    Looked env signId c base now n n' := by
  obtain ⟨hsettings, c', base', notes, hend, hgrown, hnotes, hsent⟩ := h
  obtain ⟨hwitnesses, hkeys, hrequired, -⟩ := WitnessPlugin.settings_eq_iff.1 hp
  refine ⟨hsettings.trans hp, c', base', notes, hend, hgrown, ?_, ?_⟩
  · intro note hnote
    have hvouched := hnotes note hnote
    cases note with
    | block b => exact hvouched
    | postValidation id witness signature =>
      obtain ⟨hblock, hwaiting, hown, w, key, hw, hkey, hsigning, hsignature⟩ := hvouched
      exact ⟨hblock, hwaiting, hwitnesses ▸ hown, w, key, hw, hkeys ▸ hkey, hsigning, hsignature⟩
  · refine hsent.imp_right fun hblock => ?_
    obtain ⟨b, hsent, ⟨name, hname, key, hkey, hproduced⟩, hrate⟩ := hblock
    exact ⟨b, hsent, ⟨name, hwitnesses ▸ hname, key, hkeys ▸ hkey, hproduced⟩, hrequired ▸ hrate⟩

/-- Signatures for post-validations come before the block. -/
theorem Vouching.looked {base : Store} {now : TimePointSec} {m : WitnessNode}
    (h : Vouching env signId c n m) (hm : Looked env signId c base now m n') :
    Looked env signId c base now n n' := by
  obtain ⟨notes, hnotes, hvouched⟩ := h.sent
  obtain ⟨hsettings, c', base', notes', hend, hgrown, hvouched', hsent⟩ := hm
  refine ⟨hsettings.trans (congrArg WitnessPlugin.settings h.plugin), c', base', notes ++ notes',
    hend, hgrown, ?_, ?_⟩
  · intro note hnote
    rcases List.mem_append.1 hnote with hold | hnew
    · exact hvouched note hold
    · rw [← h.node, ← h.plugin]
      exact hvouched' note hnew
  · rw [hnotes] at hsent
    rw [← List.append_assoc]
    refine hsent.imp_right fun hblock => ?_
    obtain ⟨b, hsent, hproduced, hrate⟩ := hblock
    rw [h.node, h.plugin] at hrate
    rw [h.plugin] at hproduced
    exact ⟨b, hsent, hproduced, hrate⟩

/-- Whole seconds that are less than a second apart are the same. -/
theorem eq_of_lag {time now : TimePointSec}
    (h : ¬ 500000 < ((time : Int) - now).natAbs * 1000000) : time = now := by
  unfold TimePointSec at *
  omega

theorem produceAt_looked {clock : Nat → TimePointSec} {budget headerSize : Nat} {now : TimePointSec}
    {base : Store} (h : Seated env c base n.node)
    (hsigned : n.plugin.productionSkipFlags.witnessSignature = false)
    (htries : ∀ name ∈ n.plugin.witnesses, ∀ key ∈ n.plugin.privateKeys,
      Tries { env with clock := clock } fuel n.plugin.productionSkipFlags budget headerSize now name
        key 2 n.node) :
    Ends (fun e => Looked env signId c base now n e.2) (fun r => Looked env signId c base now n r.2)
      (n.produceAt { env with clock := clock } fuel budget headerSize now) := by
  unfold WitnessNode.produceAt
  dsimp only
  split
  · exact .refl h
  · split
    · exact .refl h
    · rename_i hown
      rw [not_not] at hown
      cases n.node.db.getWitness (n.node.db.getScheduledWitness (n.node.db.getSlotAtTime now)) with
      | error e => exact .refl h
      | ok w =>
        dsimp only
        cases hkey : n.plugin.findKey w.signingKey with
        | none => exact .refl h
        | some key =>
          dsimp only
          split
          · exact .refl h
          · rename_i hrate
            split
            · exact .refl h
            · rename_i hlag
              rw [eq_of_lag hlag]
              obtain ⟨hmem, -⟩ := WitnessPlugin.mem_of_findKey hkey
              obtain ⟨hplugin, c', base', hend, hgrown, hsent⟩ := generate_generated 2 h hsigned
                (htries _ hown key hmem)
              refine ⟨congrArg WitnessPlugin.settings hplugin, c', base', [], hend, hgrown,
                fun note hnote => absurd hnote List.not_mem_nil, ?_⟩
              rw [List.append_nil]
              refine hsent.imp_right fun hblock => ?_
              obtain ⟨b, hsent, hproduced⟩ := hblock
              exact ⟨b, hsent, ⟨_, hown, key, hmem, hproduced⟩, Nat.le_of_not_lt hrate⟩

/-- **One look.** -/
theorem blockProductionLoop_looked {clock : Nat → TimePointSec} {budget headerSize nowFine : Nat}
    {base : Store} (h : Seated env c base n.node)
    (hsigned : n.plugin.productionSkipFlags.witnessSignature = false)
    (htries : ∀ name ∈ n.plugin.witnesses, ∀ key ∈ n.plugin.privateKeys,
      Tries { env with clock := clock } fuel n.plugin.productionSkipFlags budget headerSize
        (closestSecond nowFine) name key 2 n.node) :
    Looked env signId c base (closestSecond nowFine) n (n.blockProductionLoop
      { env with clock := clock } fuel signId budget headerSize nowFine).2 := by
  have hnamed : n.node.db.blockPostValidations.All (Db.Names env c) := h.readable.stands.validations
  have hlook : Ends (fun e => Looked env signId c base (closestSecond nowFine) n e.2)
      (fun r => Looked env signId c base (closestSecond nowFine) n r.2)
      (n.maybeProduceBlock { env with clock := clock } fuel signId budget headerSize nowFine) := by
    unfold WitnessNode.maybeProduceBlock
    dsimp only
    split
    · have hstart := @postValidate_vouching env signId c
        { n with plugin := { n.plugin with productionEnabled := true } } nowFine hnamed
      refine Ends.bind (hstart.mono (fun e he => ?_) fun m hm => hm) fun m hm => ?_
      · obtain ⟨p, hp, hvouching⟩ := he
        have hseated : Seated env c base e.2.node := hvouching.node ▸ h
        exact (hvouching.looked (.refl hseated)).of_plugin hp
      · obtain ⟨p, hp, hvouching⟩ := hm
        have hmp : m.plugin = p := hvouching.plugin
        obtain ⟨hwitnesses, hkeys, -, hflags⟩ := WitnessPlugin.settings_eq_iff.1 hp
        have hend := @produceAt_looked env fuel signId c m clock budget headerSize
          (closestSecond nowFine) base (hvouching.node ▸ h) (by rw [hmp, hflags]; exact hsigned)
          (by rw [hmp, hwitnesses, hkeys, hflags, hvouching.node]; exact htries)
        exact hend.mono (fun e he => (hvouching.looked he).of_plugin hp)
          fun r hr => (hvouching.looked hr).of_plugin hp
    · exact .refl h
  unfold WitnessNode.blockProductionLoop
  cases hrun : n.maybeProduceBlock { env with clock := clock } fuel signId budget headerSize
      nowFine with
  | ok r => exact hlook.of_ok hrun
  | error e => exact hlook.of_error hrun

end

/-! ## Runs -/

/-- What happens to a node with the plugin: something that happens to any node, or a look with the
clock of its time. -/
inductive WitnessAct
  | act (a : Act)
  | look (clock : Nat → TimePointSec) (budget headerSize nowFine : Nat)

/-- The blocks among what has been sent. -/
def blocksOf (sent : List Sent) : List SignedBlock :=
  sent.filterMap fun
    | .block b => some b
    | .postValidation _ _ _ => none

namespace WitnessAct

/-- The node after it. -/
def run (env : Env) (fuel : Nat) (signId : SigningKey → BlockId → Nat) (n : WitnessNode) :
    WitnessAct → WitnessNode
  | .act a => { n with node := a.run env fuel n.node }
  | .look clock budget headerSize nowFine =>
    (n.blockProductionLoop { env with clock := clock } fuel signId budget headerSize nowFine).2

/-- The plugin signs its blocks, and what it generates is pushed as other blocks are. -/
def Smooth (env : Env) (fuel : Nat) (n : WitnessNode) : WitnessAct → Prop
  | .act a => a.Smooth env fuel n.node
  | .look clock budget headerSize nowFine =>
    n.plugin.productionSkipFlags.witnessSignature = false ∧
      ∀ name ∈ n.plugin.witnesses, ∀ key ∈ n.plugin.privateKeys,
        Tries { env with clock := clock } fuel n.plugin.productionSkipFlags budget headerSize
          (closestSecond nowFine) name key 2 n.node

/-- The second of a look. -/
def second? : WitnessAct → Option TimePointSec
  | .act _ => none
  | .look _ _ _ nowFine => some (closestSecond nowFine)

variable {env : Env} {fuel : Nat} {signId : SigningKey → BlockId → Nat} {n : WitnessNode}

theorem run_standing {a : WitnessAct} (h : Act.Standing env n.node) (ha : a.Smooth env fuel n) :
    Act.Standing env (a.run env fuel signId n).node := by
  cases a with
  | act a => exact (Act.run_standing h ha).1
  | look clock budget headerSize nowFine =>
    obtain ⟨c, base, hseated⟩ := h
    obtain ⟨-, c', base', notes, hend, -⟩ :=
      @blockProductionLoop_looked env fuel signId c n clock budget headerSize nowFine base hseated
        ha.1 ha.2
    exact ⟨c', base', hend⟩

/-- The settings stay what they are. -/
theorem run_settings {a : WitnessAct} (h : Act.Standing env n.node) (ha : a.Smooth env fuel n) :
    (a.run env fuel signId n).plugin.settings = n.plugin.settings := by
  cases a with
  | act a => rfl
  | look clock budget headerSize nowFine =>
    obtain ⟨c, base, hseated⟩ := h
    exact (@blockProductionLoop_looked env fuel signId c n clock budget headerSize nowFine base
      hseated ha.1 ha.2).settings

/-- Before every look of a run the node is at the end of a chain. -/
theorem run_looked {acts early : List WitnessAct} {clock : Nat → TimePointSec}
    {budget headerSize nowFine : Nat} (h : Act.Standing env n.node)
    (hacts : Guarded (run env fuel signId) (Smooth env fuel) n acts)
    (hlook : early ++ [.look clock budget headerSize nowFine] <+: acts) :
    ∃ c base, Seated env c base (Lib.run (run env fuel signId) n early).node ∧
      Looked env signId c base (closestSecond nowFine) (Lib.run (run env fuel signId) n early)
        (Lib.run (run env fuel signId) n (early ++ [.look clock budget headerSize nowFine])) := by
  obtain ⟨late, rfl⟩ := hlook
  obtain ⟨hsofar, -⟩ := guarded_append.1 hacts
  obtain ⟨hearly, hlook⟩ := guarded_snoc.1 hsofar
  have hstanding : Act.Standing env (Lib.run (run env fuel signId) n early).node :=
    run_invariant (I := fun n : WitnessNode => Act.Standing env n.node) h
      (fun n a hn ha => run_standing hn ha) hearly
  obtain ⟨c, base, hseated⟩ := hstanding
  rw [run_snoc]
  exact ⟨c, base, hseated, blockProductionLoop_looked hseated hlook.1 hlook.2⟩

end WitnessAct

/-- **What a witness signs.**  Whatever happens to the node, every look sends signatures for blocks
of the node's own chain that wait for them, and then one block at most: the next one of that chain,
at the second of the look, with the key of the witness whose turn it is. -/
theorem production_right (env : Env) (fuel : Nat) (signId : SigningKey → BlockId → Nat)
    {c : List SignedBlock} {n : WitnessNode} (h : Rested env c n.node) {acts : List WitnessAct}
    (hacts : Guarded (WitnessAct.run env fuel signId) (WitnessAct.Smooth env fuel) n acts)
    {early : List WitnessAct} {clock : Nat → TimePointSec} {budget headerSize nowFine : Nat}
    (hlook : early ++ [.look clock budget headerSize nowFine] <+: acts) :
    ∃ before after : WitnessNode, before = run (WitnessAct.run env fuel signId) n early ∧
      after = run (WitnessAct.run env fuel signId) n
        (early ++ [.look clock budget headerSize nowFine]) ∧
      ∃ chain chain' notes, (links env).Linked chain' ∧
        before.node.db.headMark = (chain.length, (links env).tip chain) ∧
        after.node.db.headMark = (chain'.length, (links env).tip chain') ∧
        (∀ note ∈ notes, note.Vouched env signId chain before.node.db before.plugin) ∧
        (after.sent = before.sent ++ notes ∧ chain' = chain ∨
          ∃ b, after.sent = before.sent ++ notes ++ [.block b] ∧
            Turn env chain chain' (closestSecond nowFine) before b) := by
  obtain ⟨chain, base, hseated, -, chain', base', notes, hend, -, hnotes, hsent⟩ :=
    WitnessAct.run_looked ⟨c, n.node.toStore, h.seated⟩ hacts hlook
  have hbefore := hseated.readable
  have hafter := hend.readable
  exact ⟨_, _, rfl, rfl, chain, chain', notes, hafter.linked, hbefore.stands.mark,
    hafter.stands.mark, hnotes, hsent⟩

/-- alice's key. -/
def aliceKey : SigningKey := ⟨7, fun _ => 7⟩

/-- A node on which alice makes blocks, before its first one. -/
def aliceNode : WitnessNode where
  node := newNode ["alice"]
  plugin :=
    { witnesses := ["alice"], privateKeys := [aliceKey], requiredWitnessParticipation := 0
      productionEnabled := true }

/-- The plugin looks at its clock. -/
def lookAt (nowFine : Nat) : WitnessAct := .look (fun _ => 33) 1 100 nowFine

/-- alice makes a block and gets a post-validation of it, and then she makes the next one. -/
def aliceRun : List WitnessAct :=
  [lookAt 30100000, .act (.postValidation ⟨1, 30⟩ "alice"), lookAt 33100000]

/-- A block is generated with alice's key. -/
def Generates (n : Node) (time : TimePointSec) : Bool :=
  returns (n.generateBlock { smallEnv with clock := fun _ => 33 } 3 {} 1 100 time "alice" aliceKey)
    fun _ => true

theorem smooth_of_generates {n : WitnessNode} {nowFine : Nat}
    (hsettings : n.plugin.settings = aliceNode.plugin.settings)
    (h : Generates n.node (closestSecond nowFine) = true) :
    (lookAt nowFine).Smooth smallEnv 3 n := by
  obtain ⟨hwitnesses, hkeys, -, hflags⟩ := WitnessPlugin.settings_eq_iff.1 hsettings
  obtain ⟨r, hr, -⟩ := returns_eq_true h
  simp only [lookAt, WitnessAct.Smooth, hwitnesses, hkeys, hflags]
  refine ⟨rfl, fun name hname key hkey => ?_⟩
  rw [List.mem_singleton.1 hname, List.mem_singleton.1 hkey]
  exact .of_generated ⟨rfl, rfl, rfl⟩ hr

theorem aliceRun_guarded : Guarded (WitnessAct.run smallEnv 3 fun _ id => id.num)
    (WitnessAct.Smooth smallEnv 3) aliceNode aliceRun := by
  have hstart : Act.Standing smallEnv aliceNode.node := ⟨[], _, (newNode_rested smallEnv _).seated⟩
  have hfirst : (lookAt 30100000).Smooth smallEnv 3 aliceNode :=
    smooth_of_generates rfl (by decide +kernel)
  have hsettings := @WitnessAct.run_settings smallEnv 3 (fun _ id => id.num) _ _ hstart hfirst
  have hstanding := @WitnessAct.run_standing smallEnv 3 (fun _ id => id.num) _ _ hstart hfirst
  refine ⟨hfirst, ?_⟩
  generalize hone : WitnessAct.run smallEnv 3 (fun _ id => id.num) aliceNode (lookAt 30100000) = one
    at *
  have hvalidation : returns (one.node.applyBlockPostValidation smallEnv ⟨1, 30⟩ "alice")
      (fun _ => true) = true := by
    rw [← hone]
    decide +kernel
  obtain ⟨s, hs, -⟩ := returns_eq_true hvalidation
  have hsecond : WitnessAct.Smooth smallEnv 3 one (.act (.postValidation ⟨1, 30⟩ "alice")) :=
    ⟨s, hs⟩
  have hsame := @WitnessAct.run_settings smallEnv 3 (fun _ id => id.num) _ _ hstanding hsecond
  refine ⟨hsecond, ?_⟩
  generalize htwo : WitnessAct.run smallEnv 3 (fun _ id => id.num) one
    (.act (.postValidation ⟨1, 30⟩ "alice")) = two at *
  have hthird : Generates two.node (closestSecond 33100000) = true := by
    rw [← htwo, ← hone]
    decide +kernel
  exact ⟨smooth_of_generates (hsame.trans hsettings) hthird, trivial⟩

theorem production_right_aliceRun :
    ∃ before after : WitnessNode,
      before = run (WitnessAct.run smallEnv 3 fun _ id => id.num) aliceNode (aliceRun.take 2) ∧
      after = run (WitnessAct.run smallEnv 3 fun _ id => id.num) aliceNode aliceRun ∧
      ∃ chain chain' notes, (links smallEnv).Linked chain' ∧
        before.node.db.headMark = (chain.length, (links smallEnv).tip chain) ∧
        after.node.db.headMark = (chain'.length, (links smallEnv).tip chain') ∧
        (∀ note ∈ notes,
          note.Vouched smallEnv (fun _ id => id.num) chain before.node.db before.plugin) ∧
        (after.sent = before.sent ++ notes ∧ chain' = chain ∨
          ∃ b, after.sent = before.sent ++ notes ++ [.block b] ∧
            Turn smallEnv chain chain' (closestSecond 33100000) before b) :=
  @production_right smallEnv 3 (fun _ id => id.num) [] aliceNode (newNode_rested smallEnv _) aliceRun
    aliceRun_guarded (aliceRun.take 2) (fun _ => 33) 1 100 33100000 (List.prefix_refl aliceRun)

/-! ## Blocks that are sent -/

theorem blocksOf_append (sent notes : List Sent) :
    blocksOf (sent ++ notes) = blocksOf sent ++ blocksOf notes :=
  List.filterMap_append

/-- One block is sent at most, and it is for the time `now`. -/
def Sends (now : TimePointSec) (n n' : WitnessNode) : Prop :=
  blocksOf n'.sent = blocksOf n.sent ∨
    ∃ b, blocksOf n'.sent = blocksOf n.sent ++ [b] ∧ b.timestamp = now

section

variable {env : Env} {fuel : Nat} {signId : SigningKey → BlockId → Nat} {n n' : WitnessNode}

theorem validateFor_blocks {name : AccountName} (h : n.validateFor signId name = .ok n') :
    blocksOf n'.sent = blocksOf n.sent := by
  obtain ⟨validations, -, h⟩ := (bind_eq_ok _ _ _).1 h
  obtain ⟨w, -, h⟩ := (bind_eq_ok _ _ _).1 h
  cases hkey : n.plugin.findKey w.signingKey with
  | none =>
    rw [hkey] at h
    cases h
    rfl
  | some key =>
    rw [hkey] at h
    cases h
    have hnone : ∀ l : List BlockPostValidationObject, blocksOf (l.map fun v =>
        .postValidation v.blockId name (signId key v.blockId)) = [] := by
      intro l
      induction l with
      | nil => rfl
      | cons v l ih => exact ih
    rw [blocksOf_append, hnone, List.append_nil]

theorem validateAll_blocks (names : List AccountName) :
    Ends (fun e => blocksOf e.2.sent = blocksOf n.sent) (fun m => blocksOf m.sent = blocksOf n.sent)
      (WitnessNode.validateAll signId names n) := by
  induction names generalizing n with
  | nil => rfl
  | cons name names ih =>
    unfold WitnessNode.validateAll
    cases hrun : n.validateFor signId name with
    | error e => rfl
    | ok m =>
      have hfirst := validateFor_blocks hrun
      exact (@ih m).mono (fun e he => he.trans hfirst) fun m' hm' => hm'.trans hfirst

theorem postValidate_blocks {nowFine : Nat} :
    Ends (fun e => blocksOf e.2.sent = blocksOf n.sent) (fun m => blocksOf m.sent = blocksOf n.sent)
      (n.postValidate signId nowFine) := by
  unfold WitnessNode.postValidate
  split
  · exact @validateAll_blocks signId _ n.plugin.witnesses
  · rfl

/-- **Generating a block**: what is sent comes from the last try. -/
theorem generate_sends {budget headerSize : Nat} {time : TimePointSec} {witnessOwner : AccountName}
    {key : SigningKey} (tries : Nat) :
    Sends time n (n.generate env fuel budget headerSize time witnessOwner key tries).2 := by
  induction tries generalizing n with
  | zero => exact .inl rfl
  | succ tries ih =>
    unfold WitnessNode.generate
    cases hrun : n.node.generateBlock env fuel n.plugin.productionSkipFlags budget headerSize time
        witnessOwner key with
    | error e =>
      have hagain := @ih { n with node := e.2.clearPending }
      exact hagain
    | ok r =>
      obtain ⟨m, b⟩ := r
      refine .inr ⟨b, blocksOf_append _ _, ?_⟩
      rcases generateBlock_cases env fuel n.plugin.productionSkipFlags budget headerSize time
        witnessOwner key n.node with ⟨e, m', hthrown, -⟩ | ⟨m', b', hassemble, hpushed⟩
      · cases hthrown.symm.trans hrun
      · rw [hpushed] at hrun
        obtain ⟨r, -, hr⟩ := (bind_eq_ok _ _ _).1 hrun
        cases hr
        obtain ⟨-, -, -, w, trxs, -, rfl⟩ := assembleBlock_eq_ok hassemble
        unfold signedBlock
        dsimp only
        split
        · rfl
        · rfl

theorem produceAt_sends {budget headerSize : Nat} {now : TimePointSec} :
    Ends (fun e => Sends now n e.2) (fun r => Sends now n r.2)
      (n.produceAt env fuel budget headerSize now) := by
  unfold WitnessNode.produceAt
  dsimp only
  split
  · exact .inl rfl
  · split
    · exact .inl rfl
    · cases n.node.db.getWitness (n.node.db.getScheduledWitness (n.node.db.getSlotAtTime now)) with
      | error e => exact .inl rfl
      | ok w =>
        dsimp only
        cases n.plugin.findKey w.signingKey with
        | none => exact .inl rfl
        | some key =>
          dsimp only
          split
          · exact .inl rfl
          · split
            · exact .inl rfl
            · rename_i hlag
              rw [eq_of_lag hlag]
              exact generate_sends 2

/-- **One look**, on whatever node. -/
theorem blockProductionLoop_sends {budget headerSize nowFine : Nat} :
    Sends (closestSecond nowFine) n
      (n.blockProductionLoop env fuel signId budget headerSize nowFine).2 := by
  have hlook : Ends (fun e => Sends (closestSecond nowFine) n e.2)
      (fun r => Sends (closestSecond nowFine) n r.2)
      (n.maybeProduceBlock env fuel signId budget headerSize nowFine) := by
    unfold WitnessNode.maybeProduceBlock
    dsimp only
    split
    · have hstart := @postValidate_blocks signId
        { n with plugin := { n.plugin with productionEnabled := true } } nowFine
      refine Ends.bind (hstart.mono (fun e he => .inl he) fun m hm => hm) fun m hm => ?_
      have hsame : ∀ {m' : WitnessNode}, Sends (closestSecond nowFine) m m' →
          Sends (closestSecond nowFine) n m' := by
        intro m' hm'
        unfold Sends at hm' ⊢
        rw [hm] at hm'
        exact hm'
      exact produceAt_sends.mono (fun e he => hsame he) fun r hr => hsame hr
    · exact .inl rfl
  unfold WitnessNode.blockProductionLoop
  cases hrun : n.maybeProduceBlock env fuel signId budget headerSize nowFine with
  | ok r => exact hlook.of_ok hrun
  | error e => exact hlook.of_error hrun

end

/-- **No two blocks for one slot.**  When the looks come in different seconds, one after the other,
the blocks that the node sends are for later and later times, whatever happens in between. -/
theorem signs_once (env : Env) (fuel : Nat) (signId : SigningKey → BlockId → Nat) {n : WitnessNode}
    (hsent : n.sent = []) {acts : List WitnessAct}
    (hclock : (acts.filterMap WitnessAct.second?).Pairwise (· < ·)) :
    (blocksOf (run (WitnessAct.run env fuel signId) n acts).sent).Pairwise
        (fun a b => a.timestamp < b.timestamp) ∧
      ∀ b ∈ blocksOf (run (WitnessAct.run env fuel signId) n acts).sent,
        b.timestamp ∈ acts.filterMap WitnessAct.second? := by
  induction acts using List.reverseRecOn with
  | nil =>
    rw [run_nil, hsent]
    exact ⟨.nil, fun b hb => absurd hb List.not_mem_nil⟩
  | append_singleton acts a ih =>
    rw [List.filterMap_append, List.pairwise_append] at hclock
    obtain ⟨hearly, -, hlater⟩ := hclock
    obtain ⟨hsorted, hseconds⟩ := ih hearly
    rw [List.filterMap_append, run_snoc]
    cases a with
    | act a => exact ⟨hsorted, fun b hb => List.mem_append_left _ (hseconds b hb)⟩
    | look clock budget headerSize nowFine =>
      rcases @blockProductionLoop_sends { env with clock := clock } fuel signId
        (run (WitnessAct.run env fuel signId) n acts) budget headerSize nowFine with
        hsame | ⟨b, hnext, htime⟩
      · change (blocksOf (WitnessNode.blockProductionLoop _ _ _ _ _ _ _).2.sent).Pairwise _ ∧
          ∀ b ∈ blocksOf (WitnessNode.blockProductionLoop _ _ _ _ _ _ _).2.sent, _
        rw [hsame]
        exact ⟨hsorted, fun b hb => List.mem_append_left _ (hseconds b hb)⟩
      · change (blocksOf (WitnessNode.blockProductionLoop _ _ _ _ _ _ _).2.sent).Pairwise _ ∧
          ∀ b ∈ blocksOf (WitnessNode.blockProductionLoop _ _ _ _ _ _ _).2.sent, _
        have hmem : closestSecond nowFine ∈
            [WitnessAct.look clock budget headerSize nowFine].filterMap WitnessAct.second? :=
          List.mem_cons_self
        rw [hnext]
        refine ⟨List.pairwise_append.2 ⟨hsorted, List.pairwise_singleton _ _, ?_⟩, ?_⟩
        · intro x hx y hy
          rw [List.mem_singleton.1 hy, htime]
          exact hlater x.timestamp (hseconds x hx) _ hmem
        · intro x hx
          rcases List.mem_append.1 hx with hold | hnew
          · exact List.mem_append_left _ (hseconds x hold)
          · rw [List.mem_singleton.1 hnew, htime]
            exact List.mem_append_right _ hmem

theorem signs_once_aliceRun :
    (blocksOf (run (WitnessAct.run smallEnv 3 fun _ id => id.num) aliceNode aliceRun).sent).Pairwise
        (fun a b => a.timestamp < b.timestamp) ∧
      ∀ b ∈ blocksOf (run (WitnessAct.run smallEnv 3 fun _ id => id.num) aliceNode aliceRun).sent,
        b.timestamp ∈ aliceRun.filterMap WitnessAct.second? :=
  @signs_once smallEnv 3 (fun _ id => id.num) aliceNode rfl aliceRun (by decide +kernel)

example : (blocksOf (run (WitnessAct.run smallEnv 3 fun _ id => id.num) aliceNode
    aliceRun).sent).map (fun b => b.timestamp) = [30, 33] := by decide +kernel

end VizCore.Plugins
