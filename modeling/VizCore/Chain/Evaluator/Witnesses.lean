import VizCore.Chain.Flow

/-!
# Witnesses and custom operations

Evaluators that declare witnesses, publish the chain properties they vote for, move
votes and proxies, and count custom operations.  The interpreters that plugins
register for custom operations keep objects of their own and are left out.

* `witnessUpdate_flow`: a declaration fee goes to the committee fund;
* `updateProps_flow`: validated properties keep the terms sound;
* votes, proxies and custom operations do not touch the ledger.
-/

namespace VizCore.Chain

open VizCore.Lib VizCore.Protocol

/-- The assignment of voted properties of any version: fields of later versions stay. -/
def assignProps (w : ChainPropertiesHf9) : VersionedChainProperties → ChainPropertiesHf9
  | .init p => { w with toChainPropertiesInit := p }
  | .hf4 p => { w with toChainPropertiesHf4 := p }
  | .hf6 p => { w with toChainPropertiesHf6 := p }
  | .hf9 p => p

namespace Db

/-! ## Declaring a witness -/

/-- `witness_update_evaluator::do_apply` -/
def witnessUpdate (db : Db) (o : WitnessUpdateOperation) : Result Db := do
  let _ ← db.getAccount o.owner
  match db.findWitness o.owner with
  | some _ =>
    return db.modifyWitness o.owner fun w => { w with url := o.url, signingKey := o.blockSigningKey }
  | none =>
    let db ← db.payFee o.owner db.medianProps.witnessDeclarationFee.amount
      "Account does not have sufficient funds to declare himself as witness: required $\x7ba\x7d."
    return { db with
      witnesses := db.witnesses.create fun id =>
        { id := id, owner := o.owner, url := o.url, signingKey := o.blockSigningKey
          created := db.headBlockTime } }

/-- The common part of the two evaluators that publish chain properties. -/
def updateProps (db : Db) (owner : AccountName) (props : VersionedChainProperties) :
    Result Db := do
  let _ ← db.getAccount owner
  match db.findWitness owner with
  | some _ => return db.modifyWitness owner fun w => { w with props := assignProps w.props props }
  | none =>
    return { db with
      witnesses := db.witnesses.create fun id =>
        { id := id, owner := owner, created := db.headBlockTime, props := assignProps {} props } }

/-- `chain_properties_update_evaluator::do_apply` -/
def chainPropertiesUpdate (db : Db) (o : ChainPropertiesUpdateOperation) : Result Db :=
  db.updateProps o.owner (.init o.props)

/-- `versioned_chain_properties_update_evaluator::do_apply` -/
def versionedChainPropertiesUpdate (db : Db) (o : VersionedChainPropertiesUpdateOperation) :
    Result Db :=
  db.updateProps o.owner o.props

/-! ## Proxies and votes -/

/-- The votes that an account casts or passes on, level by level. -/
def voteDelta (a : AccountObject) : List Int := a.vestingShares :: a.proxiedVsfVotes

def negDelta (delta : List Int) : Result (List Int) := delta.mapM (safeSub 0)

/-- The walk along the proxies of the new proxy; `chain` is the set of accounts met. -/
def checkProxyChain (db : Db) : Nat → AccountObject → List Nat → Result Unit
  | 0, _, _ => .error .outOfFuel
  | fuel + 1, cprox, chain =>
    if cprox.proxy = "" then .ok ()
    else do
      let next ← db.getAccount cprox.proxy
      fcAssert (next.id ∉ chain) "This proxy would create a proxy loop."
      fcAssert (chain.length + 1 ≤ maxProxyRecursionDepth) "Proxy chain is too long."
      checkProxyChain db fuel next (next.id :: chain)

def setProxy (db : Db) (name proxy : AccountName) : Db :=
  db.modifyAccount name fun a => { a with proxy := proxy }

/-- `account_witness_proxy_evaluator::do_apply` -/
def accountWitnessProxy (db : Db) (o : AccountWitnessProxyOperation) : Result Db := do
  let account ← db.getAccount o.account
  fcAssert (account.proxy ≠ o.proxy) "Proxy must change."
  let removed ← negDelta (voteDelta account)
  let db ← adjustProxiedWitnessVotesArray removed maxProxyRecursionDepth db o.account
  if o.proxy = "" then return db.setProxy o.account o.proxy
  else
    let newProxy ← db.getAccount o.proxy
    -- the chain has at most four accounts, so the walk makes at most three steps
    db.checkProxyChain (maxProxyRecursionDepth + 1) newProxy [account.id, newProxy.id].dedup
    let db ← db.clearWitnessVotes o.account
    let db := db.setProxy o.account o.proxy
    let added ← negDelta removed
    adjustProxiedWitnessVotesArray added maxProxyRecursionDepth db o.account

/-- A voter that has a proxy takes its votes back first. -/
def clearProxy (db : Db) (name : AccountName) : Result Db := do
  let voter ← db.getAccount name
  if voter.proxy = "" then return db
  else
    let removed ← negDelta (voteDelta voter)
    let db ← adjustProxiedWitnessVotesArray removed maxProxyRecursionDepth db name
    return db.setProxy name ""

/-- Add `delta` to every witness that the account votes for. -/
def adjustVotesOf (db : Db) (account : Nat) (delta : Int) : Result Db :=
  (db.votesOf account).foldlM (fun db v => db.adjustWitnessVote v.witness delta) db

/-- The new number of votes, the new fair weight, and the weight given to each witness. -/
def reweighVotes (db : Db) (name : AccountName) (count : Nat → Nat) : Result Db := do
  let db := db.modifyAccount name fun a => { a with witnessesVotedFor := count a.witnessesVotedFor }
  let voter ← db.getAccount name
  let weight ← voter.witnessVoteFairWeight
  let db := db.modifyAccount name fun a => { a with witnessesVoteWeight := weight }
  db.adjustVotesOf voter.id weight

/-- `account_witness_vote_evaluator::do_apply` -/
def accountWitnessVote (db : Db) (o : AccountWitnessVoteOperation) : Result Db := do
  let db ← db.clearProxy o.account
  let voter ← db.getAccount o.account
  let witness ← db.getWitness o.witness
  let weight ← safeSub 0 voter.witnessesVoteWeight
  match db.witnessVotes.get (fun v => (v.account, v.witness)) (voter.id, witness.id) with
  | none =>
    fcAssert (o.approve = true)
      "Vote doesn't exist, user must indicate a desire to approve witness."
    fcAssert (voter.witnessesVotedFor < 100) "Account has voted for too many witnesses."
    let db ← db.adjustVotesOf voter.id weight
    let db := { db with
      witnessVotes := db.witnessVotes.create fun id => ⟨id, witness.id, voter.id⟩ }
    db.reweighVotes o.account fun n => (n + 1) % 2 ^ 16
  | some vote =>
    fcAssert (o.approve = false)
      "Vote currently exists, user must indicate a desire to reject witness."
    let db ← db.adjustVotesOf voter.id weight
    let db := { db with witnessVotes := db.witnessVotes.erase (·.id) vote.id }
    db.reweighVotes o.account fun n => (n + 2 ^ 16 - 1) % 2 ^ 16

/-! ## Custom operations -/

def countCustom (db : Db) (name : AccountName) : Result Db := do
  let _ ← db.getAccount name
  return db.modifyAccount name fun a =>
    { a with
      customSequence := (a.customSequence + 1) % 2 ^ 64
      customSequenceBlockNum := 1 + db.headBlockNum }

/-- `custom_evaluator::do_apply` -/
def custom (db : Db) (o : CustomOperation) : Result Db :=
  (o.requiredActiveAuths ++ o.requiredRegularAuths).foldlM countCustom db

/-! ## What the evaluators do to the ledger -/

variable {fc : Fc} {g : Prop} {db db' : Db}

theorem setProxy_ledger (db : Db) (name proxy : AccountName) :
    (db.setProxy name proxy).ledger = db.ledger :=
  ledger_modifyAccount_of_same db name _ fun _ => rfl

theorem adjustProxiedWitnessVotesArray_ledger {delta : List Int} {levels : Nat}
    {name : AccountName} (h : adjustProxiedWitnessVotesArray delta levels db name = .ok db') :
    db'.ledger = db.ledger :=
  ledger_of_votesOnly (adjustProxiedWitnessVotesArray_votesOnly h)

theorem clearWitnessVotes_ledger {name : AccountName} (h : db.clearWitnessVotes name = .ok db') :
    db'.ledger = db.ledger := by
  simp only [clearWitnessVotes, bind_eq_ok, pure_eq_ok] at h
  obtain ⟨a, -, rfl⟩ := h
  have hsame := ledger_modifyAccount_of_same
    { db with witnessVotes := db.witnessVotes.filter (·.account ≠ a.id) } name
    (fun a => { a with witnessesVotedFor := 0, witnessesVoteWeight := 0 }) fun _ => rfl
  exact hsame

theorem accountWitnessProxy_ledger {o : AccountWitnessProxyOperation}
    (h : db.accountWitnessProxy o = .ok db') : db'.ledger = db.ledger := by
  simp only [accountWitnessProxy, bind_eq_ok] at h
  obtain ⟨_, -, _, -, _, -, db₁, hremove, h⟩ := h
  have hl₁ := adjustProxiedWitnessVotesArray_ledger hremove
  split at h
  · rw [pure_eq_ok] at h
    rw [← h, setProxy_ledger, hl₁]
  · simp only [bind_eq_ok] at h
    obtain ⟨_, -, _, -, db₂, hclear, _, -, hadd⟩ := h
    rw [adjustProxiedWitnessVotesArray_ledger hadd, setProxy_ledger,
      clearWitnessVotes_ledger hclear, hl₁]

theorem clearProxy_ledger {name : AccountName} (h : db.clearProxy name = .ok db') :
    db'.ledger = db.ledger := by
  simp only [clearProxy, bind_eq_ok] at h
  obtain ⟨_, -, h⟩ := h
  split at h
  · rw [pure_eq_ok] at h
    rw [h]
  · simp only [bind_eq_ok, pure_eq_ok] at h
    obtain ⟨_, -, db₁, hremove, rfl⟩ := h
    rw [setProxy_ledger, adjustProxiedWitnessVotesArray_ledger hremove]

theorem adjustVotesOf_ledger {account : Nat} {delta : Int}
    (h : db.adjustVotesOf account delta = .ok db') : db'.ledger = db.ledger :=
  foldlM_invariant (fun d => d.ledger = db.ledger) _ _
    (fun _ _ _ _ hs hv => (ledger_of_votesOnly (adjustWitnessVote_votesOnly hv)).trans hs)
    db db' rfl h

theorem reweighVotes_ledger {name : AccountName} {count : Nat → Nat}
    (h : db.reweighVotes name count = .ok db') : db'.ledger = db.ledger := by
  simp only [reweighVotes, bind_eq_ok] at h
  obtain ⟨_, -, weight, -, h⟩ := h
  refine (adjustVotesOf_ledger h).trans ?_
  refine (ledger_modifyAccount_of_same _ name _ ?_).trans ?_
  · exact fun _ => rfl
  · exact ledger_modifyAccount_of_same db name _ fun _ => rfl

theorem accountWitnessVote_ledger {o : AccountWitnessVoteOperation}
    (h : db.accountWitnessVote o = .ok db') : db'.ledger = db.ledger := by
  simp only [accountWitnessVote, bind_eq_ok] at h
  obtain ⟨db₁, hproxy, _, -, _, -, _, -, h⟩ := h
  have hl₁ := clearProxy_ledger hproxy
  split at h
  · simp only [bind_eq_ok] at h
    obtain ⟨_, -, _, -, db₂, hvotes, h⟩ := h
    have hl₂ := reweighVotes_ledger h
    exact hl₂.trans ((adjustVotesOf_ledger hvotes).trans hl₁)
  · simp only [bind_eq_ok] at h
    obtain ⟨_, -, db₂, hvotes, h⟩ := h
    have hl₂ := reweighVotes_ledger h
    exact hl₂.trans ((adjustVotesOf_ledger hvotes).trans hl₁)

theorem custom_ledger {o : CustomOperation} (h : db.custom o = .ok db') :
    db'.ledger = db.ledger := by
  refine foldlM_invariant (fun d => d.ledger = db.ledger) _ _ (fun name _ s s' hs hstep => ?_)
    db db' rfl h
  simp only [countCustom, bind_eq_ok, pure_eq_ok] at hstep
  obtain ⟨_, -, rfl⟩ := hstep
  refine (ledger_modifyAccount_of_same s name _ ?_).trans hs
  exact fun _ => rfl

/-! ## Fees and properties -/

/-- The default properties of a new witness. -/
theorem propsSound_default : PropsSound {} := by
  constructor <;> decide

theorem validatePercent_eq {x : Int} {name : String} (h : validatePercent x name = .ok ()) :
    0 ≤ x ∧ x ≤ 10000 := by
  simp only [validatePercent, bind_eq_ok, fcAssert_eq_ok] at h
  obtain ⟨_, hlow, hhigh⟩ := h
  exact ⟨hlow, hhigh⟩

theorem validateFee_eq {a : Asset} {name : String} (h : validateFee a name = .ok ()) :
    0 ≤ a.amount := by
  simp only [validateFee, bind_eq_ok, fcAssert_eq_ok] at h
  obtain ⟨_, hpos, -⟩ := h
  exact hpos.le

theorem hf4_validate_eq {p : ChainPropertiesHf4} (h : p.validate = .ok ()) :
    (0 ≤ p.inflationWitnessPercent ∧ p.inflationWitnessPercent ≤ 10000) ∧
      (0 ≤ p.inflationRatioCommitteeVsRewardFund ∧
        p.inflationRatioCommitteeVsRewardFund ≤ 10000) := by
  simp only [ChainPropertiesHf4.validate, bind_eq_ok] at h
  obtain ⟨_, -, _, hwitness, _, hratio, -⟩ := h
  exact ⟨validatePercent_eq hwitness, validatePercent_eq hratio⟩

theorem hf6_validate_eq {p : ChainPropertiesHf6} (h : p.validate = .ok ()) :
    p.toChainPropertiesHf4.validate = .ok () := by
  simp only [ChainPropertiesHf6.validate, bind_eq_ok] at h
  obtain ⟨_, hbase, -⟩ := h
  exact hbase

theorem hf9_validate_sound {p : ChainPropertiesHf9} (h : p.validate = .ok ()) : PropsSound p := by
  simp only [ChainPropertiesHf9.validate, bind_eq_ok] at h
  obtain ⟨_, hbase, _, -, _, hrequest, _, hsubscription, _, hsale, _, hsub, _, hwitness, -⟩ := h
  obtain ⟨hinflation, hratio⟩ := hf4_validate_eq (hf6_validate_eq hbase)
  exact ⟨validateFee_eq hrequest, validateFee_eq hsubscription, validateFee_eq hsale,
    validateFee_eq hsub, validateFee_eq hwitness, hinflation, hratio⟩

/-- Validated properties keep the fees and percentages of a witness sound. -/
theorem assignProps_sound {w : ChainPropertiesHf9} {props : VersionedChainProperties}
    (hw : PropsSound w) (hv : props.validate = .ok ()) : PropsSound (assignProps w props) := by
  cases props with
  | init p => exact { hw with }
  | hf4 p =>
    obtain ⟨hinflation, hratio⟩ := hf4_validate_eq hv
    exact { hw with inflation := hinflation, ratio := hratio }
  | hf6 p =>
    obtain ⟨hinflation, hratio⟩ := hf4_validate_eq (hf6_validate_eq hv)
    exact { hw with inflation := hinflation, ratio := hratio }
  | hf9 p => exact hf9_validate_sound hv

/-- A change of the witnesses that keeps their properties sound. -/
theorem witnesses_flow (t : Table WitnessObject)
    (ok : (db.witnesses.image (·.props)).All PropsSound → (t.image (·.props)).All PropsSound) :
    Flow fc g 0 0 db { db with witnesses := t } :=
  .of_move (.terms db.ledger { db.terms with witnessProps := t.image (·.props) }
    (fun _ hL => { hL.terms with witnesses := ok hL.terms.witnesses })
    fun hF => { hF with witnesses := ok hF.witnesses })

theorem createWitness_flow {mk : Nat → WitnessObject} (hmk : ∀ id, PropsSound (mk id).props) :
    Flow fc g 0 0 db { db with witnesses := db.witnesses.create mk } := by
  refine witnesses_flow _ fun h => ?_
  rw [Table.image_create]
  exact Table.all_create h (hmk _)

theorem witnessUpdate_flow {o : WitnessUpdateOperation} (h : db.witnessUpdate o = .ok db') :
    Flow fc db.Ready 0 0 db db' := by
  simp only [witnessUpdate, bind_eq_ok] at h
  obtain ⟨_, -, h⟩ := h
  split at h
  · rw [pure_eq_ok] at h
    subst h
    exact .of_ledger_eq (ledger_modifyWitness_of_same db o.owner _ fun _ => rfl)
  · simp only [bind_eq_ok, pure_eq_ok] at h
    obtain ⟨db₁, hfee, rfl⟩ := h
    have hpay : Flow fc db.Ready 0 0 db db₁ :=
      payFee_flow hfee fun hF => hF.terms.median.witness
    refine hpay.then_neutral ?_
    exact createWitness_flow fun _ => propsSound_default

theorem updateProps_flow {owner : AccountName} {props : VersionedChainProperties}
    (hv : props.validate = .ok ()) (h : db.updateProps owner props = .ok db') :
    Flow fc db.Ready 0 0 db db' := by
  simp only [updateProps, bind_eq_ok] at h
  obtain ⟨_, -, h⟩ := h
  split at h
  · rw [pure_eq_ok] at h
    subst h
    refine witnesses_flow _ fun hall => ?_
    intro p hp
    obtain ⟨w, hw, rfl⟩ := List.mem_map.1 hp
    rcases Table.mem_update hw with hw | ⟨w', hw', rfl⟩
    · exact hall _ (List.mem_map_of_mem hw)
    · exact assignProps_sound (hall _ (List.mem_map_of_mem (Table.get_mem hw'))) hv
  · rw [pure_eq_ok] at h
    subst h
    exact createWitness_flow fun _ => assignProps_sound propsSound_default hv

end Db

end VizCore.Chain
