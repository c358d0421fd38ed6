import VizCore.Chain.Panel

/-!
# What it costs to become a witness

A witness object comes into being through three operations.  One of them takes the declaration fee,
the other two set the properties that a witness votes for and create the object on the way.

* `declared_of_evaluate`: no other operation makes a witness;
* `evaluate_paysDeclaration`: an operation that makes a witness takes the fee unless it sets
  properties.
-/

namespace VizCore.Chain

open VizCore.Lib VizCore.Protocol

/-- The names of the witnesses. -/
def Db.declared (db : Db) : List AccountName := db.witnesses.rows.map (·.owner)

/-- The account has become a witness. -/
def Db.Declares (db db' : Db) (name : AccountName) : Prop :=
  db.findWitness name = none ∧ (db'.findWitness name).isSome = true

/-- The declaration fee has gone from the account to the committee fund. -/
structure Db.PaysDeclaration (db db' : Db) (name : AccountName) : Prop where
  balance : ∃ a a', db.findAccount name = some a ∧ db'.findAccount name = some a' ∧
    a'.balance = a.balance - db.medianProps.witnessDeclarationFee.amount
  fund : db'.dgp.committeeFund =
    db.dgp.committeeFund + db.medianProps.witnessDeclarationFee.amount

/-- The account whose properties the operation sets. -/
def publisher : Operation → Option AccountName
  | .chainPropertiesUpdate o => some o.owner
  | .versionedChainPropertiesUpdate o => some o.owner
  | _ => none

namespace Db

variable {fc : Fc} {db db' : Db} {name : AccountName}

/-! ## Witnesses stay as they are -/

theorem declared_eq (db : Db) : db.declared = db.panelBook.witnesses.rows.map (·.owner) := by
  unfold declared panelBook
  simp only [Table.image, List.map_map]
  rfl

theorem declared_of_panelBook (h : db'.panelBook = db.panelBook) : db'.declared = db.declared := by
  rw [declared_eq, declared_eq, h]

theorem declared_of_core (h : db'.core = db.core) : db'.declared = db.declared :=
  declared_of_panelBook (panelBook_of_core h)

theorem declared_of_view (h : db'.view .panel = db.view .panel) : db'.declared = db.declared :=
  declared_of_panelBook (congrArg Aspect.View.rest h)

/-- Changes of votes make no witness. -/
theorem declared_of_revotes (h : Revotes db db') : db'.declared = db.declared := by
  rw [declared_eq, declared_eq]
  unfold Revotes at h
  generalize db.panelBook = p at h
  generalize db'.panelBook = p' at h
  induction h with
  | refl => rfl
  | tail _ hstep ih =>
    obtain ⟨k, w, w', hw, hadjusted⟩ := hstep
    rw [← ih]
    refine Table.map_update _ _ k _ _ fun x hx => ?_
    cases hw.symm.trans hx
    exact hadjusted.owner

theorem registerAccount_declared {mk : Nat → AccountObject} {key : PublicKey}
    (h : db.registerAccount mk name key = .ok db') : db'.declared = db.declared := by
  simp only [registerAccount, createAccount, bind_eq_ok, require_bind_eq_ok, pure_eq_ok] at h
  obtain ⟨_, ⟨_, -, rfl⟩, rfl⟩ := h
  rfl

theorem createVesting_declared {tokens : Int} (h : db.createVesting name tokens = .ok db') :
    db'.declared = db.declared := declared_of_revotes (createVesting_revotes h)

theorem transfer_declared {o : TransferOperation} (h : transfer fc db o = .ok db') :
    db'.declared = db.declared := by
  simp only [transfer, bind_eq_ok] at h
  obtain ⟨sender, -, _, -, _, -, _, -, db₁, hfrom, db₂, hto, h⟩ := h
  have hpaid : db₂.declared = db.declared :=
    (declared_of_core (adjustBalance_core hto)).trans (declared_of_core (adjustBalance_core hfrom))
  split at h
  · simp only [createAnonymous, bind_eq_ok] at h
    obtain ⟨_, -, h⟩ := h
    split at h
    · rw [pure_eq_ok] at h
      rw [← h, hpaid]
    · simp only [bind_eq_ok] at h
      obtain ⟨⟨login, key, db₃⟩, hname, db₄, hreg, db₅, hpay, hvest⟩ := h
      have hnamed : db₃.declared = db₂.declared := by
        unfold anonymousAccount at hname
        split at hname
        · simp only [bind_eq_ok, pure_eq_ok, Prod.mk.injEq] at hname
          obtain ⟨_, -, _, -, _, -, _, -, -, -, rfl⟩ := hname
          rfl
        · simp only [bind_eq_ok, pure_eq_ok, Prod.mk.injEq] at hname
          obtain ⟨_, -, _, -, _, -, -, -, rfl⟩ := hname
          exact declared_of_core (storeAccountJsonMetadata_core db₂ _ _ _)
      rw [createVesting_declared hvest, declared_of_core (adjustBalance_core hpay),
        registerAccount_declared hreg, hnamed, hpaid]
  · rw [pure_eq_ok] at h
    rw [← h, hpaid]

theorem transferToVesting_declared {o : TransferToVestingOperation}
    (h : db.transferToVesting o = .ok db') : db'.declared = db.declared := by
  simp only [transferToVesting, bind_eq_ok] at h
  obtain ⟨_, -, _, -, _, -, db₁, hpay, hvest⟩ := h
  rw [createVesting_declared hvest, declared_of_core (adjustBalance_core hpay)]

theorem accountCreate_declared {o : AccountCreateOperation} (h : db.accountCreate o = .ok db') :
    db'.declared = db.declared := by
  obtain ⟨_, db₁, _, -, -, -, -, hcore, hvest⟩ := accountCreate_core h
  have hopened : db₁.declared = db.declared := by
    apply declared_of_panelBook
    exact congrArg (fun c : Core => PanelRest.mk c.panel c.penalties c.virtualTime) hcore
  rcases hvest with hvest | rfl
  · rw [createVesting_declared hvest, hopened]
  · exact hopened

theorem useInviteBalance_declared {o : InviteBalanceOperation}
    (h : useInviteBalance fc db o = .ok db') : db'.declared = db.declared := by
  simp only [useInviteBalance, bind_eq_ok, pure_eq_ok] at h
  obtain ⟨_, -, _, -, _, -, db₁, hvest, rfl⟩ := h
  have hkept := createVesting_declared hvest
  exact hkept

theorem inviteRegistration_declared {o : InviteRegistrationOperation}
    (h : inviteRegistration fc db o = .ok db') : db'.declared = db.declared := by
  simp only [inviteRegistration, bind_eq_ok, pure_eq_ok] at h
  obtain ⟨_, -, _, -, db₁, hreg, db₂, hvest, rfl⟩ := h
  have hkept := (createVesting_declared hvest).trans (registerAccount_declared hreg)
  exact hkept

theorem payBeneficiaries_declared {tokens total total' : Int} {l : List BeneficiaryRoute}
    (h : payBeneficiaries tokens l total db = .ok (total', db')) :
    db'.declared = db.declared := by
  induction l generalizing total db with
  | nil =>
    cases h
    rfl
  | cons b rest ih =>
    simp only [payBeneficiaries, bind_eq_ok] at h
    obtain ⟨_, -, part, -, db₁, hvest, a, -, awards, -, sum, -, hrest⟩ := h
    have hvested := createVesting_declared hvest
    have hpaid := ih hrest
    exact hpaid.trans hvested

theorem payReceiver_declared {receiver : AccountName} {tokens : Int}
    (h : payReceiver receiver tokens db = .ok db') : db'.declared = db.declared := by
  unfold payReceiver at h
  split at h
  · simp only [bind_eq_ok, pure_eq_ok] at h
    obtain ⟨db₁, hvest, a, -, awards, -, rfl⟩ := h
    have hkept := createVesting_declared hvest
    exact hkept
  · cases h
    rfl

theorem claims_declared (h : db.Claims db') : db'.declared = db.declared :=
  declared_of_view (view_of_withoutRewards (by decide) h.core)

theorem award_declared {producing : Bool} {o : AwardOperation}
    (h : db.award producing o = .ok db') : db'.declared = db.declared := by
  simp only [award, bind_eq_ok] at h
  obtain ⟨_, -, _, -, _, -, _, -, _, -, _, hrshares, ⟨tokens, db₁⟩, hclaim, h⟩ := h
  have hclaimed := claims_declared (claimCountedAward_claims (rsharesOf_inInt64 hrshares) hclaim)
  split at h
  · simp only [bind_eq_ok] at h
    obtain ⟨_, -, ⟨total, db₂⟩, hparts, _, -, hrest⟩ := h
    have hpaid := (payReceiver_declared hrest).trans (payBeneficiaries_declared hparts)
    exact hpaid.trans hclaimed
  · rw [pure_eq_ok] at h
    rw [← h]
    exact hclaimed

theorem fixedAward_declared {producing : Bool} {o : FixedAwardOperation}
    (h : db.fixedAward producing o = .ok db') : db'.declared = db.declared := by
  simp only [fixedAward, bind_eq_ok] at h
  obtain ⟨quote, hquote, ⟨tokens, db₁⟩, hclaim, _, -, _, -, _, -, _, -, ⟨total, db₂⟩, hparts, _, -,
    db₃, hrest, h⟩ := h
  have hclaimed := claims_declared (.inr ⟨_, _, fixedAwardQuote_inInt64 hquote, hclaim⟩)
  have hpaid : db₃.declared = db.declared := by
    have hkept := (payReceiver_declared hrest).trans (payBeneficiaries_declared hparts)
    exact hkept.trans hclaimed
  split at h
  · rw [declared_of_core (addCommitteeFund_core h), hpaid]
  · rw [pure_eq_ok] at h
    rw [← h, hpaid]

theorem buyAccount_declared {clock : TimePointSec} {o : BuyAccountOperation}
    (h : buyAccount fc clock db o = .ok db') : db'.declared = db.declared := by
  simp only [buyAccount, bind_eq_ok] at h
  obtain ⟨_, -, _, -, _, -, h⟩ := h
  split at h
  · simp only [buyExisting, bind_eq_ok] at h
    obtain ⟨_, -, _, -, _, -, _, -, h⟩ := h
    split at h
    · exact declared_of_view (bidAccount_view (by decide) (by decide) h)
    · simp only [buyNow, bind_eq_ok, pure_eq_ok] at h
      obtain ⟨_, -, _, -, _, -, _, -, _, -, db₁, hpay, db₂, hdebit, db₃, hvest, rfl⟩ := h
      have hkept : db₃.declared = db.declared := by
        rw [createVesting_declared hvest, declared_of_core (adjustBalance_core hdebit),
          declared_of_core (payPrice_core hpay)]
      exact hkept
  · simp only [buySubaccount, bind_eq_ok] at h
    obtain ⟨_, -, _, -, _, -, _, -, _, -, _, -, _, -, _, -, _, -, _, -, db₁, hpay, db₂, hregister,
      db₃, hdebit, hvest⟩ := h
    rw [createVesting_declared hvest, declared_of_core (adjustBalance_core hdebit),
      registerAccount_declared hregister, declared_of_core (payPrice_core hpay)]

/-! ## Every operation -/

/-- The operations that may make a witness. -/
def declarer : Operation → Option AccountName
  | .witnessUpdate o => some o.owner
  | op => publisher op

/-- **No other operation** makes a witness. -/
theorem declared_of_evaluate {producing : Bool} {clock : TimePointSec} {op : Operation}
    (hop : declarer op = none) (h : evaluate fc producing clock db op = .ok db') :
    db'.declared = db.declared := by
  cases op with
  | vote o => cases h
  | content o => cases h
  | deleteContent o => cases h
  | transfer o => exact transfer_declared h
  | transferToVesting o => exact transferToVesting_declared h
  | withdrawVesting o => exact declared_of_view (withdrawVesting_view (by decide) (by decide) h)
  | setWithdrawVestingRoute o => exact declared_of_view (setWithdrawVestingRoute_view (by decide) h)
  | accountCreate o => exact accountCreate_declared h
  | accountUpdate o => exact declared_of_view (accountUpdate_view (by decide) (by decide) h)
  | accountMetadata o => exact declared_of_core (accountMetadataUpdate_core h)
  | witnessUpdate o => cases hop
  | accountWitnessVote o => exact declared_of_revotes (accountWitnessVote_revotes h)
  | accountWitnessProxy o => exact declared_of_revotes (accountWitnessProxy_revotes h)
  | custom o => exact declared_of_core (custom_core h)
  | requestAccountRecovery o => exact declared_of_view (requestAccountRecovery_view (by decide) h)
  | recoverAccount o => exact declared_of_view (recoverAccount_view (by decide) h)
  | changeRecoveryAccount o => exact declared_of_view (changeRecoveryAccount_view (by decide) h)
  | escrowTransfer o => exact declared_of_core (escrowTransfer_core h)
  | escrowApprove o => exact declared_of_core (escrowApprove_core h)
  | escrowDispute o => exact declared_of_core (escrowDispute_core h)
  | escrowRelease o => exact declared_of_core (escrowRelease_core h)
  | delegateVestingShares o =>
    exact declared_of_view (delegateVestingShares_view (by decide) (by decide) h)
  | proposalDelete o =>
    simp only [evaluate, proposalDelete, bind_eq_ok, pure_eq_ok] at h
    obtain ⟨p, -, _, -, rfl⟩ := h
    rfl
  | chainPropertiesUpdate o => cases hop
  | versionedChainPropertiesUpdate o => cases hop
  | committeeWorkerCreateRequest o =>
    exact declared_of_view (view_of_withoutRequests (by decide) (committeeWorkerCreateRequest_core h))
  | committeeWorkerCancelRequest o =>
    exact declared_of_view (view_of_withoutRequests (by decide) (committeeWorkerCancelRequest_core h))
  | committeeVoteRequest o =>
    exact declared_of_view (view_of_withoutRequests (by decide) (committeeVoteRequest_core h))
  | createInvite o => exact declared_of_core (createInvite_core h)
  | claimInviteBalance o => exact declared_of_core (claimInviteBalance_core h)
  | inviteRegistration o => exact inviteRegistration_declared h
  | award o => exact award_declared h
  | setPaidSubscription o =>
    exact declared_of_view (view_of_withoutSubscribes (by decide) (setPaidSubscription_core h))
  | paidSubscribe o =>
    exact declared_of_view (view_of_withoutSubscribes (by decide) (paidSubscribe_core h))
  | setAccountPrice o => exact declared_of_view (setAccountPrice_view (by decide) (by decide) h)
  | setSubaccountPrice o => exact declared_of_core (setSubaccountPrice_core h)
  | buyAccount o => exact buyAccount_declared h
  | useInviteBalance o => exact useInviteBalance_declared h
  | fixedAward o => exact fixedAward_declared h
  | targetAccountSale o => exact declared_of_view (targetAccountSale_view (by decide) (by decide) h)
  | proposalCreate => cases h
  | proposalUpdate o => cases h

/-! ## The fee -/

theorem mem_declared_iff : name ∈ db.declared ↔ (db.findWitness name).isSome = true := by
  have hnone : db.findWitness name = none ↔ name ∉ db.declared := Table.get_eq_none_iff
  cases hfind : db.findWitness name with
  | none => exact iff_of_false (hnone.1 hfind) Bool.false_ne_true
  | some w =>
    refine iff_of_true ?_ rfl
    by_contra hno
    rw [hnone.2 hno] at hfind
    cases hfind

theorem not_declares_of_declared (h : db'.declared = db.declared) : ¬ db.Declares db' name := by
  rintro ⟨hbefore, hafter⟩
  rw [← mem_declared_iff, h, mem_declared_iff, hbefore] at hafter
  cases hafter

/-- A new witness is the only one. -/
theorem eq_of_declares {mk : Nat → WitnessObject} {owner : AccountName}
    (hdb : db'.witnesses = db.witnesses.create mk) (hmk : ∀ id, (mk id).owner = owner)
    (h : db.Declares db' name) : name = owner := by
  obtain ⟨hbefore, hafter⟩ := h
  rw [← mem_declared_iff] at hafter
  unfold declared at hafter
  rw [hdb] at hafter
  rcases List.mem_map.1 hafter with ⟨w, hw, rfl⟩
  rcases List.mem_append.1 hw with hold | hnew
  · have hmem : w.owner ∈ db.declared := List.mem_map_of_mem hold
    rw [mem_declared_iff, hbefore] at hmem
    cases hmem
  · rw [List.mem_singleton.1 hnew]
    exact hmk _

theorem declares_of_create {mk : Nat → WitnessObject} {owner : AccountName}
    (hdb : db'.witnesses = db.witnesses.create mk) (hmk : ∀ id, (mk id).owner = owner)
    (hnone : db.findWitness owner = none) : db.Declares db' owner := by
  refine ⟨hnone, ?_⟩
  rw [← mem_declared_iff]
  unfold declared
  rw [hdb]
  have hmem : owner ∈ (db.witnesses.rows ++ [mk db.witnesses.nextId]).map (·.owner) := by
    rw [List.map_append]
    exact List.mem_append_right _ (List.mem_singleton.2 (hmk _).symm)
  exact hmem

theorem payFee_pays {fee : Int} {msg : String} (h : db.payFee name fee msg = .ok db') :
    (∃ a a', db.findAccount name = some a ∧ db'.findAccount name = some a' ∧
      a'.balance = a.balance - fee) ∧ db'.dgp.committeeFund = db.dgp.committeeFund + fee ∧
      db'.witnesses = db.witnesses := by
  simp only [payFee, adjustBalance, addCommitteeFund, getAccount, bind_eq_ok, getOrThrow_eq_ok,
    safeAdd_eq_ok, pure_eq_ok] at h
  obtain ⟨a, ha, _, -, _, ⟨b, hb, _, ⟨-, rfl⟩, rfl⟩, _, ⟨-, rfl⟩, rfl⟩ := h
  obtain rfl : a = b := Option.some.inj (ha.symm.trans hb)
  have hget : (db.accounts.update (·.name) name
      fun x => { x with balance := a.balance + -fee }).get (·.name) name =
        (db.findAccount name).map fun x => { x with balance := a.balance + -fee } :=
    Table.get_update_same db.accounts (·.name) name
      (fun x => { x with balance := a.balance + -fee }) fun _ => rfl
  rw [ha] at hget
  exact ⟨⟨a, _, ha, hget, (sub_eq_add_neg _ _).symm⟩, rfl, rfl⟩

theorem witnessUpdate_pays {o : WitnessUpdateOperation} (h : db.witnessUpdate o = .ok db')
    (hdeclares : db.Declares db' name) : db.PaysDeclaration db' name := by
  simp only [witnessUpdate, bind_eq_ok] at h
  obtain ⟨_, -, h⟩ := h
  split at h
  · rw [pure_eq_ok] at h
    subst h
    have hsame := core_modifyWitness_of_same db o.owner
      (fun w => { w with url := o.url, signingKey := o.blockSigningKey }) fun _ => rfl
    exact absurd hdeclares (not_declares_of_declared (declared_of_core hsame))
  · simp only [bind_eq_ok, pure_eq_ok] at h
    obtain ⟨db₁, hfee, rfl⟩ := h
    obtain ⟨⟨a, a', ha, ha', hbalance⟩, hfund, hwitnesses⟩ := payFee_pays hfee
    let mk := fun id : Nat => ({ id := id, owner := o.owner, url := o.url
                                 signingKey := o.blockSigningKey
                                 created := db₁.headBlockTime } : WitnessObject)
    have hcreate : db₁.witnesses.create mk = db.witnesses.create mk := by rw [hwitnesses]
    have hname : name = o.owner := eq_of_declares hcreate (fun _ => rfl) hdeclares
    subst hname
    exact ⟨⟨a, a', ha, ha', hbalance⟩, hfund⟩

theorem updateProps_pays {owner : AccountName} {props : VersionedChainProperties}
    (h : db.updateProps owner props = .ok db') :
    (∀ name, db.Declares db' name → db.PaysDeclaration db' name) ↔
      (db.findWitness owner = none → db.medianProps.witnessDeclarationFee.amount = 0) := by
  simp only [updateProps, getAccount, bind_eq_ok, getOrThrow_eq_ok] at h
  obtain ⟨a, ha, h⟩ := h
  split at h
  · rename_i w hw
    rw [pure_eq_ok] at h
    subst h
    have hsame := core_modifyWitness_of_same db owner
      (fun w => { w with props := assignProps w.props props }) fun _ => rfl
    refine iff_of_true (fun name hdeclares => ?_) (fun hnone => ?_)
    · exact absurd hdeclares (not_declares_of_declared (declared_of_core hsame))
    · rw [hw] at hnone
      cases hnone
  · rename_i hnone
    rw [pure_eq_ok] at h
    let mk := fun id : Nat => ({ id := id, owner := owner, created := db.headBlockTime
                                 props := assignProps {} props } : WitnessObject)
    have hcreate : db'.witnesses = db.witnesses.create mk := by
      rw [← h]
    have haccount : db'.findAccount owner = some a := by
      rw [← h]
      exact ha
    have hfund : db'.dgp.committeeFund = db.dgp.committeeFund := by
      rw [← h]
    constructor
    · intro hpays _
      obtain ⟨⟨b, b', hb, hb', hbalance⟩, -⟩ :=
        hpays owner (declares_of_create hcreate (fun _ => rfl) hnone)
      obtain rfl : a = b := Option.some.inj (ha.symm.trans hb)
      obtain rfl : a = b' := Option.some.inj (haccount.symm.trans hb')
      omega
    · intro hzero name hdeclares
      obtain rfl := eq_of_declares hcreate (fun _ => rfl) hdeclares
      have hfee := hzero hnone
      refine ⟨⟨a, a, ha, haccount, ?_⟩, ?_⟩
      · rw [hfee, sub_zero]
      · rw [hfee, hfund, add_zero]

/-- **The declaration fee** is taken by every operation that makes a witness, unless it is one that
sets the properties of an account that is none and the fee is not zero. -/
theorem evaluate_paysDeclaration {producing : Bool} {clock : TimePointSec} {op : Operation}
    (h : evaluate fc producing clock db op = .ok db') :
    (∀ name, db.Declares db' name → db.PaysDeclaration db' name) ↔
      ∀ owner, publisher op = some owner → db.findWitness owner = none →
        db.medianProps.witnessDeclarationFee.amount = 0 := by
  have hone {owner : AccountName} {P : Prop} :
      (∀ owner', some owner = some owner' → db.findWitness owner' = none → P) ↔
        (db.findWitness owner = none → P) := by
    constructor
    · exact fun hall => hall owner rfl
    · intro hall owner' heq
      obtain rfl := Option.some.inj heq
      exact hall
  cases hdeclarer : declarer op with
  | none =>
    have hpublisher : publisher op = none := by
      cases op with
      | chainPropertiesUpdate o => cases hdeclarer
      | versionedChainPropertiesUpdate o => cases hdeclarer
      | _ => rfl
    refine iff_of_true (fun name hdeclares => ?_) fun owner heq => ?_
    · exact absurd hdeclares (not_declares_of_declared (declared_of_evaluate hdeclarer h))
    · rw [hpublisher] at heq
      cases heq
  | some owner =>
    cases op with
    | witnessUpdate o =>
      refine iff_of_true (fun name => witnessUpdate_pays h) fun owner heq => ?_
      cases heq
    | chainPropertiesUpdate o => exact (updateProps_pays h).trans hone.symm
    | versionedChainPropertiesUpdate o => exact (updateProps_pays h).trans hone.symm
    | _ => cases hdeclarer

end Db

/-- bob is no witness and can pay for it. -/
def candidate : Db := (smallStore [{ id := 4, name := "bob", balance := 20000 }]).db

def bobDeclares : Operation := .witnessUpdate ⟨"bob", "bob.example", 9⟩

def bobPublishes : Operation := .chainPropertiesUpdate ⟨"bob", {}⟩

theorem evaluate_paysDeclaration_bob :
    ∃ db', Db.evaluate smallEnv.fc false 33 candidate bobDeclares = .ok db' ∧
      candidate.Declares db' "bob" ∧ candidate.PaysDeclaration db' "bob" := by
  have hrun : returns (Db.evaluate smallEnv.fc false 33 candidate bobDeclares)
      (fun db' => (db'.findWitness "bob").isSome) = true := by decide +kernel
  obtain ⟨db', h, hafter⟩ := returns_eq_true hrun
  have hbefore : candidate.findWitness "bob" = none := by rfl
  refine ⟨db', h, ⟨hbefore, hafter⟩, ?_⟩
  exact (Db.evaluate_paysDeclaration h).2 (fun owner heq => by cases heq) "bob" ⟨hbefore, hafter⟩

/-- **bob becomes a witness for nothing.** -/
theorem publisher_paysNothing :
    ∃ db', Db.evaluate smallEnv.fc false 33 candidate bobPublishes = .ok db' ∧
      candidate.Declares db' "bob" ∧ ¬ candidate.PaysDeclaration db' "bob" := by
  have hrun : returns (Db.evaluate smallEnv.fc false 33 candidate bobPublishes)
      (fun db' => (db'.findWitness "bob").isSome && decide (db'.dgp.committeeFund =
        candidate.dgp.committeeFund)) = true := by decide +kernel
  obtain ⟨db', h, hafter⟩ := returns_eq_true hrun
  rw [Bool.and_eq_true, decide_eq_true_iff] at hafter
  refine ⟨db', h, ⟨by rfl, hafter.1⟩, ?_⟩
  rintro ⟨-, hfund⟩
  rw [hafter.2] at hfund
  have hfee : candidate.medianProps.witnessDeclarationFee.amount = 10000 := by rfl
  omega

end VizCore.Chain
