import VizCore.Chain.Invariant

/-!
# Accounts that have been sold

A completed sale gives all authorities of the account to one key of the buyer and makes the
buyer the recovery partner.  What was asked for before the sale can still change that: a
pending change of the recovery account is not withdrawn.

* `Handed`: the buyer is in control, and no request for the account is pending;
* `sale_hands_over`: a sale at which no change of the recovery account is pending hands the
  account over, and without its new owners nothing changes that.
-/

namespace VizCore.Chain

open VizCore.Lib VizCore.Protocol

/-! ## Control over one account -/

/-- Who controls the accounts, and what has been asked for. -/
structure ControlBook extends ControlRest where
  accounts : Table ControlRow

def Aspect.View.control (v : Aspect.View .control) : ControlBook :=
  { (v.rest : ControlRest) with accounts := v.rows }

def Db.control (db : Db) : ControlBook := (db.view .control).control

/-- The account `A` answers to the key `K` and to the recovery partner `B`, it is not on sale,
and no request for it is pending. -/
structure Handed (A B : AccountName) (K : PublicKey) (v : ControlBook) : Prop where
  named : B ≠ ""
  authority : ∃ auth, v.authorities.get (·.account) A = some auth ∧
    auth.master = Db.singleKey K ∧ auth.active = Db.singleKey K ∧ auth.regular = Db.singleKey K
  account : v.accounts.get (·.name) A = some ⟨A, B, false⟩
  noRequest : v.recoveryRequests.All fun r => r.accountToRecover ≠ A
  noChange : v.changeRequests.All fun r => r.accountToRecover ≠ A

/-- The control over the account `A` stays as it is, and no request for it is added. -/
structure ControlFrame (A : AccountName) (v v' : ControlBook) : Prop where
  authority : v'.authorities.get (·.account) A = v.authorities.get (·.account) A
  account : v'.accounts.get (·.name) A = v.accounts.get (·.name) A
  requests : (v.recoveryRequests.All fun r => r.accountToRecover ≠ A) →
    v'.recoveryRequests.All fun r => r.accountToRecover ≠ A
  changes : (v.changeRequests.All fun r => r.accountToRecover ≠ A) →
    v'.changeRequests.All fun r => r.accountToRecover ≠ A

variable {A B : AccountName} {K : PublicKey}

theorem Handed.frame {v v' : ControlBook} (hv : Handed A B K v)
    (h : ControlFrame A v v') : Handed A B K v' where
  named := hv.named
  authority := by
    obtain ⟨auth, hauth, hkeys⟩ := hv.authority
    exact ⟨auth, h.authority.trans hauth, hkeys⟩
  account := h.account.trans hv.account
  noRequest := h.requests hv.noRequest
  noChange := h.changes hv.noChange

namespace ControlFrame

variable {v v' v'' : ControlBook}

theorem of_eq (h : v' = v) : ControlFrame A v v' := by
  subst h
  exact ⟨rfl, rfl, id, id⟩

theorem trans (h : ControlFrame A v v') (h' : ControlFrame A v' v'') : ControlFrame A v v'' where
  authority := h'.authority.trans h.authority
  account := h'.account.trans h.account
  requests hv := h'.requests (h.requests hv)
  changes hv := h'.changes (h.changes hv)

end ControlFrame

namespace Db

variable {fc : Fc} {db db' : Db} {name : AccountName}

theorem control_find (db : Db) (name : AccountName) :
    db.control.accounts.get (·.name) name = (db.findAccount name).map fun a =>
      ⟨a.name, a.recoveryAccount, a.accountOnSale⟩ :=
  rows_find (x := .control) db (fun _ => rfl) name

theorem control_of_view (h : db'.view .control = db.view .control) : db'.control = db.control :=
  congrArg Aspect.View.control h

theorem frame_of_view (h : db'.view .control = db.view .control) :
    ControlFrame A db.control db'.control :=
  .of_eq (control_of_view h)

theorem frame_of_core (h : db'.core = db.core) : ControlFrame A db.control db'.control :=
  frame_of_view (view_of_core h)

/-- A change of another account. -/
theorem frame_modifyAccount (db : Db) (hname : A ≠ name) {f : AccountObject → AccountObject}
    (hf : ∀ a, (f a).name = a.name) : ControlFrame A db.control (db.modifyAccount name f).control where
  authority := rfl
  account := by
    have hget : (db.modifyAccount name f).findAccount A = db.findAccount A :=
      Table.get_update_ne db.accounts (·.name) f hname hf
    rw [control_find, control_find, hget]
  requests h := h
  changes h := h

/-- A change of an account that keeps its recovery partner and its sale. -/
theorem frame_modifyAccount_of_same (db : Db) (name : AccountName)
    {f : AccountObject → AccountObject}
    (hf : ∀ a, (f a).name = a.name ∧ (f a).recoveryAccount = a.recoveryAccount ∧
      (f a).accountOnSale = a.accountOnSale) :
    ControlFrame A db.control (db.modifyAccount name f).control := by
  refine frame_of_view (view_modifyAccount_of_same .control db name f fun a => ?_)
  obtain ⟨hname, hrecovery, hsale⟩ := hf a
  show ControlRow.mk (f a).name (f a).recoveryAccount (f a).accountOnSale = _
  rw [hname, hrecovery, hsale]
  rfl

/-- A change of another account's authority. -/
theorem frame_updateAuthority (db : Db) (hname : A ≠ name)
    {f : AccountAuthorityObject → AccountAuthorityObject} (hf : ∀ a, (f a).account = a.account) :
    ControlFrame A db.control
      ({ db with accountAuthorities := db.accountAuthorities.update (·.account) name f } :
        Db).control where
  authority := Table.get_update_ne db.accountAuthorities (·.account) f hname hf
  account := rfl
  requests h := h
  changes h := h

theorem handed_steady : Steady .control fun v => Handed A B K v.control := by
  intro g db db' hglide hdb
  cases hglide with
  | same h => exact hdb.frame (frame_of_view h)
  | register name recovery memo auth hauth hnew h =>
    have hne : name ≠ A := by
      rintro rfl
      have hrow : db.control.accounts.get (·.name) name = _ := hdb.account
      rw [control_find, hnew] at hrow
      cases hrow
    have hrows : ((db.core.register name recovery memo auth).view .control).control.accounts =
        db.control.accounts.create fun _ => ⟨name, recovery, false⟩ :=
      Table.image_create _ _ _
    have hframe : ControlFrame A db.control
        ((db.core.register name recovery memo auth).view .control).control := by
      refine ⟨?_, ?_, id, id⟩
      · refine Table.get_create_ne db.accountAuthorities (·.account) ?_
        rw [hauth]
        exact hne
      · rw [hrows]
        exact Table.get_create_ne db.control.accounts (·.name) hne
    exact h ▸ hdb.frame hframe
  | declare owner hnew h =>
    have hframe : ControlFrame A db.control ((db.core.declare owner).view .control).control :=
      ⟨rfl, rfl, id, id⟩
    exact h ▸ hdb.frame hframe
  | vest name tokens ok h => exact hdb.frame (frame_of_view (createVesting_view rfl h))

/-! ## Operations -/

theorem updateMasterAuthority_frame {master : Authority} (hname : A ≠ name)
    (h : db.updateMasterAuthority name master = .ok db') :
    ControlFrame A db.control db'.control := by
  simp only [updateMasterAuthority, bind_eq_ok, pure_eq_ok] at h
  obtain ⟨auth, -, rfl⟩ := h
  split
  · refine ControlFrame.trans ?_ (frame_updateAuthority _ hname fun _ => rfl)
    exact ⟨rfl, rfl, id, id⟩
  · exact frame_updateAuthority db hname fun _ => rfl

theorem accountUpdate_frame {o : AccountUpdateOperation} (hname : A ≠ o.account)
    (h : db.accountUpdate o = .ok db') : ControlFrame A db.control db'.control := by
  simp only [accountUpdate, bind_eq_ok, pure_eq_ok] at h
  obtain ⟨_, -, _, -, _, -, auth, -, db₁, hmaster, _, -, _, -, rfl⟩ := h
  have hmaster' : ControlFrame A db.control db₁.control := by
    unfold changeMaster at hmaster
    split at hmaster
    · cases hmaster
      exact .of_eq rfl
    · simp only [bind_eq_ok] at hmaster
      obtain ⟨_, -, _, -, hupdate⟩ := hmaster
      exact updateMasterAuthority_frame hname hupdate
  refine hmaster'.trans (ControlFrame.trans (frame_of_view ?_)
    (frame_updateAuthority _ hname fun _ => rfl))
  exact (view_of_core (storeAccountJsonMetadata_core _ _ _ _)).trans
    (view_modifyAccount_of_same .control db₁ o.account _ fun _ => rfl)

/-- Only the recovery partner asks for a recovery. -/
theorem requestAccountRecovery_frame {o : RequestAccountRecoveryOperation}
    (hdb : Handed A B K db.control) (hpartner : o.recoveryAccount ≠ B)
    (h : db.requestAccountRecovery o = .ok db') : ControlFrame A db.control db'.control := by
  simp only [requestAccountRecovery, getAccount, bind_eq_ok, getOrThrow_eq_ok] at h
  obtain ⟨_, -, account, haccount, _, hcheck, h⟩ := h
  have hne : o.accountToRecover ≠ A := by
    intro heq
    have hrow := hdb.account
    rw [control_find, ← heq, haccount] at hrow
    have hrecovery : account.recoveryAccount = B := congrArg ControlRow.recovery (Option.some.inj hrow)
    unfold checkRecoveryPartner at hcheck
    rw [hrecovery, if_pos hdb.named, fcAssert_eq_ok] at hcheck
    exact hpartner hcheck.symm
  split at h
  · simp only [bind_eq_ok, pure_eq_ok] at h
    obtain ⟨_, -, _, -, _, -, rfl⟩ := h
    exact ⟨rfl, rfl, fun hall => Table.all_create hall hne, id⟩
  · split at h
    · rw [pure_eq_ok] at h
      rw [← h]
      exact ⟨rfl, rfl, fun hall => Table.all_erase hall, id⟩
    · simp only [bind_eq_ok, pure_eq_ok] at h
      obtain ⟨_, -, _, -, rfl⟩ := h
      exact ⟨rfl, rfl, fun hall => Table.all_update hall fun _ _ hr => hr, id⟩

/-- An account is recovered only after a request. -/
theorem recoverAccount_frame {o : RecoverAccountOperation} (hdb : Handed A B K db.control)
    (h : db.recoverAccount o = .ok db') : ControlFrame A db.control db'.control := by
  simp only [recoverAccount, getAccount, bind_eq_ok, getOrThrow_eq_ok, pure_eq_ok] at h
  obtain ⟨_, -, _, -, request, hrequest, _, -, _, -, db₁, hmaster, rfl⟩ := h
  have hne : A ≠ o.accountToRecover := by
    have hkey : request.accountToRecover = o.accountToRecover := Table.get_key hrequest
    exact fun heq => hdb.noRequest request (Table.get_mem hrequest) (hkey.trans heq.symm)
  have herase : ControlFrame A db.control ({ db with
      accountRecoveryRequests := db.accountRecoveryRequests.erase (·.id) request.id } : Db).control :=
    ⟨rfl, rfl, fun hall => Table.all_erase hall, id⟩
  refine herase.trans ((updateMasterAuthority_frame hne hmaster).trans ?_)
  exact frame_modifyAccount db₁ hne fun _ => rfl

theorem changeRecoveryAccount_frame {o : ChangeRecoveryAccountOperation}
    (hname : o.accountToRecover ≠ A) (h : db.changeRecoveryAccount o = .ok db') :
    ControlFrame A db.control db'.control := by
  simp only [changeRecoveryAccount, bind_eq_ok] at h
  obtain ⟨_, -, account, -, h⟩ := h
  split at h
  · rw [pure_eq_ok] at h
    rw [← h]
    exact ⟨rfl, rfl, id, fun hall => Table.all_create hall hname⟩
  · split at h
    · rw [pure_eq_ok] at h
      rw [← h]
      exact ⟨rfl, rfl, id, fun hall => Table.all_update hall fun _ _ hr => hr⟩
    · rw [pure_eq_ok] at h
      rw [← h]
      exact ⟨rfl, rfl, id, fun hall => Table.all_erase hall⟩

/-! ## Sales -/

theorem returnBid_frame (h : db.returnBid name = .ok db') :
    ControlFrame A db.control db'.control := by
  simp only [returnBid, bind_eq_ok, pure_eq_ok] at h
  obtain ⟨a, -, bidder, -, reserved, -, balance, -, rfl⟩ := h
  exact frame_modifyAccount_of_same db a.currentBidder fun _ => ⟨rfl, rfl, rfl⟩

theorem returnBidIf_frame {c : Prop} [Decidable c] (h : returnBidIf c db name = .ok db') :
    ControlFrame A db.control db'.control := by
  unfold returnBidIf at h
  split at h
  · exact returnBid_frame h
  · rw [pure_eq_ok] at h
    exact h ▸ .of_eq rfl

theorem resetBid_frame (h : db.resetBid name = .ok db') : ControlFrame A db.control db'.control := by
  simp only [resetBid, bind_eq_ok, pure_eq_ok] at h
  obtain ⟨db₁, hreturn, rfl⟩ := h
  exact (returnBid_frame hreturn).trans
    (frame_modifyAccount_of_same db₁ name fun _ => ⟨rfl, rfl, rfl⟩)

theorem resetBidIf_frame {c : Prop} [Decidable c] (h : resetBidIf c db name = .ok db') :
    ControlFrame A db.control db'.control := by
  unfold resetBidIf at h
  split at h
  · exact resetBid_frame h
  · rw [pure_eq_ok] at h
    exact h ▸ .of_eq rfl

/-- The fee and the seller do not show. -/
theorem setSeller_frame {db₁ : Db} {old : AccountName} {fee : Int} {msg : String}
    (h : db.paySaleFee name old fee msg = .ok db₁) (seller : AccountName) :
    ControlFrame A db.control (db₁.setAccountSeller name seller).control :=
  frame_of_core ((setAccountSeller_core db₁ _ _).trans (paySaleFee_core h))

theorem setAccountPrice_frame {o : SetAccountPriceOperation} (hname : A ≠ o.account)
    (h : db.setAccountPrice o = .ok db') : ControlFrame A db.control db'.control := by
  simp only [setAccountPrice, bind_eq_ok] at h
  obtain ⟨account, -, _, -, db₁, hfee, a, -, h⟩ := h
  refine (setSeller_frame hfee o.accountSeller).trans ?_
  split at h
  · simp only [bind_eq_ok, pure_eq_ok] at h
    obtain ⟨db₂, hreset, rfl⟩ := h
    exact (resetBidIf_frame hreset).trans (frame_modifyAccount db₂ hname fun _ => rfl)
  · simp only [bind_eq_ok, pure_eq_ok] at h
    obtain ⟨db₂, hreturn, rfl⟩ := h
    exact (returnBidIf_frame hreturn).trans (frame_modifyAccount db₂ hname fun _ => rfl)

theorem targetAccountSale_frame {o : TargetAccountSaleOperation} (hname : A ≠ o.account)
    (h : db.targetAccountSale o = .ok db') : ControlFrame A db.control db'.control := by
  simp only [targetAccountSale, bind_eq_ok] at h
  obtain ⟨account, -, _, -, _, -, db₁, hfee, a, -, h⟩ := h
  refine (setSeller_frame hfee o.accountSeller).trans ?_
  split at h
  · simp only [bind_eq_ok, pure_eq_ok] at h
    obtain ⟨db₂, hreset, rfl⟩ := h
    refine (resetBidIf_frame hreset).trans ((frame_modifyAccount db₂ hname ?_).trans
      (frame_modifyAccount _ hname ?_))
    · exact fun _ => rfl
    · exact fun _ => rfl
  · simp only [bind_eq_ok, pure_eq_ok] at h
    obtain ⟨db₂, hreturn, rfl⟩ := h
    refine (returnBidIf_frame hreturn).trans ((frame_modifyAccount db₂ hname ?_).trans
      (frame_modifyAccount _ hname ?_))
    · exact fun _ => rfl
    · exact fun _ => rfl

theorem bidAccount_frame {clock : TimePointSec} {o : BuyAccountOperation} {a : AccountObject}
    (h : db.bidAccount clock o a = .ok db') : ControlFrame A db.control db'.control := by
  simp only [bidAccount, reserveBid, bind_eq_ok, pure_eq_ok] at h
  obtain ⟨_, -, _, -, db₁, hreturn, ⟨reserved, balance⟩, -, rfl⟩ := h
  refine (returnBidIf_frame hreturn).trans ((frame_modifyAccount_of_same db₁ o.account ?_).trans
    (frame_modifyAccount_of_same _ o.buyer ?_))
  · exact fun _ => ⟨rfl, rfl, rfl⟩
  · exact fun _ => ⟨rfl, rfl, rfl⟩

/-- The account is not on sale, so it cannot be bought. -/
theorem buyAccount_handed {clock : TimePointSec} {o : BuyAccountOperation}
    (hdb : Handed A B K db.control) (h : buyAccount fc clock db o = .ok db') :
    Handed A B K db'.control := by
  simp only [buyAccount, bind_eq_ok] at h
  obtain ⟨buyer, -, _, -, _, -, h⟩ := h
  split at h
  · rename_i a ha
    simp only [buyExisting, bind_eq_ok, fcAssert_eq_ok] at h
    obtain ⟨_, -, _, hsale, _, -, _, -, h⟩ := h
    have hne : A ≠ o.account := by
      rintro rfl
      have hrow := hdb.account
      rw [control_find, ha] at hrow
      have hoff : a.accountOnSale = false := congrArg ControlRow.onSale (Option.some.inj hrow)
      rw [hsale] at hoff
      cases hoff
    split at h
    · exact hdb.frame (bidAccount_frame h)
    · obtain ⟨db₁, hturns, -, rfl⟩ := buyNow_turns h
      have hdb₁ : Handed A B K db₁.control := handed_steady.drift (hturns.drift_unguarded .control) hdb
      refine hdb₁.frame (ControlFrame.trans (frame_modifyAccount db₁ hne ?_)
        (frame_updateAuthority _ hne ?_))
      · exact fun _ => rfl
      · exact fun _ => rfl
  · exact handed_steady.drift ((buySubaccount_turns h).drift_unguarded .control) hdb

/-! ## Steps -/

theorem accountRecoveryProcessing_handed (hdb : Handed A B K db.control)
    (h : db.accountRecoveryProcessing = .ok db') : Handed A B K db'.control := by
  have hdrop : Handed A B K db.dropExpiredRecovery.control :=
    hdb.frame ⟨rfl, rfl, fun hall => Table.all_filter hall, id⟩
  refine foldlM_invariant (fun s => Handed A B K s.control) _ _
    (fun r hr s s' hs hstep => ?_) _ _ hdrop h
  have hne : A ≠ r.accountToRecover := by
    have hmem := (List.mem_filter.1 hr).1
    rw [mem_orderBy] at hmem
    exact Ne.symm (hdb.noChange r hmem)
  simp only [applyRecoveryChange, bind_eq_ok, pure_eq_ok] at hstep
  obtain ⟨_, -, rfl⟩ := hstep
  refine hs.frame (ControlFrame.trans (frame_modifyAccount s hne ?_)
    ⟨rfl, rfl, id, fun hall => Table.all_erase hall⟩)
  exact fun _ => rfl

/-- The auction up to the change of hands. -/
theorem settleAuction_sold {a : AccountObject} (h : db.settleAuction a = .ok db') :
    ∃ (db₁ : Db) (auth : AccountAuthorityObject), db₁.control = db.control ∧ db₁.getAuthority a.name = .ok auth ∧
      db' = (db₁.setAuthorities a.name a.currentBidderKey).modifyAccount a.name fun b =>
        { b.clearSale.clearAuction with
          accountSeller := "", targetBuyer := ""
          subaccountSeller := "", subaccountOfferPrice := 0, subaccountOnSale := false
          memoKey := a.currentBidderKey
          recoveryAccount := a.currentBidder
          lastAccountUpdate := db₁.headBlockTime } := by
  simp only [settleAuction, bind_eq_ok, pure_eq_ok] at h
  obtain ⟨_, -, bidder, -, reserved, -, db₁, hpay, auth, hauth, rfl⟩ := h
  refine ⟨db₁, auth, ?_, hauth, rfl⟩
  rw [control_of_view (view_of_core (adjustBalance_core hpay))]
  exact control_of_view (view_modifyAccount_of_same .control db a.currentBidder _ fun _ => rfl)

theorem settleAuction_frame {a : AccountObject} (hne : A ≠ a.name)
    (h : db.settleAuction a = .ok db') : ControlFrame A db.control db'.control := by
  obtain ⟨db₁, auth, hcontrol, -, rfl⟩ := settleAuction_sold h
  refine (ControlFrame.of_eq hcontrol).trans (ControlFrame.trans (frame_updateAuthority db₁ hne ?_)
    (frame_modifyAccount _ hne ?_))
  · exact fun _ => rfl
  · exact fun _ => rfl

/-- The end of an auction does not touch an account that is not on sale. -/
theorem expireAuction_handed (hdb : Handed A B K db.control)
    (h : db.expireAuction name = .ok db') : Handed A B K db'.control := by
  simp only [expireAuction, getAccount, bind_eq_ok, getOrThrow_eq_ok] at h
  obtain ⟨a, ha, h⟩ := h
  split at h
  · rw [pure_eq_ok] at h
    exact h ▸ hdb
  · split at h
    · rw [pure_eq_ok] at h
      rw [← h]
      exact hdb.frame (frame_modifyAccount_of_same db name fun _ => ⟨rfl, rfl, rfl⟩)
    · simp only [bind_eq_ok] at h
      obtain ⟨_, -, h⟩ := h
      split at h
      · rename_i hsale
        have hne : A ≠ name := by
          rintro rfl
          have hrow := hdb.account
          rw [control_find, ha] at hrow
          have hoff : a.accountOnSale = false := congrArg ControlRow.onSale (Option.some.inj hrow)
          rw [hsale.2.1] at hoff
          cases hoff
        split at h
        · simp only [cancelAuction, bind_eq_ok, pure_eq_ok] at h
          obtain ⟨db₁, hreset, rfl⟩ := h
          exact hdb.frame ((resetBid_frame hreset).trans
            (frame_modifyAccount db₁ hne fun _ => rfl))
        · have hname : a.name = name := Table.get_key ha
          exact hdb.frame (settleAuction_frame (hname ▸ hne) h)
      · exact hdb.frame (resetBid_frame h)

end Db

/-- The operation is applied without the authority of `A` or `B`. -/
def Event.Foreign (A B : AccountName) : Event → Prop
  | .operation _ op kept => kept = true →
    let r := requiredAuthorities op
    A ∉ r.active ++ r.master ++ r.regular ∧ B ∉ r.active ++ r.master ++ r.regular
  | .step _ _ _ _ => True

instance (A B : AccountName) : DecidablePred (Event.Foreign A B)
  | .operation _ op kept => inferInstanceAs (Decidable (kept = true →
    A ∉ (requiredAuthorities op).active ++ (requiredAuthorities op).master ++
        (requiredAuthorities op).regular ∧
      B ∉ (requiredAuthorities op).active ++ (requiredAuthorities op).master ++
        (requiredAuthorities op).regular))
  | .step _ _ _ _ => .isTrue trivial

/-- **Without its new owners** nothing changes the control over the account. -/
theorem handed_keepsBlock (env : Env) :
    KeepsBlock env (Event.Foreign A B) fun db => db.Stored env.fc ∧ Handed A B K db.control := by
  refine (stored_keepsBlock env _).aspect (x := .control) (P := fun v => Handed A B K v.control)
    (by decide) (by decide) (by decide) Db.handed_steady ?_ ?_
  · intro clock db op db' htouch _ _ hC h hdb
    have hforeign := hC rfl
    cases op with
    | accountUpdate o =>
      refine hdb.frame (Db.accountUpdate_frame ?_ h)
      rintro rfl
      refine hforeign.1 ?_
      simp only [requiredAuthorities]
      split <;> simp
    | requestAccountRecovery o =>
      refine hdb.frame (Db.requestAccountRecovery_frame hdb ?_ h)
      rintro rfl
      exact hforeign.2 (by simp [requiredAuthorities])
    | recoverAccount o => exact hdb.frame (Db.recoverAccount_frame hdb h)
    | changeRecoveryAccount o =>
      refine hdb.frame (Db.changeRecoveryAccount_frame ?_ h)
      rintro rfl
      exact hforeign.1 (by simp [requiredAuthorities])
    | setAccountPrice o =>
      refine hdb.frame (Db.setAccountPrice_frame ?_ h)
      rintro rfl
      exact hforeign.1 (by simp [requiredAuthorities])
    | targetAccountSale o =>
      refine hdb.frame (Db.targetAccountSale_frame ?_ h)
      rintro rfl
      exact hforeign.1 (by simp [requiredAuthorities])
    | buyAccount o => exact Db.buyAccount_handed hdb h
    | _ => cases htouch
  · intro skip b db st db' htouch _ _ h hdb
    cases st with
    | accountRecoveryProcessing => exact Db.accountRecoveryProcessing_handed hdb h
    | accountOnAuctionExpiration =>
      exact foldlM_invariant (fun s => Handed A B K s.control) _ _
        (fun _ _ _ _ hs hstep => Db.expireAuction_handed hs hstep) db db' hdb h
    | _ => cases htouch

/-! ## The sale -/

namespace Db

variable {fc : Fc} {db db' : Db}

/-- The key `K` and the recovery partner `B` control the account `A`. -/
structure ControlledBy (db : Db) (A B : AccountName) (K : PublicKey) : Prop where
  authority : ∃ auth, db.getAuthority A = .ok auth ∧ auth.master = singleKey K ∧
    auth.active = singleKey K ∧ auth.regular = singleKey K
  partner : ∃ a, db.findAccount A = some a ∧ a.recoveryAccount = B

/-- No change of the recovery account has been asked for. -/
def NoChangePending (db : Db) (A : AccountName) : Prop :=
  db.changeRecoveryAccountRequests.All fun r => r.accountToRecover ≠ A

/-- The auction of the account ends with its sale. -/
def AuctionSells (db : Db) (a : AccountObject) : Prop :=
  a.accountOnSaleStartTime ≤ db.headBlockTime ∧ a.currentBidder ≠ "" ∧
    (a.targetBuyer = "" ∨ a.currentBidder = a.targetBuyer) ∧ a.accountOnSale = true ∧
    a.accountOfferPrice ≤ a.currentBid ∧
    (db.accountRecoveryRequests.get (·.accountToRecover) a.name).isNone

theorem controlledBy_of_handed (h : Handed A B K db.control) : db.ControlledBy A B K := by
  constructor
  · obtain ⟨auth, hauth, hkeys⟩ := h.authority
    refine ⟨auth, ?_, hkeys⟩
    rw [getAuthority, getOrThrow_eq_ok]
    exact hauth
  · have hrow := h.account
    rw [control_find, Option.map_eq_some_iff] at hrow
    obtain ⟨a, ha, hrow⟩ := hrow
    exact ⟨a, ha, congrArg ControlRow.recovery hrow⟩

theorem noRequest_of_isNone {A : AccountName}
    (h : (db.accountRecoveryRequests.get (·.accountToRecover) A).isNone) :
    db.accountRecoveryRequests.All fun r => r.accountToRecover ≠ A := by
  rw [Option.isNone_iff_eq_none] at h
  intro r hr heq
  have hall := List.find?_eq_none.1 h r hr
  exact hall (decide_eq_true heq)

/-- The change of hands. -/
theorem handed_of_sold {a : AccountObject} {auth : AccountAuthorityObject}
    {f : AccountObject → AccountObject} (hB : B ≠ "") (ha : db.findAccount A = some a)
    (hauth : db.getAuthority A = .ok auth)
    (hf : ∀ b, (f b).name = b.name ∧ (f b).recoveryAccount = B ∧ (f b).accountOnSale = false)
    (hrequest : db.accountRecoveryRequests.All fun r => r.accountToRecover ≠ A)
    (hchange : db.NoChangePending A) :
    Handed A B K (setAuthorities (db.modifyAccount A f) A K).control where
  named := hB
  authority := by
    rw [getAuthority, getOrThrow_eq_ok] at hauth
    have hget := Table.get_update_same db.accountAuthorities (·.account) A
      (fun auth => { auth with
        master := singleKey K, active := singleKey K, regular := singleKey K
        lastMasterUpdate := db.headBlockTime }) fun _ => rfl
    rw [hauth, Option.map_some] at hget
    exact ⟨_, hget, rfl, rfl, rfl⟩
  account := by
    have hget : (db.modifyAccount A f).findAccount A = some (f a) := by
      refine (Table.get_update_same db.accounts (·.name) A f fun b => (hf b).1).trans ?_
      rw [show db.accounts.get (·.name) A = some a from ha]
      rfl
    have hrow := control_find (db.modifyAccount A f) A
    have hname : a.name = A := Table.get_key ha
    rw [hget, Option.map_some, (hf a).1, (hf a).2.1, (hf a).2.2, hname] at hrow
    exact hrow
  noRequest := hrequest
  noChange := hchange

/-- Whoever is controlled by somebody is an account. -/
theorem findAccount_of_control {db₁ : Db} {a : AccountObject} (h : db₁.control = db.control)
    (ha : db.findAccount A = some a) : ∃ b, db₁.findAccount A = some b := by
  have hrow := control_find db₁ A
  rw [h, control_find, ha] at hrow
  obtain ⟨b, hb, -⟩ := Option.map_eq_some_iff.1 hrow.symm
  exact ⟨b, hb⟩

/-- **A direct purchase.** -/
theorem buyAccount_sold {clock : TimePointSec} {o : BuyAccountOperation} {a : AccountObject}
    (hv : o.validate = .ok ()) (ha : db.findAccount o.account = some a)
    (hstart : a.accountOnSaleStartTime ≤ db.headBlockTime) (hchange : db.NoChangePending o.account)
    (h : buyAccount fc clock db o = .ok db') :
    Handed o.account o.buyer o.accountAuthoritiesKey db'.control := by
  simp only [BuyAccountOperation.validate, List.forM_eq_forM, List.forM_cons, bind_eq_ok] at hv
  obtain ⟨_, ⟨_, hname, -⟩, -⟩ := hv
  have hbuyer : o.buyer ≠ "" := validateAccountName_ne hname
  simp only [buyAccount, ha, bind_eq_ok] at h
  obtain ⟨buyer, -, _, -, _, -, h⟩ := h
  simp only [buyExisting, bind_eq_ok, fcAssert_eq_ok] at h
  obtain ⟨auth, hauth, _, -, _, hrequest, _, -, h⟩ := h
  rw [if_neg (Nat.not_lt.2 hstart)] at h
  obtain ⟨db₁, -, hview, rfl⟩ := buyNow_turns h
  have hcontrol : db₁.control = db.control := control_of_view hview
  obtain ⟨b, hb⟩ := findAccount_of_control hcontrol ha
  have hauth₁ : db₁.getAuthority o.account = .ok auth := by
    rw [getAuthority, show db₁.accountAuthorities = db.accountAuthorities from
      congrArg (·.authorities) hcontrol]
    exact hauth
  have hrequests : db₁.accountRecoveryRequests = db.accountRecoveryRequests :=
    congrArg (·.recoveryRequests) hcontrol
  have hchanges : db₁.changeRecoveryAccountRequests = db.changeRecoveryAccountRequests :=
    congrArg (·.changeRequests) hcontrol
  refine handed_of_sold hbuyer hb hauth₁ (fun _ => ⟨rfl, rfl, rfl⟩) ?_ ?_
  · rw [hrequests]
    exact noRequest_of_isNone hrequest
  · unfold NoChangePending
    rw [hchanges]
    exact hchange

/-- **The end of an auction** with a sale. -/
theorem expireAuction_sold {a : AccountObject} (ha : db.findAccount A = some a)
    (hsells : db.AuctionSells a) (hchange : db.NoChangePending A)
    (h : db.expireAuction A = .ok db') :
    Handed A a.currentBidder a.currentBidderKey db'.control := by
  obtain ⟨hdue, hbidder, htarget, hsale, hprice, hrequest⟩ := hsells
  have hname : a.name = A := Table.get_key ha
  rw [hname] at hrequest
  simp only [expireAuction, getAccount, bind_eq_ok, getOrThrow_eq_ok] at h
  obtain ⟨a', ha', h⟩ := h
  rw [ha] at ha'
  cases ha'
  rw [if_neg (Nat.not_lt.2 hdue), if_neg hbidder] at h
  simp only [bind_eq_ok] at h
  obtain ⟨_, -, h⟩ := h
  have hnone : ¬ (db.accountRecoveryRequests.get (·.accountToRecover) A).isSome := by
    rw [Option.isNone_iff_eq_none] at hrequest
    rw [hrequest]
    simp
  rw [if_pos ⟨htarget, hsale, hprice⟩, if_neg hnone] at h
  obtain ⟨db₁, auth, hcontrol, hauth, rfl⟩ := settleAuction_sold h
  rw [hname] at hauth ⊢
  obtain ⟨b, hb⟩ := findAccount_of_control hcontrol ha
  have hrequests : db₁.accountRecoveryRequests = db.accountRecoveryRequests :=
    congrArg (·.recoveryRequests) hcontrol
  have hchanges : db₁.changeRecoveryAccountRequests = db.changeRecoveryAccountRequests :=
    congrArg (·.changeRequests) hcontrol
  refine handed_of_sold hbidder hb hauth (fun _ => ⟨rfl, rfl, rfl⟩) ?_ ?_
  · rw [hrequests]
    exact noRequest_of_isNone hrequest
  · unfold NoChangePending
    rw [hchanges]
    exact hchange

end Db

/-- **A sale hands the account over.**  At a direct purchase and at the end of an auction at
which no change of the recovery account is pending the buyer gets the control, and the buyer keeps
it whatever is applied without the authority of the account and of the buyer. -/
theorem sale_hands_over (env : Env) :
    (∀ clock db (o : BuyAccountOperation) a db', o.validate = .ok () →
        db.findAccount o.account = some a → a.accountOnSaleStartTime ≤ db.headBlockTime →
        db.NoChangePending o.account → Db.buyAccount env.fc clock db o = .ok db' →
        Handed o.account o.buyer o.accountAuthoritiesKey db'.control) ∧
      (∀ (db : Db) A a db', db.findAccount A = some a → db.AuctionSells a →
        db.NoChangePending A → db.expireAuction A = .ok db' →
        Handed A a.currentBidder a.currentBidderKey db'.control) ∧
      ∀ A B K,
        (∀ db : Db, Handed A B K db.control → db.ControlledBy A B K) ∧
        (∀ (db : Db) names db', Handed A B K db.control →
          List.foldlM Db.expireAuction db names = .ok db' → Handed A B K db'.control) ∧
        Preserved env (Event.Foreign A B) fun db => db.Stored env.fc ∧ Handed A B K db.control := by
  refine ⟨?_, ?_, fun A B K => ⟨?_, ?_, (handed_keepsBlock env).preserved⟩⟩
  · intro clock db o a db' hv ha hstart hchange h
    exact Db.buyAccount_sold hv ha hstart hchange h
  · intro db A a db' ha hsells hchange h
    exact Db.expireAuction_sold ha hsells hchange h
  · intro db hdb
    exact Db.controlledBy_of_handed hdb
  · intro db names db' hdb h
    exact foldlM_invariant (fun s => Handed A B K s.control) _ _
      (fun _ _ _ _ hs hstep => Db.expireAuction_handed hs hstep) db db' hdb h

/-- carol's account is for sale at a fixed price, and she may have asked for a change of her
recovery account. -/
def saleStore (requests : List ChangeRecoveryAccountRequestObject) : Store :=
  let s := smallStore [{ id := 4, name := "eve" },
    { id := 5, name := "carol", accountOnSale := true, accountSeller := "carol"
      accountOfferPrice := 100 }]
  { s with db := { s.db with changeRecoveryAccountRequests := ⟨requests, 1⟩ } }

/-- alice buys carol's account for the key 9. -/
def directPurchase : BuyAccountOperation :=
  { buyer := "alice", account := "carol", accountOfferPrice := ⟨100, tokenSymbol⟩
    accountAuthoritiesKey := 9, tokensToShares := ⟨1000, tokenSymbol⟩ }

/-- eve changes what is told of her. -/
def eveBlock : SignedBlock :=
  smallBlock [.accountMetadata { account := "eve", jsonMetadata := "{}" }]

/-- alice buys carol's account, and a block follows. -/
theorem sale_hands_over_direct :
    ∃ db', Db.buyAccount smallEnv.fc 33 (saleStore []).db directPurchase = .ok db' ∧
      db'.ControlledBy "carol" "alice" 9 ∧
      ∃ s', (({ db := db' } : Store).applyBlocks smallEnv 2 { merkleCheck := true }
        [eveBlock] 0).2 = .ok s' ∧ s'.db.ControlledBy "carol" "alice" 9 := by
  have hrun : returns (Db.buyAccount smallEnv.fc 33 (saleStore []).db directPurchase)
      (fun db' => decide (db'.proposals.rows.length = 0) &&
        decide (∀ e ∈ (({ db := db' } : Store).applyBlocks smallEnv 2 { merkleCheck := true }
          [eveBlock] 0).1, Event.Foreign "carol" "alice" e) &&
        returns (({ db := db' } : Store).applyBlocks smallEnv 2 { merkleCheck := true }
          [eveBlock] 0).2 (fun _ => true)) = true := by
    decide +kernel
  obtain ⟨db', hdb', hrest⟩ := returns_eq_true hrun
  rw [Bool.and_eq_true, Bool.and_eq_true, decide_eq_true_eq, decide_eq_true_eq] at hrest
  obtain ⟨⟨hnone, hforeign⟩, hblock⟩ := hrest
  obtain ⟨s', hs', -⟩ := returns_eq_true hblock
  obtain ⟨hdirect, -, hkept⟩ := sale_hands_over smallEnv
  obtain ⟨hcontrolled, -, hpreserved⟩ := hkept "carol" "alice" 9
  have hhanded : Handed "carol" "alice" 9 db'.control :=
    hdirect 33 (saleStore []).db directPurchase _ db' (by decide) rfl (by decide)
      (fun _ hr => (nomatch hr)) hdb'
  have hstored : db'.Stored smallEnv.fc := by
    intro p hp
    rw [List.length_eq_zero_iff.1 hnone] at hp
    exact absurd hp List.not_mem_nil
  have hend := hpreserved.blocks 2 _ _ _ 0 s' rfl ⟨hstored, hhanded⟩ hforeign hs'
  exact ⟨db', hdb', hcontrolled db' hhanded, s', hs', hcontrolled s'.db hend.2⟩

/-- The change that carol asked for before the sale takes effect after it. -/
theorem pending_change_outlives_sale :
    (∃ db', Db.buyAccount smallEnv.fc 33 (saleStore [⟨0, "carol", "eve", 33⟩]).db directPurchase =
        .ok db' ∧ db'.ControlledBy "carol" "alice" 9) ∧
      ∃ s', ((saleStore [⟨0, "carol", "eve", 33⟩]).applyBlocks smallEnv 2 { merkleCheck := true }
        [smallBlock [.buyAccount directPurchase]] 0).2 = .ok s' ∧
          ¬ s'.db.ControlledBy "carol" "alice" 9 := by
  constructor
  · have hrun : returns (Db.buyAccount smallEnv.fc 33 (saleStore [⟨0, "carol", "eve", 33⟩]).db
        directPurchase) (fun db' => (db'.accountAuthorities.get (·.account) "carol").any (fun auth =>
          auth.master = Db.singleKey 9 ∧ auth.active = Db.singleKey 9 ∧
            auth.regular = Db.singleKey 9) &&
          (db'.findAccount "carol").any (fun a => a.recoveryAccount = "alice")) = true := by
      decide +kernel
    obtain ⟨db', hdb', hkeys⟩ := returns_eq_true hrun
    simp only [Bool.and_eq_true, Option.any_eq_true, decide_eq_true_eq] at hkeys
    obtain ⟨⟨auth, hauth, hkeys⟩, a, ha, hpartner⟩ := hkeys
    refine ⟨db', hdb', ⟨auth, ?_, hkeys⟩, a, ha, hpartner⟩
    rw [Db.getAuthority, getOrThrow_eq_ok]
    exact hauth
  · have hrun : returns ((saleStore [⟨0, "carol", "eve", 33⟩]).applyBlocks smallEnv 2
        { merkleCheck := true } [smallBlock [.buyAccount directPurchase]] 0).2
        (fun s => (s.db.findAccount "carol").all (fun a => a.recoveryAccount = "eve")) = true := by
      decide +kernel
    obtain ⟨s', hs', heve⟩ := returns_eq_true hrun
    refine ⟨s', hs', fun hcontrol => ?_⟩
    obtain ⟨a, ha, hpartner⟩ := hcontrol.partner
    rw [ha, Option.all_some, decide_eq_true_eq, hpartner] at heve
    exact absurd heve (by decide)

end VizCore.Chain
