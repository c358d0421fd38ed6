import VizCore.Chain.Handover

/-!
# Who may change an authority

The record of an account consists of its authorities, its memo key and its recovery partner.

* `Kept`: the record stays, and no request to recover the account is added;
* `authority_needed`: an operation that changes the record is one of three, and each has its
  own permission.
-/

namespace VizCore.Chain

open VizCore.Lib VizCore.Protocol

/-! ## Records -/

/-- The authorities, the memo key and the recovery partner of an account. -/
structure Title where
  authority : Option AccountAuthorityObject
  memo : Option PublicKey
  recovery : Option AccountName

namespace Title

def master (t : Title) : Option Authority := t.authority.map (·.master)

end Title

namespace Db

variable {A name : AccountName} {db db' : Db}

def title (db : Db) (A : AccountName) : Title where
  authority := db.accountAuthorities.get (·.account) A
  memo := (db.findAccount A).map (·.memoKey)
  recovery := (db.findAccount A).map (·.recoveryAccount)

/-- The record of the account stays, and so does the account; no request for it is new. -/
structure Kept (A : AccountName) (db db' : Db) : Prop where
  found : (db.findAccount A).isSome → (db'.findAccount A).isSome
  title : db'.title A = db.title A
  requests : ∀ r ∈ db'.accountRecoveryRequests.rows, r.accountToRecover = A →
    r ∈ db.accountRecoveryRequests.rows

namespace Kept

theorem refl (A : AccountName) (db : Db) : Kept A db db := ⟨id, rfl, fun _ hr _ => hr⟩

theorem trans {db'' : Db} (h : Kept A db db') (h' : Kept A db' db'') : Kept A db db'' where
  found hA := h'.found (h.found hA)
  title := h'.title.trans h.title
  requests r hr hA := h.requests r (h'.requests r hr hA) hA

end Kept

theorem title_modifyAccount_of_same (db : Db) (name : AccountName)
    {f : AccountObject → AccountObject} (hf : ∀ a, (f a).name = a.name ∧
      (f a).memoKey = a.memoKey ∧ (f a).recoveryAccount = a.recoveryAccount) :
    (db.modifyAccount name f).title A = db.title A := by
  by_cases hA : A = name
  · subst hA
    have hget : (db.modifyAccount A f).findAccount A = (db.findAccount A).map f :=
      Table.get_update_same db.accounts (·.name) A f fun a => (hf a).1
    unfold title
    rw [hget]
    cases db.findAccount A with
    | none => rfl
    | some a =>
      simp only [Option.map_some, (hf a).2]
      rfl
  · have hget : (db.modifyAccount name f).findAccount A = db.findAccount A :=
      Table.get_update_ne db.accounts (·.name) f hA fun a => (hf a).1
    unfold title
    rw [hget]
    rfl

theorem findAccount_modifyAccount_isSome (db : Db) (name : AccountName)
    {f : AccountObject → AccountObject} (hf : ∀ a, (f a).name = a.name)
    (h : (db.findAccount A).isSome) : ((db.modifyAccount name f).findAccount A).isSome := by
  by_cases hA : A = name
  · subst hA
    have hget : (db.modifyAccount A f).findAccount A = (db.findAccount A).map f :=
      Table.get_update_same db.accounts (·.name) A f hf
    rw [hget, Option.isSome_map]
    exact h
  · have hget : (db.modifyAccount name f).findAccount A = db.findAccount A :=
      Table.get_update_ne db.accounts (·.name) f hA hf
    rw [hget]
    exact h

/-- A change of an account that keeps its memo key and its partner. -/
theorem kept_modifyAccount_of_same (db : Db) (name : AccountName)
    {f : AccountObject → AccountObject} (hf : ∀ a, (f a).name = a.name ∧
      (f a).memoKey = a.memoKey ∧ (f a).recoveryAccount = a.recoveryAccount) :
    Kept A db (db.modifyAccount name f) where
  found h := findAccount_modifyAccount_isSome db name (fun a => (hf a).1) h
  title := title_modifyAccount_of_same db name hf
  requests _ hr _ := hr

/-- A change of another account. -/
theorem kept_modifyAccount (db : Db) (hname : A ≠ name) {f : AccountObject → AccountObject}
    (hf : ∀ a, (f a).name = a.name) : Kept A db (db.modifyAccount name f) where
  found h := findAccount_modifyAccount_isSome db name hf h
  title := by
    have hget : (db.modifyAccount name f).findAccount A = db.findAccount A :=
      Table.get_update_ne db.accounts (·.name) f hname hf
    unfold title
    rw [hget]
    rfl
  requests _ hr _ := hr

/-- A change of the authorities of another account. -/
theorem kept_updateAuthority (db : Db) (hname : A ≠ name)
    {f : AccountAuthorityObject → AccountAuthorityObject} (hf : ∀ a, (f a).account = a.account) :
    Kept A db { db with accountAuthorities := db.accountAuthorities.update (·.account) name f } where
  found h := h
  title := by
    have hget : (db.accountAuthorities.update (·.account) name f).get (·.account) A =
        db.accountAuthorities.get (·.account) A :=
      Table.get_update_ne db.accountAuthorities (·.account) f hname hf
    unfold title
    rw [← hget]
    rfl
  requests _ hr _ := hr

/-! ## Drifts -/

theorem memos_find (db : Db) (name : AccountName) :
    (db.view .memos).rows.get MemoRow.name name =
      (db.findAccount name).map fun a => (⟨a.name, a.memoKey⟩ : MemoRow) :=
  rows_find (x := .memos) db (fun _ => rfl) name

/-- Where two views of the accounts agree on `A`, the records agree. -/
theorem Kept.of_views (hauth : db'.control.authorities.get (·.account) A =
      db.control.authorities.get (·.account) A)
    (haccount : db'.control.accounts.get (·.name) A = db.control.accounts.get (·.name) A)
    (hrequests : db'.control.recoveryRequests = db.control.recoveryRequests)
    (hmemo : (db'.view .memos).rows.get MemoRow.name A = (db.view .memos).rows.get MemoRow.name A) :
    Kept A db db' := by
  rw [control_find, control_find] at haccount
  rw [memos_find, memos_find] at hmemo
  have hrecovery := congrArg (Option.map ControlRow.recovery) haccount
  have hkey := congrArg (Option.map MemoRow.memo) hmemo
  simp only [Option.map_map] at hrecovery hkey
  constructor
  · intro hsome
    have hboth := congrArg Option.isSome haccount
    rw [Option.isSome_map, Option.isSome_map] at hboth
    rw [hboth]
    exact hsome
  · show Title.mk _ _ _ = Title.mk _ _ _
    rw [Title.mk.injEq]
    exact ⟨hauth, hkey, hrecovery⟩
  · intro r hr _
    have hrows : db'.accountRecoveryRequests = db.accountRecoveryRequests := hrequests
    rw [← hrows]
    exact hr

/-- What a drift keeps of an account that exists. -/
structure Remembers (A : AccountName) (start : ControlBook) (v : ControlBook) : Prop where
  found : ∃ row, start.accounts.get (·.name) A = some row
  authority : v.authorities.get (·.account) A = start.authorities.get (·.account) A
  account : v.accounts.get (·.name) A = start.accounts.get (·.name) A
  requests : v.recoveryRequests = start.recoveryRequests

theorem remembers_steady (start : ControlBook) :
    Steady .control fun v => Remembers A start v.control := by
  intro g db db' hglide hdb
  cases hglide with
  | same h => exact h ▸ hdb
  | register name recovery memo auth hauth hnew h =>
    have hne : name ≠ A := by
      rintro rfl
      obtain ⟨row, hrow⟩ := hdb.found
      have hget : db.control.accounts.get (·.name) name = some row := hdb.account.trans hrow
      rw [control_find, hnew] at hget
      cases hget
    have hrows : ((db.core.register name recovery memo auth).view .control).control.accounts =
        db.control.accounts.create fun _ => ⟨name, recovery, false⟩ :=
      Table.image_create _ _ _
    rw [h]
    refine ⟨hdb.found, ?_, ?_, hdb.requests⟩
    · rw [← hdb.authority]
      refine Table.get_create_ne db.accountAuthorities (·.account) ?_
      rw [hauth]
      exact hne
    · rw [hrows, ← hdb.account]
      exact Table.get_create_ne db.control.accounts (·.name) hne
  | declare owner hnew h =>
    rw [h]
    exact ⟨hdb.found, hdb.authority, hdb.account, hdb.requests⟩
  | vest name tokens ok h =>
    rw [createVesting_view rfl h]
    exact hdb

theorem memo_steady (row : MemoRow) :
    Steady .memos fun v => v.rows.get MemoRow.name A = some row := by
  intro g db db' hglide hdb
  cases hglide with
  | same h => exact h ▸ hdb
  | register name recovery memo auth hauth hnew h =>
    have hne : name ≠ A := by
      rintro rfl
      rw [memos_find, hnew] at hdb
      cases hdb
    have hrows : ((db.core.register name recovery memo auth).view .memos).rows =
        (db.view .memos).rows.create fun _ => (⟨name, memo⟩ : MemoRow) :=
      Table.image_create _ _ _
    rw [h, hrows, ← hdb]
    exact Table.get_create_ne (db.view .memos).rows MemoRow.name hne
  | declare owner hnew h =>
    rw [h]
    exact hdb
  | vest name tokens ok h =>
    rw [createVesting_view rfl h]
    exact hdb

/-- **Drifts** keep the record of every account that exists. -/
theorem Kept.of_drift {a : AccountObject} (ha : db.findAccount A = some a) {g g' : Prop}
    (hcontrol : Drift .control g db db') (hmemos : Drift .memos g' db db') : Kept A db db' := by
  have hrow : db.control.accounts.get (·.name) A = _ := control_find db A
  have hmemo := memos_find db A
  rw [ha] at hrow hmemo
  have hstart : Remembers A db.control (db.view .control).control :=
    ⟨⟨_, hrow⟩, rfl, rfl, rfl⟩
  have hend := (remembers_steady db.control).drift hcontrol hstart
  have hkey := (memo_steady _).drift hmemos hmemo
  exact .of_views hend.authority hend.account hend.requests (hkey.trans hmemo.symm)

/-- So do turns. -/
theorem Kept.of_turns {a : AccountObject} (ha : db.findAccount A = some a) {g : Prop}
    (h : Turns g db db') : Kept A db db' :=
  .of_drift ha (h.drift_unguarded .control) (h.drift_unguarded .memos)

theorem Kept.of_core {a : AccountObject} (ha : db.findAccount A = some a)
    (h : db'.core = db.core) : Kept A db db' :=
  .of_turns ha (.quiet h : Turns False db db')

/-! ## Authorities and recovery -/

theorem updateMasterAuthority_kept {master : Authority} (hname : A ≠ name)
    (h : db.updateMasterAuthority name master = .ok db') : Kept A db db' := by
  simp only [updateMasterAuthority, bind_eq_ok, pure_eq_ok] at h
  obtain ⟨auth, -, rfl⟩ := h
  split
  · refine Kept.trans ?_ (kept_updateAuthority _ hname fun _ => rfl)
    exact ⟨id, rfl, fun _ hr _ => hr⟩
  · exact kept_updateAuthority db hname fun _ => rfl

theorem changeMaster_kept {o : AccountUpdateOperation} {t : TimePointSec} (hname : A ≠ o.account)
    (h : db.changeMaster o t = .ok db') : Kept A db db' := by
  unfold changeMaster at h
  split at h
  · cases h
    exact .refl A db
  · simp only [bind_eq_ok] at h
    obtain ⟨_, -, _, -, hupdate⟩ := h
    exact updateMasterAuthority_kept hname hupdate

theorem storeAccountJsonMetadata_kept (db : Db) (json : String) (skipEmpty : Bool) :
    Kept A db (db.storeAccountJsonMetadata name json skipEmpty) := by
  unfold storeAccountJsonMetadata
  split
  · exact .refl A db
  · split <;> exact ⟨id, rfl, fun _ hr _ => hr⟩

theorem accountUpdate_kept {o : AccountUpdateOperation} (hname : A ≠ o.account)
    (h : db.accountUpdate o = .ok db') : Kept A db db' := by
  simp only [accountUpdate, bind_eq_ok, pure_eq_ok] at h
  obtain ⟨_, -, _, -, _, -, auth, -, db₁, hmaster, _, -, _, -, rfl⟩ := h
  refine (changeMaster_kept hname hmaster).trans ?_
  refine (kept_modifyAccount db₁ hname ?_).trans
    ((storeAccountJsonMetadata_kept _ o.jsonMetadata true).trans
      (kept_updateAuthority _ hname fun _ => rfl))
  exact fun _ => rfl

theorem master_updateAuthority (t : Table AccountAuthorityObject) (name : AccountName)
    {f : AccountAuthorityObject → AccountAuthorityObject}
    (hf : ∀ a, (f a).account = a.account ∧ (f a).master = a.master) :
    ((t.update (·.account) name f).get (·.account) A).map (·.master) =
      (t.get (·.account) A).map (·.master) := by
  by_cases hA : A = name
  · subst hA
    rw [Table.get_update_same t (·.account) A f fun a => (hf a).1, Option.map_map]
    exact congrArg (fun g => (t.get (·.account) A).map g) (funext fun a => (hf a).2)
  · rw [Table.get_update_ne t (·.account) f hA fun a => (hf a).1]

/-- An update without a new master authority leaves the old one. -/
theorem accountUpdate_master {o : AccountUpdateOperation} (hmaster : o.master = none)
    (h : db.accountUpdate o = .ok db') : (db'.title A).master = (db.title A).master := by
  simp only [accountUpdate, bind_eq_ok, pure_eq_ok] at h
  obtain ⟨_, -, _, -, _, -, auth, -, db₁, hchange, _, -, _, -, rfl⟩ := h
  unfold changeMaster at hchange
  rw [hmaster] at hchange
  cases hchange
  have hstore (db : Db) : (db.storeAccountJsonMetadata o.account o.jsonMetadata true).accountAuthorities =
      db.accountAuthorities := by
    unfold storeAccountJsonMetadata
    split
    · rfl
    · split <;> rfl
  show Option.map _ (Table.get (Table.update _ _ _ _) _ A) =
    Option.map _ (db.accountAuthorities.get (·.account) A)
  rw [hstore]
  exact master_updateAuthority db.accountAuthorities o.account fun _ => ⟨rfl, rfl⟩

/-- The request was made by the recovery partner, or by the top witness for an account that has
no partner. -/
def PartnerOf (db : Db) (a : AccountObject) (partner : AccountName) : Prop :=
  if a.recoveryAccount ≠ "" then partner = a.recoveryAccount
  else (orderBy witnessVoteOrder db.witnesses.rows).head?.map (·.owner) = some partner

theorem checkRecoveryPartner_partnerOf {a : AccountObject} {partner : AccountName}
    (h : db.checkRecoveryPartner a.recoveryAccount partner = .ok ()) : db.PartnerOf a partner := by
  unfold checkRecoveryPartner at h
  unfold PartnerOf
  split
  · rename_i hne
    rw [if_pos hne, fcAssert_eq_ok] at h
    exact h.symm
  · rename_i hne
    rw [if_neg hne, fcAssert_eq_ok] at h
    exact h

/-- A request changes no record; a new request names what its partner has asked for. -/
theorem requestAccountRecovery_kept {o : RequestAccountRecoveryOperation}
    (hkeyed : db.accountRecoveryRequests.Keyed (·.id)) (h : db.requestAccountRecovery o = .ok db') :
    db'.title A = db.title A ∧ ∀ r ∈ db'.accountRecoveryRequests.rows,
      r ∉ db.accountRecoveryRequests.rows →
        o.accountToRecover = r.accountToRecover ∧ o.newMasterAuthority = r.newMasterAuthority ∧
        ∀ a, db.findAccount r.accountToRecover = some a → db.PartnerOf a o.recoveryAccount := by
  simp only [requestAccountRecovery, getAccount, bind_eq_ok, getOrThrow_eq_ok] at h
  obtain ⟨_, -, account, haccount, _, hcheck, h⟩ := h
  have hpartner : ∀ a, db.findAccount o.accountToRecover = some a →
      db.PartnerOf a o.recoveryAccount := by
    intro a ha
    rw [haccount] at ha
    cases ha
    exact checkRecoveryPartner_partnerOf hcheck
  split at h
  · simp only [bind_eq_ok, pure_eq_ok] at h
    obtain ⟨_, -, _, -, _, -, rfl⟩ := h
    refine ⟨rfl, fun r hr hnew => ?_⟩
    rcases List.mem_append.1 hr with hr | hr
    · exact absurd hr hnew
    · rw [List.mem_singleton] at hr
      subst hr
      exact ⟨rfl, rfl, hpartner⟩
  · rename_i request hrequest
    split at h
    · rw [pure_eq_ok] at h
      subst h
      exact ⟨rfl, fun r hr hnew => absurd (List.mem_of_mem_eraseP hr) hnew⟩
    · simp only [bind_eq_ok, pure_eq_ok] at h
      obtain ⟨_, -, _, -, rfl⟩ := h
      refine ⟨rfl, fun r hr hnew => ?_⟩
      rcases Table.mem_update hr with hr | ⟨x, hx, rfl⟩
      · exact absurd hr hnew
      · have hsame : x = request := by
          rw [hkeyed.get (Table.get_mem hrequest)] at hx
          exact (Option.some.inj hx).symm
        have hname : x.accountToRecover = o.accountToRecover := by
          rw [hsame]
          exact Table.get_key hrequest
        refine ⟨hname.symm, rfl, fun a ha => hpartner a ?_⟩
        rw [← hname]
        exact ha

theorem recoverAccount_kept {o : RecoverAccountOperation} (hname : A ≠ o.accountToRecover)
    (h : db.recoverAccount o = .ok db') : Kept A db db' := by
  simp only [recoverAccount, bind_eq_ok, pure_eq_ok] at h
  obtain ⟨_, -, _, -, request, -, _, -, _, -, db₁, hmaster, rfl⟩ := h
  have herase : Kept A db { db with
      accountRecoveryRequests := db.accountRecoveryRequests.erase (·.id) request.id } :=
    ⟨id, rfl, fun _ hr _ => List.mem_of_mem_eraseP hr⟩
  refine herase.trans ((updateMasterAuthority_kept hname hmaster).trans ?_)
  exact kept_modifyAccount db₁ hname fun _ => rfl

theorem changeRecoveryAccount_kept {o : ChangeRecoveryAccountOperation}
    (h : db.changeRecoveryAccount o = .ok db') : Kept A db db' := by
  simp only [changeRecoveryAccount, bind_eq_ok] at h
  obtain ⟨_, -, account, -, h⟩ := h
  split at h
  · rw [pure_eq_ok] at h
    rw [← h]
    exact ⟨id, rfl, fun _ hr _ => hr⟩
  · split at h <;>
    · rw [pure_eq_ok] at h
      rw [← h]
      exact ⟨id, rfl, fun _ hr _ => hr⟩

/-! ## Sales -/

theorem returnBid_kept (h : db.returnBid name = .ok db') : Kept A db db' := by
  simp only [returnBid, bind_eq_ok, pure_eq_ok] at h
  obtain ⟨a, -, bidder, -, reserved, -, balance, -, rfl⟩ := h
  exact kept_modifyAccount_of_same db a.currentBidder fun _ => ⟨rfl, rfl, rfl⟩

theorem returnBidIf_kept {c : Prop} [Decidable c] (h : returnBidIf c db name = .ok db') :
    Kept A db db' := by
  unfold returnBidIf at h
  split at h
  · exact returnBid_kept h
  · rw [pure_eq_ok] at h
    exact h ▸ .refl A db

theorem resetBidIf_kept {c : Prop} [Decidable c] (h : resetBidIf c db name = .ok db') :
    Kept A db db' := by
  unfold resetBidIf at h
  split at h
  · simp only [resetBid, bind_eq_ok, pure_eq_ok] at h
    obtain ⟨db₁, hreturn, rfl⟩ := h
    exact (returnBid_kept hreturn).trans
      (kept_modifyAccount_of_same db₁ name fun _ => ⟨rfl, rfl, rfl⟩)
  · rw [pure_eq_ok] at h
    exact h ▸ .refl A db

variable {a : AccountObject}

theorem setSeller_kept {db₁ : Db} {old : AccountName} {fee : Int} {msg : String}
    (ha : db.findAccount A = some a) (h : db.paySaleFee name old fee msg = .ok db₁)
    (seller : AccountName) : Kept A db (db₁.setAccountSeller name seller) :=
  .of_core ha ((setAccountSeller_core db₁ _ _).trans (paySaleFee_core h))

theorem setAccountPrice_kept {o : SetAccountPriceOperation} (ha : db.findAccount A = some a)
    (h : db.setAccountPrice o = .ok db') : Kept A db db' := by
  simp only [setAccountPrice, bind_eq_ok] at h
  obtain ⟨account, -, _, -, db₁, hfee, _, -, h⟩ := h
  refine (setSeller_kept ha hfee o.accountSeller).trans ?_
  split at h
  · simp only [bind_eq_ok, pure_eq_ok] at h
    obtain ⟨db₂, hreset, rfl⟩ := h
    exact (resetBidIf_kept hreset).trans
      (kept_modifyAccount_of_same db₂ o.account fun _ => ⟨rfl, rfl, rfl⟩)
  · simp only [bind_eq_ok, pure_eq_ok] at h
    obtain ⟨db₂, hreturn, rfl⟩ := h
    exact (returnBidIf_kept hreturn).trans
      (kept_modifyAccount_of_same db₂ o.account fun _ => ⟨rfl, rfl, rfl⟩)

theorem targetAccountSale_kept {o : TargetAccountSaleOperation} (ha : db.findAccount A = some a)
    (h : db.targetAccountSale o = .ok db') : Kept A db db' := by
  simp only [targetAccountSale, bind_eq_ok] at h
  obtain ⟨account, -, _, -, _, -, db₁, hfee, _, -, h⟩ := h
  refine (setSeller_kept ha hfee o.accountSeller).trans ?_
  split at h
  · simp only [bind_eq_ok, pure_eq_ok] at h
    obtain ⟨db₂, hreset, rfl⟩ := h
    refine (resetBidIf_kept hreset).trans ((kept_modifyAccount_of_same db₂ o.account ?_).trans
      (kept_modifyAccount_of_same _ o.account ?_))
    · exact fun _ => ⟨rfl, rfl, rfl⟩
    · exact fun _ => ⟨rfl, rfl, rfl⟩
  · simp only [bind_eq_ok, pure_eq_ok] at h
    obtain ⟨db₂, hreturn, rfl⟩ := h
    refine (returnBidIf_kept hreturn).trans ((kept_modifyAccount_of_same db₂ o.account ?_).trans
      (kept_modifyAccount_of_same _ o.account ?_))
    · exact fun _ => ⟨rfl, rfl, rfl⟩
    · exact fun _ => ⟨rfl, rfl, rfl⟩

theorem bidAccount_kept {clock : TimePointSec} {o : BuyAccountOperation} {b : AccountObject}
    (h : db.bidAccount clock o b = .ok db') : Kept A db db' := by
  simp only [bidAccount, reserveBid, bind_eq_ok, pure_eq_ok] at h
  obtain ⟨_, -, _, -, db₁, hreturn, ⟨reserved, balance⟩, -, rfl⟩ := h
  refine (returnBidIf_kept hreturn).trans ((kept_modifyAccount_of_same db₁ o.account ?_).trans
    (kept_modifyAccount_of_same _ o.buyer ?_))
  · exact fun _ => ⟨rfl, rfl, rfl⟩
  · exact fun _ => ⟨rfl, rfl, rfl⟩

/-- Only an account that is on sale is bought. -/
theorem buyAccount_kept {fc : Fc} {clock : TimePointSec} {o : BuyAccountOperation}
    (ha : db.findAccount A = some a) (hsale : ¬ (o.account = A ∧ a.accountOnSale = true))
    (h : buyAccount fc clock db o = .ok db') : Kept A db db' := by
  simp only [buyAccount, bind_eq_ok] at h
  obtain ⟨buyer, -, _, -, _, -, h⟩ := h
  split at h
  · rename_i b hb
    simp only [buyExisting, bind_eq_ok, fcAssert_eq_ok] at h
    obtain ⟨_, -, _, hon, _, -, _, -, h⟩ := h
    have hname : A ≠ o.account := by
      intro heq
      rw [← heq, ha] at hb
      cases hb
      exact hsale ⟨heq.symm, hon⟩
    split at h
    · exact bidAccount_kept h
    · obtain ⟨db₁, hturns, -, rfl⟩ := buyNow_turns h
      refine (Kept.of_turns ha hturns).trans ((kept_modifyAccount db₁ hname ?_).trans
        (kept_updateAuthority _ hname fun _ => rfl))
      exact fun _ => rfl
  · exact .of_turns ha (buySubaccount_turns h)

end Db

/-! ## Permissions -/

/-- The operations after which an account may have another record. -/
def Operation.concerns (A : AccountName) (a : AccountObject) : Operation → Prop
  | .accountUpdate o => o.account = A
  | .recoverAccount o => o.accountToRecover = A
  | .buyAccount o => o.account = A ∧ a.accountOnSale = true
  | _ => False

variable {fc : Fc} {producing : Bool} {clock : TimePointSec} {op : Operation} {A : AccountName}
  {a : AccountObject} {db db' : Db}

/-- **Operations** keep the records of the accounts that they do not concern. -/
theorem evaluate_kept (ha : db.findAccount A = some a) (hop : ¬ Operation.concerns A a op)
    (hrequest : ∀ o, op ≠ .requestAccountRecovery o)
    (h : Db.evaluate fc producing clock db op = .ok db') : db.Kept A db' := by
  cases htouch : Operation.touches .control op with
  | false =>
    have hmemos : Operation.touches .memos op = false := by
      cases op with
      | accountUpdate o | buyAccount o => cases htouch
      | _ => rfl
    exact .of_drift ha (evaluate_drift htouch h) (evaluate_drift hmemos h)
  | true =>
    cases op with
    | accountUpdate o => exact Db.accountUpdate_kept (fun heq => hop heq.symm) h
    | requestAccountRecovery o => exact absurd rfl (hrequest o)
    | recoverAccount o => exact Db.recoverAccount_kept (fun heq => hop heq.symm) h
    | changeRecoveryAccount o => exact Db.changeRecoveryAccount_kept h
    | setAccountPrice o => exact Db.setAccountPrice_kept ha h
    | targetAccountSale o => exact Db.targetAccountSale_kept ha h
    | buyAccount o => exact Db.buyAccount_kept ha hop h
    | _ => cases htouch

/-- The operation needs the master authority of the account, recovers the account as its partner
has asked and with an authority that it had before, or buys it while it is on sale. -/
def MayReplaceMaster (db : Db) (A : AccountName) (a : AccountObject) (op : Operation) : Prop :=
  A ∈ (requiredAuthorities op).master ∨
  (∃ o, op = .recoverAccount o ∧ o.accountToRecover = A ∧
    (∃ r, db.accountRecoveryRequests.get (·.accountToRecover) A = some r ∧
      r.newMasterAuthority = o.newMasterAuthority) ∧
    ∃ h ∈ db.masterAuthorityHistory.rows,
      h.account = A ∧ h.previousMasterAuthority = o.recentMasterAuthority) ∨
  ∃ o, op = .buyAccount o ∧ o.account = A ∧ a.accountOnSale = true

theorem recoverAccount_needs {o : RecoverAccountOperation} (hname : o.accountToRecover = A)
    (h : db.recoverAccount o = .ok db') : MayReplaceMaster db A a (.recoverAccount o) := by
  simp only [Db.recoverAccount, bind_eq_ok, getOrThrow_eq_ok, fcAssert_eq_ok, List.any_eq_true,
    Bool.and_eq_true, decide_eq_true_eq] at h
  obtain ⟨_, -, _, -, r, hr, _, hmatch, _, ⟨past, hpast, hsame, hrecent⟩, -⟩ := h
  rw [hname] at hr hsame
  exact .inr (.inl ⟨o, rfl, hname, ⟨r, hr, hmatch⟩, past, hpast, hsame, hrecent⟩)

/-- The operation updates the account, with its active authority. -/
def MayUpdate (A : AccountName) (op : Operation) : Prop :=
  ∃ o, op = .accountUpdate o ∧ o.account = A ∧ A ∈ (requiredAuthorities op).active

/-- The operation asks for the recovery of the account, and it is the partner who asks. -/
def MayRequestRecovery (db : Db) (A : AccountName) (a : AccountObject) (op : Operation)
    (newMaster : Authority) : Prop :=
  ∃ o, op = .requestAccountRecovery o ∧ o.accountToRecover = A ∧
    o.newMasterAuthority = newMaster ∧ db.PartnerOf a o.recoveryAccount ∧
    o.recoveryAccount ∈ (requiredAuthorities op).active

/-- An operation that concerns the account may change it. -/
theorem concerns_needs (hop : Operation.concerns A a op)
    (h : Db.evaluate fc producing clock db op = .ok db') :
    MayReplaceMaster db A a op ∨
      MayUpdate A op ∧ (db'.title A).master = (db.title A).master := by
  cases op with
  | accountUpdate o =>
    have hname : o.account = A := hop
    cases hmaster : o.master with
    | none =>
      refine .inr ⟨⟨o, rfl, hname, ?_⟩, Db.accountUpdate_master hmaster h⟩
      simp only [requiredAuthorities, hmaster, hname]
      exact List.mem_singleton_self A
    | some master =>
      refine .inl (.inl ?_)
      simp only [requiredAuthorities, hmaster, hname]
      exact List.mem_singleton_self A
  | recoverAccount o => exact .inl (recoverAccount_needs hop h)
  | buyAccount o => exact .inl (.inr (.inr ⟨o, rfl, hop⟩))
  | _ => exact hop.elim

theorem updateMasterAuthority_requests {name : AccountName} {master : Authority}
    (h : db.updateMasterAuthority name master = .ok db') :
    db'.accountRecoveryRequests = db.accountRecoveryRequests := by
  simp only [Db.updateMasterAuthority, bind_eq_ok, pure_eq_ok] at h
  obtain ⟨auth, -, rfl⟩ := h
  split <;> rfl

/-- The operations that change records add no request. -/
theorem concerns_requests (ha : db.findAccount A = some a) (hop : Operation.concerns A a op)
    (h : Db.evaluate fc producing clock db op = .ok db') {r : AccountRecoveryRequestObject}
    (hr : r ∈ db'.accountRecoveryRequests.rows) (hA : r.accountToRecover = A) :
    r ∈ db.accountRecoveryRequests.rows := by
  cases op with
  | accountUpdate o =>
    simp only [Db.evaluate, Db.accountUpdate, bind_eq_ok, pure_eq_ok] at h
    obtain ⟨_, -, _, -, _, -, auth, -, db₁, hmaster, _, -, _, -, rfl⟩ := h
    have hr₁ := (@Db.storeAccountJsonMetadata_kept A o.account _ o.jsonMetadata
      true).requests r hr hA
    unfold Db.changeMaster at hmaster
    split at hmaster
    · cases hmaster
      exact hr₁
    · simp only [bind_eq_ok] at hmaster
      obtain ⟨_, -, _, -, hupdate⟩ := hmaster
      rw [← updateMasterAuthority_requests hupdate]
      exact hr₁
  | recoverAccount o =>
    simp only [Db.evaluate, Db.recoverAccount, bind_eq_ok, pure_eq_ok] at h
    obtain ⟨_, -, _, -, request, -, _, -, _, -, db₁, hmaster, rfl⟩ := h
    have hr₁ : r ∈ db₁.accountRecoveryRequests.rows := hr
    rw [updateMasterAuthority_requests hmaster] at hr₁
    exact List.mem_of_mem_eraseP hr₁
  | buyAccount o =>
    simp only [Db.evaluate, Db.buyAccount, bind_eq_ok] at h
    obtain ⟨buyer, -, _, -, _, -, h⟩ := h
    split at h
    · simp only [Db.buyExisting, bind_eq_ok] at h
      obtain ⟨_, -, _, -, _, -, _, -, h⟩ := h
      split at h
      · exact (Db.bidAccount_kept (A := A) h).requests r hr hA
      · obtain ⟨db₁, hturns, -, rfl⟩ := Db.buyNow_turns h
        exact (Db.Kept.of_turns ha hturns).requests r hr hA
    · exact (Db.Kept.of_turns ha (Db.buySubaccount_turns h)).requests r hr hA
  | _ => exact hop.elim

/-- A request is made by the partner only, and it leaves every record as it is. -/
theorem request_needs (ha : db.findAccount A = some a)
    (hkeyed : db.accountRecoveryRequests.Keyed (·.id)) {o : RequestAccountRecoveryOperation}
    (h : db.requestAccountRecovery o = .ok db') {r : AccountRecoveryRequestObject}
    (hr : r ∈ db'.accountRecoveryRequests.rows) (hnew : r ∉ db.accountRecoveryRequests.rows)
    (hA : r.accountToRecover = A) :
    MayRequestRecovery db A a (.requestAccountRecovery o) r.newMasterAuthority := by
  obtain ⟨hname, hmaster, hpartner⟩ :=
    (Db.requestAccountRecovery_kept (A := A) hkeyed h).2 r hr hnew
  refine ⟨o, rfl, hname.trans hA, hmaster, hpartner a ?_, List.mem_singleton_self _⟩
  rw [hA]
  exact ha

/-- **Authorities change only with authority.**  Whatever operation changes the record of an
account that exists, and whatever operation asks for its recovery, had the permission. -/
theorem authority_needed (ha : db.findAccount A = some a)
    (hkeyed : db.accountRecoveryRequests.Keyed (·.id))
    (h : Db.evaluate fc producing clock db op = .ok db') :
    ((db'.title A).master ≠ (db.title A).master → MayReplaceMaster db A a op) ∧
    (db'.title A ≠ db.title A → MayReplaceMaster db A a op ∨ MayUpdate A op) ∧
    ∀ r ∈ db'.accountRecoveryRequests.rows, r ∉ db.accountRecoveryRequests.rows →
      r.accountToRecover = A → MayRequestRecovery db A a op r.newMasterAuthority := by
  by_cases hrequest : ∃ o, op = .requestAccountRecovery o
  · obtain ⟨o, rfl⟩ := hrequest
    have htitle := (Db.requestAccountRecovery_kept (A := A) hkeyed h).1
    refine ⟨fun hne => absurd (congrArg Title.master htitle) hne, fun hne => absurd htitle hne, ?_⟩
    exact fun r hr hnew hA => request_needs ha hkeyed h hr hnew hA
  · have hno : ∀ o, op ≠ .requestAccountRecovery o := fun o heq => hrequest ⟨o, heq⟩
    by_cases hop : Operation.concerns A a op
    · refine ⟨fun hne => ?_, fun _ => ?_, fun r hr hnew hA => ?_⟩
      · rcases concerns_needs hop h with hneeds | ⟨-, hmaster⟩
        · exact hneeds
        · exact absurd hmaster hne
      · rcases concerns_needs hop h with hneeds | ⟨hneeds, -⟩
        · exact .inl hneeds
        · exact .inr hneeds
      · exact absurd (concerns_requests ha hop h hr hA) hnew
    · have hkept := evaluate_kept ha hop hno h
      refine ⟨fun hne => absurd (congrArg Title.master hkept.title) hne,
        fun hne => absurd hkept.title hne, ?_⟩
      exact fun r hr hnew hA => absurd (hkept.requests r hr hA) hnew

/-- alice gives her active authority to another key. -/
def newActive : Operation :=
  .accountUpdate { account := "alice", master := none, active := some (Db.singleKey 9)
                   regular := none, memoKey := 0, jsonMetadata := "" }

theorem authority_needed_update :
    ∃ db', Db.evaluate smallEnv.fc true 33 (smallStore []).db newActive = .ok db' ∧
      db'.title "alice" ≠ (smallStore []).db.title "alice" ∧
      ∃ a, MayReplaceMaster (smallStore []).db "alice" a newActive ∨ MayUpdate "alice" newActive := by
  have hrun : returns (Db.evaluate smallEnv.fc true 33 (smallStore []).db newActive)
      (fun db' => decide ((db'.title "alice").authority.map (·.active) ≠
        ((smallStore []).db.title "alice").authority.map (·.active))) = true := by
    decide +kernel
  obtain ⟨db', hdb', hne⟩ := returns_eq_true hrun
  have hchange : db'.title "alice" ≠ (smallStore []).db.title "alice" :=
    fun heq => of_decide_eq_true hne
      (congrArg (fun t : Title => t.authority.map (·.active)) heq)
  have hkeyed : (smallStore []).db.accountRecoveryRequests.Keyed (·.id) := List.nodup_nil
  have halice : (smallStore []).db.findAccount "alice" =
      some { id := 3, name := "alice", balance := 2000, vestingShares := 1000000 } := rfl
  exact ⟨db', hdb', hchange, _, (authority_needed halice hkeyed hdb').2.1 hchange⟩

end VizCore.Chain
