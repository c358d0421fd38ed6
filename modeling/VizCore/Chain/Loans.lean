import VizCore.Chain.Invariant

/-!
# The ledger of delegations

An account counts the shares that it has delegated and the shares that it has received.  What is
delegated stands in one table, what was taken back and is not yet free again in another.  The
counters are changed by hand wherever a row is created, changed or removed.

* `LoanMove`: how much a change moves the counters against the tables;
* `delegateVestingShares_loans`, `returnDelegation_loans`: the branches move them by nothing;
* `loans_keepsBlock`: everything that the chain does keeps the counters.
-/

namespace VizCore.Chain

open VizCore.Lib VizCore.Protocol

/-- The counters of the accounts, and the two tables. -/
structure LoanBook where
  accounts : Table LoanRow
  delegations : Table VestingDelegationObject
  expirations : Table VestingDelegationExpirationObject

def Aspect.View.loans (v : Aspect.View .loans) : LoanBook :=
  ⟨v.rows, (v.rest : LoanRest).delegations, (v.rest : LoanRest).expirations⟩

def Db.loans (db : Db) : LoanBook := (db.view .loans).loans

namespace LoanBook

variable (b : LoanBook) (name : AccountName)

/-- What the account counts as delegated. -/
def delegated : Int := b.accounts.field (·.name) (·.delegated) name

/-- What the account counts as received. -/
def received : Int := b.accounts.field (·.name) (·.received) name

/-- What the account delegates. -/
def lent : Int := b.delegations.total (·.delegator) (·.vestingShares) name

/-- What the account has taken back and may not use yet. -/
def limbo : Int := b.expirations.total (·.delegator) (·.vestingShares) name

/-- What others delegate to the account. -/
def borrowed : Int := b.delegations.total (·.delegatee) (·.vestingShares) name

/-- What the account counts as delegated and the tables do not. -/
def overLent : Int := b.delegated name - b.lent name - b.limbo name

/-- What the account counts as received and the tables do not. -/
def overReceived : Int := b.received name - b.borrowed name

/-- Rows are known by their ids, and none holds a negative amount. -/
structure Sound (b : LoanBook) : Prop where
  delegations : b.delegations.Numbered (·.id)
  expirations : b.expirations.Numbered (·.id)
  lent : b.delegations.All fun d => 0 ≤ d.vestingShares
  limbo : b.expirations.All fun d => 0 ≤ d.vestingShares

end LoanBook

/-- A change that moves the counter of what `lender` delegates by `d` and the counter of what
`borrower` receives by `r`, against the tables. -/
structure LoanMove (lender borrower : AccountName) (d r : Int) (b b' : LoanBook) : Prop where
  overLent : ∀ name, b'.overLent name = b.overLent name + if lender = name then d else 0
  overReceived : ∀ name,
    b'.overReceived name = b.overReceived name + if borrower = name then r else 0
  sound : b.Sound → b'.Sound

namespace LoanMove

variable {lender borrower : AccountName} {d r d' r' : Int} {a b c : LoanBook}

theorem refl (lender borrower : AccountName) (b : LoanBook) : LoanMove lender borrower 0 0 b b where
  overLent name := by simp
  overReceived name := by simp
  sound := id

theorem trans (h : LoanMove lender borrower d r a b) (h' : LoanMove lender borrower d' r' b c) :
    LoanMove lender borrower (d + d') (r + r') a c where
  overLent name := by
    rw [h'.overLent, h.overLent]
    split <;> omega
  overReceived name := by
    rw [h'.overReceived, h.overReceived]
    split <;> omega
  sound ha := h'.sound (h.sound ha)

theorem cast (h : LoanMove lender borrower d r a b) (hd : d = d') (hr : r = r') :
    LoanMove lender borrower d' r' a b := hd ▸ hr ▸ h

theorem of_eq (lender borrower : AccountName) (h : b = a) : LoanMove lender borrower 0 0 a b :=
  h ▸ refl lender borrower a

/-! ## The tables -/

theorem createDelegation (b : LoanBook) {v : Int} (hv : 0 ≤ v) (t : TimePointSec) :
    LoanMove lender borrower (-v) (-v) b { b with
      delegations := b.delegations.create fun id => ⟨id, lender, borrower, v, t⟩ } where
  overLent name := by
    unfold LoanBook.overLent LoanBook.lent
    rw [Table.total_create]
    show b.delegated name - (_ + if lender = name then v else 0) - b.limbo name = _
    split <;> omega
  overReceived name := by
    unfold LoanBook.overReceived LoanBook.borrowed
    rw [Table.total_create]
    show b.received name - (_ + if borrower = name then v else 0) = _
    split <;> omega
  sound hb := by
    have hids : (b.delegations.create fun id =>
        (⟨id, lender, borrower, v, t⟩ : VestingDelegationObject)).Numbered (·.id) :=
      hb.delegations.create fun _ => rfl
    exact ⟨hids, hb.expirations, Table.all_create hb.lent hv, hb.limbo⟩

theorem createExpiration (b : LoanBook) (borrower : AccountName) {v : Int} (hv : 0 ≤ v)
    (t : TimePointSec) :
    LoanMove lender borrower (-v) 0 b { b with
      expirations := b.expirations.create fun id => ⟨id, lender, v, t⟩ } where
  overLent name := by
    unfold LoanBook.overLent LoanBook.limbo
    rw [Table.total_create]
    show b.delegated name - b.lent name - (_ + if lender = name then v else 0) = _
    split <;> omega
  overReceived name := by
    rw [ite_self, add_zero]
    rfl
  sound hb := by
    have hids : (b.expirations.create fun id =>
        (⟨id, lender, v, t⟩ : VestingDelegationExpirationObject)).Numbered (·.id) :=
      hb.expirations.create fun _ => rfl
    exact ⟨hb.delegations, hids, hb.lent, Table.all_create hb.limbo hv⟩

theorem eraseExpiration {b : LoanBook} {e : VestingDelegationExpirationObject}
    (he : b.expirations.get (·.id) e.id = some e) (borrower : AccountName) :
    LoanMove e.delegator borrower e.vestingShares 0 b { b with
      expirations := b.expirations.erase (·.id) e.id } where
  overLent name := by
    unfold LoanBook.overLent LoanBook.limbo
    rw [Table.total_erase he]
    show b.delegated name - b.lent name - (_ - if e.delegator = name then _ else 0) = _
    split <;> omega
  overReceived name := by
    rw [ite_self, add_zero]
    rfl
  sound hb := ⟨hb.delegations, hb.expirations.erase _ _, hb.lent, Table.all_erase hb.limbo⟩

/-- The row of a delegation changes its amount. -/
theorem updateDelegation {b : LoanBook} {x : VestingDelegationObject}
    (hx : b.delegations.get (·.id) x.id = some x) {v : Int} (hv : 0 ≤ v) :
    LoanMove x.delegator x.delegatee (x.vestingShares - v) (x.vestingShares - v) b { b with
      delegations := b.delegations.update (·.id) x.id fun d => { d with vestingShares := v } } where
  overLent name := by
    unfold LoanBook.overLent LoanBook.lent
    rw [Table.total_update hx]
    show b.delegated name - (_ + ((if x.delegator = name then v else 0) -
      if x.delegator = name then _ else 0)) - b.limbo name = _
    split <;> omega
  overReceived name := by
    unfold LoanBook.overReceived LoanBook.borrowed
    rw [Table.total_update hx]
    show b.received name - (_ + ((if x.delegatee = name then v else 0) -
      if x.delegatee = name then _ else 0)) = _
    split <;> omega
  sound hb := ⟨hb.delegations.update _ _ _ fun _ => rfl, hb.expirations,
    Table.all_update hb.lent fun _ _ _ => hv, hb.limbo⟩

/-- The row of a delegation goes. -/
theorem eraseDelegation {b : LoanBook} {x : VestingDelegationObject}
    (hx : b.delegations.get (·.id) x.id = some x) :
    LoanMove x.delegator x.delegatee x.vestingShares x.vestingShares b { b with
      delegations := b.delegations.erase (·.id) x.id } where
  overLent name := by
    unfold LoanBook.overLent LoanBook.lent
    rw [Table.total_erase hx]
    show b.delegated name - (_ - if x.delegator = name then _ else 0) - b.limbo name = _
    split <;> omega
  overReceived name := by
    unfold LoanBook.overReceived LoanBook.borrowed
    rw [Table.total_erase hx]
    show b.received name - (_ - if x.delegatee = name then _ else 0) = _
    split <;> omega
  sound hb := ⟨hb.delegations.erase _ _, hb.expirations, Table.all_erase hb.lent, hb.limbo⟩

/-! ## The counters -/

theorem setDelegated {b : LoanBook} {row : LoanRow} (hrow : b.accounts.get (·.name) lender = some row)
    (borrower : AccountName) (d : Int) :
    LoanMove lender borrower d 0 b { b with
      accounts := b.accounts.update (·.name) lender fun x =>
        { x with delegated := row.delegated + d } } where
  overLent name := by
    have hfield := Table.field_update_add hrow
      (fun x : LoanRow => { x with delegated := row.delegated + d }) (·.delegated) d (fun _ => rfl)
      rfl name
    show Table.field _ _ _ name - b.lent name - b.limbo name = _
    rw [hfield, if_congr eq_comm rfl rfl]
    unfold LoanBook.overLent LoanBook.delegated
    omega
  overReceived name := by
    have hfield := Table.field_update_of_same b.accounts (·.name) lender name
      (fun x : LoanRow => { x with delegated := row.delegated + d }) (·.received) (fun _ => rfl)
      fun _ => rfl
    show Table.field _ _ _ name - b.borrowed name = _
    rw [hfield, ite_self, add_zero]
    rfl
  sound hb := ⟨hb.delegations, hb.expirations, hb.lent, hb.limbo⟩

theorem setReceived {b : LoanBook} {row : LoanRow}
    (hrow : b.accounts.get (·.name) borrower = some row) (lender : AccountName) (r : Int) :
    LoanMove lender borrower 0 r b { b with
      accounts := b.accounts.update (·.name) borrower fun x =>
        { x with received := row.received + r } } where
  overLent name := by
    have hfield := Table.field_update_of_same b.accounts (·.name) borrower name
      (fun x : LoanRow => { x with received := row.received + r }) (·.delegated) (fun _ => rfl)
      fun _ => rfl
    show Table.field _ _ _ name - b.lent name - b.limbo name = _
    rw [hfield, ite_self, add_zero]
    rfl
  overReceived name := by
    have hfield := Table.field_update_add hrow
      (fun x : LoanRow => { x with received := row.received + r }) (·.received) r (fun _ => rfl)
      rfl name
    show Table.field _ _ _ name - b.borrowed name = _
    rw [hfield, if_congr eq_comm rfl rfl]
    unfold LoanBook.overReceived LoanBook.received
    omega
  sound hb := ⟨hb.delegations, hb.expirations, hb.lent, hb.limbo⟩

/-- A new account that has received `r`. -/
theorem enroll {b : LoanBook} (hnew : b.accounts.get (·.name) borrower = none)
    (lender : AccountName) (r : Int) :
    LoanMove lender borrower 0 r b { b with
      accounts := b.accounts.create fun _ => ⟨borrower, 0, r⟩ } where
  overLent name := by
    have hfield : (b.accounts.create fun _ => (⟨borrower, 0, r⟩ : LoanRow)).field _ _ name = _ :=
      Table.field_create hnew (·.delegated) rfl name
    show Table.field _ _ _ name - b.lent name - b.limbo name = _
    rw [hfield, ite_self, ite_self, add_zero, add_zero]
    rfl
  overReceived name := by
    have hfield : (b.accounts.create fun _ => (⟨borrower, 0, r⟩ : LoanRow)).field (·.name)
        (·.received) name = b.received name + if name = borrower then r else 0 :=
      Table.field_create hnew (·.received) rfl name
    show Table.field _ _ _ name - b.borrowed name = _
    rw [hfield, if_congr eq_comm rfl rfl]
    unfold LoanBook.overReceived
    omega
  sound hb := ⟨hb.delegations, hb.expirations, hb.lent, hb.limbo⟩

end LoanMove

/-! ## The evaluators -/

namespace Db

variable {fc : Fc} {db db' : Db} {name : AccountName}

theorem loans_of_core (h : db'.core = db.core) : db'.loans = db.loans :=
  congrArg Aspect.View.loans (view_of_core (x := .loans) h)

theorem loans_find (db : Db) (name : AccountName) :
    db.loans.accounts.get (·.name) name = (db.findAccount name).map fun a =>
      ⟨a.name, a.delegatedVestingShares, a.receivedVestingShares⟩ :=
  rows_find (x := .loans) db (fun _ => rfl) name

theorem loans_found {a : AccountObject} (ha : db.findAccount name = some a) :
    db.loans.accounts.get (·.name) name =
      some ⟨a.name, a.delegatedVestingShares, a.receivedVestingShares⟩ := by
  rw [loans_find, ha]
  rfl

theorem loans_modifyAccount (db : Db) (name : AccountName) (f : AccountObject → AccountObject)
    (φ : LoanRow → LoanRow)
    (h : ∀ a, Aspect.row .loans (f a).core = φ (Aspect.row .loans a.core)) :
    (db.modifyAccount name f).loans =
      { db.loans with accounts := db.loans.accounts.update (·.name) name φ } :=
  congrArg (LoanBook.mk · db.vestingDelegations db.vestingDelegationExpirations)
    (rows_modifyAccount (x := .loans) db (fun _ => rfl) name f φ h)

/-- The counter of what is delegated goes up by `d`. -/
theorem setDelegated_loans {a : AccountObject} (ha : db.findAccount name = some a)
    (borrower : AccountName) {d delegated : Int} (hd : delegated = a.delegatedVestingShares + d) :
    LoanMove name borrower d 0 db.loans
      (db.modifyAccount name fun b => { b with delegatedVestingShares := delegated }).loans := by
  rw [loans_modifyAccount db name _ (fun x : LoanRow => { x with delegated := delegated })
    fun _ => rfl, hd]
  exact LoanMove.setDelegated (loans_found ha) borrower d

theorem addReceived_loans {r : Int} (h : db.addReceived name r = .ok db') (lender : AccountName) :
    LoanMove lender name 0 r db.loans db'.loans := by
  simp only [addReceived, getAccount, bind_eq_ok, getOrThrow_eq_ok, safeAdd_eq_ok, pure_eq_ok] at h
  obtain ⟨a, ha, _, ⟨-, rfl⟩, rfl⟩ := h
  rw [loans_modifyAccount db name _
    (fun x : LoanRow => { x with received := a.receivedVestingShares + r }) fun _ => rfl]
  exact LoanMove.setReceived (loans_found ha) lender r

/-- A first delegation. -/
theorem createIfNew_loans {op : DelegateVestingSharesOperation} {isNew : Bool} {minDelegation : Int}
    (hop : 0 ≤ op.vestingShares.amount) (h : db.createIfNew op isNew minDelegation = .ok db') :
    LoanMove op.delegator op.delegatee (-if isNew then op.vestingShares.amount else 0)
      (-if isNew then op.vestingShares.amount else 0) db.loans db'.loans := by
  cases isNew with
  | false =>
    cases h
    exact LoanMove.refl _ _ _
  | true =>
    simp only [createIfNew, createDelegation, bind_eq_ok, require_eq_ok, pure_eq_ok, if_true] at h
    obtain ⟨_, -, _, -, rfl⟩ := h
    exact LoanMove.createDelegation db.loans hop db.headBlockTime

theorem increaseDelegation_loans {op : DelegateVestingSharesOperation} {isNew : Bool}
    {minDelegation delta : Int} (hop : 0 ≤ op.vestingShares.amount)
    (h : db.increaseDelegation op isNew minDelegation delta = .ok db') :
    LoanMove op.delegator op.delegatee (delta - if isNew then op.vestingShares.amount else 0)
      (-if isNew then op.vestingShares.amount else 0) db.loans db'.loans := by
  simp only [increaseDelegation, getAccount, bind_eq_ok, getOrThrow_eq_ok, safeAdd_eq_ok,
    pure_eq_ok] at h
  obtain ⟨_, -, _, -, _, -, _, -, db₁, hnew, db₂, henergy, a, ha, _, ⟨-, rfl⟩, rfl⟩ := h
  have hcreate := createIfNew_loans hop hnew
  have hsame : LoanMove op.delegator op.delegatee 0 0 db₁.loans db₂.loans :=
    .of_eq _ _ (loans_of_core (sharesSenderRecalcEnergy_core henergy))
  have hcount := setDelegated_loans ha op.delegatee (d := delta) rfl
  exact ((hcreate.trans hsame).trans hcount).cast (by omega) (by omega)

theorem decreaseDelegation_loans {op : DelegateVestingSharesOperation}
    {x : VestingDelegationObject} {minDelegation delta : Int} (hdelta : delta ≤ 0)
    (h : db.decreaseDelegation op x minDelegation delta = .ok db') :
    LoanMove op.delegator op.delegatee delta 0 db.loans db'.loans := by
  simp only [decreaseDelegation, bind_eq_ok, safeSub_eq_ok, pure_eq_ok] at h
  obtain ⟨_, -, _, ⟨-, rfl⟩, rfl⟩ := h
  have hmove : LoanMove op.delegator op.delegatee (-(0 - delta)) 0 db.loans _ :=
    .createExpiration db.loans op.delegatee (by omega)
      (max (db.headBlockTime + energyRegenerationSeconds) x.minDelegationTime)
  exact hmove.cast (by omega) rfl

/-- The row of a delegation follows the new amount. -/
theorem storeDelegation_loans {x : VestingDelegationObject} {v : Int} (hv : 0 ≤ v)
    (hx : db.vestingDelegations.get (·.id) x.id = some x) :
    LoanMove x.delegator x.delegatee (x.vestingShares - v) (x.vestingShares - v) db.loans
      (db.storeDelegation x v).loans := by
  unfold storeDelegation
  split
  · exact LoanMove.updateDelegation (b := db.loans) hx hv
  · have hmove := LoanMove.eraseDelegation (b := db.loans) hx
    exact hmove.cast (by omega) (by omega)

theorem increaseDelegation_delegations {op : DelegateVestingSharesOperation}
    {minDelegation delta : Int} (h : db.increaseDelegation op false minDelegation delta = .ok db') :
    db'.vestingDelegations = db.vestingDelegations := by
  simp only [increaseDelegation, createIfNew, bind_eq_ok, pure_eq_ok] at h
  obtain ⟨_, -, _, -, _, -, _, -, db₁, hnew, db₂, henergy, a, ha, _, -, rfl⟩ := h
  cases hnew
  exact congrArg Core.delegations (sharesSenderRecalcEnergy_core henergy)

theorem addReceived_delegations {r : Int} (h : db.addReceived name r = .ok db') :
    db'.vestingDelegations = db.vestingDelegations := by
  simp only [addReceived, bind_eq_ok, pure_eq_ok] at h
  obtain ⟨_, -, _, -, rfl⟩ := h
  rfl

/-- **Delegating** more, less or nothing any more moves the counters with the tables. -/
theorem delegateVestingShares_loans {op : DelegateVestingSharesOperation}
    (hop : 0 ≤ op.vestingShares.amount) (hdb : db.loans.Sound)
    (h : db.delegateVestingShares op = .ok db') :
    LoanMove op.delegator op.delegatee 0 0 db.loans db'.loans := by
  simp only [delegateVestingShares, bind_eq_ok] at h
  obtain ⟨_, -, _, -, minDelegation, -, h⟩ := h
  split at h
  · simp only [bind_eq_ok] at h
    obtain ⟨_, -, _, -, db₁, hincrease, hreceived⟩ := h
    have hlend := increaseDelegation_loans hop hincrease
    have hborrow := addReceived_loans hreceived op.delegator
    exact (hlend.trans hborrow).cast (by simp) (by simp)
  · rename_i x hget
    have hkeys := Table.get_key hget
    have hlender : x.delegator = op.delegator := congrArg Prod.fst hkeys
    have hborrower : x.delegatee = op.delegatee := congrArg Prod.snd hkeys
    have hx : db.vestingDelegations.get (·.id) x.id = some x :=
      hdb.delegations.get (Table.get_mem hget)
    simp only [bind_eq_ok, safeSub_eq_ok] at h
    obtain ⟨_, ⟨-, rfl⟩, h⟩ := h
    split at h
    · simp only [bind_eq_ok, pure_eq_ok] at h
      obtain ⟨db₁, hincrease, db₂, hreceived, rfl⟩ := h
      have hx₂ : db₂.vestingDelegations.get (·.id) x.id = some x := by
        rw [addReceived_delegations hreceived, increaseDelegation_delegations hincrease]
        exact hx
      have hstore := storeDelegation_loans hop hx₂
      rw [hlender, hborrower] at hstore
      have hlend := increaseDelegation_loans hop hincrease
      have hborrow := addReceived_loans hreceived op.delegator
      exact ((hlend.trans hborrow).trans hstore).cast (by simp) (by simp)
    · rename_i hdelta
      simp only [bind_eq_ok, pure_eq_ok] at h
      obtain ⟨db₁, hdecrease, db₂, hreceived, rfl⟩ := h
      have hlend := decreaseDelegation_loans (not_lt.1 hdelta) hdecrease
      simp only [decreaseDelegation, bind_eq_ok, pure_eq_ok] at hdecrease
      obtain ⟨_, -, _, -, rfl⟩ := hdecrease
      have hx₂ : db₂.vestingDelegations.get (·.id) x.id = some x := by
        rw [addReceived_delegations hreceived]
        exact hx
      have hstore := storeDelegation_loans hop hx₂
      rw [hlender, hborrower] at hstore
      have hborrow := addReceived_loans hreceived op.delegator
      exact ((hlend.trans hborrow).trans hstore).cast (by simp) (by simp)

/-- The books after `account_create`, before the fee is vested. -/
theorem loans_of_openAccount {o : AccountCreateOperation} {delegated : Int} {minTime : TimePointSec}
    (h : db'.core = db.core.openAccount o delegated minTime) :
    db'.loans =
      { accounts := (db.loans.accounts.update (·.name) o.creator fun x =>
          { x with delegated := delegated }).create fun _ =>
            ⟨o.newAccountName, 0, o.delegation.amount⟩
        delegations := if 0 < o.delegation.amount then
            db.loans.delegations.create fun id =>
              ⟨id, o.creator, o.newAccountName, o.delegation.amount, minTime⟩
          else db.loans.delegations
        expirations := db.loans.expirations } := by
  have hupdate := Table.image_update db.core.accounts (Aspect.row .loans) (·.name) o.creator
    (·.withDelegated delegated) (fun x : LoanRow => { x with delegated := delegated }) fun _ => rfl
  have hcreate := (Table.image_create (db.core.accounts.update (·.name) o.creator
    (·.withDelegated delegated)) (Aspect.row .loans) fun id =>
      { AccountCore.fresh id o.newAccountName o.creator o.memoKey with
        received := o.delegation.amount }).trans (congrArg (Table.create · _) hupdate)
  unfold loans view
  rw [h]
  exact congrArg (LoanBook.mk · _ _) hcreate

/-- **A new account** that gets shares from its creator. -/
theorem accountCreate_loans {o : AccountCreateOperation} (hv : o.validate fc = .ok ())
    (h : db.accountCreate o = .ok db') :
    LoanMove o.creator o.newAccountName 0 0 db.loans db'.loans := by
  obtain ⟨creator, db₁, minTime, hcreator, hnew, -, -, hcore, hvest⟩ := accountCreate_core h
  have hpos : 0 ≤ o.delegation.amount := by
    simp only [AccountCreateOperation.validate, bind_eq_ok, fcAssert_eq_ok] at hv
    obtain ⟨_, -, _, -, _, -, _, -, _, -, _, -, _, -, _, hpos, -⟩ := hv
    exact hpos
  have hlend := LoanMove.setDelegated (loans_found hcreator) o.newAccountName o.delegation.amount
  have hopen : LoanMove o.creator o.newAccountName 0 0 db.loans db₁.loans := by
    rw [loans_of_openAccount hcore]
    have habsent : (db.loans.accounts.update (·.name) o.creator fun x =>
        { x with delegated := creator.delegatedVestingShares + o.delegation.amount }).get (·.name)
          o.newAccountName = none := by
      refine (Table.get_update_eq_none db.loans.accounts (·.name) o.creator o.newAccountName
        (fun x : LoanRow => { x with
          delegated := creator.delegatedVestingShares + o.delegation.amount }) fun _ => rfl).2 ?_
      rw [loans_find, hnew]
      rfl
    have henroll := LoanMove.enroll (b := { db.loans with
      accounts := db.loans.accounts.update (·.name) o.creator fun x =>
        { x with delegated := creator.delegatedVestingShares + o.delegation.amount } }) habsent
      o.creator o.delegation.amount
    split
    · have hrow : LoanMove o.creator o.newAccountName (-o.delegation.amount) (-o.delegation.amount)
          { db.loans with
            accounts := (db.loans.accounts.update (·.name) o.creator fun x =>
              { x with delegated := creator.delegatedVestingShares + o.delegation.amount }).create
                fun _ => ⟨o.newAccountName, 0, o.delegation.amount⟩ } _ :=
        .createDelegation _ hpos minTime
      exact ((hlend.trans henroll).trans hrow).cast (by omega) (by omega)
    · exact (hlend.trans henroll).cast (by omega) (by omega)
  rcases hvest with hvest | rfl
  · have hsame : LoanMove o.creator o.newAccountName 0 0 db₁.loans db'.loans :=
      .of_eq _ _ (congrArg Aspect.View.loans (createVesting_view (x := .loans) rfl hvest))
    exact (hopen.trans hsame).cast rfl rfl
  · exact hopen

/-- **A delegation that comes back** leaves the counter with its row. -/
theorem returnDelegation_loans {e : VestingDelegationExpirationObject} (hdb : db.loans.Sound)
    (he : e ∈ db.vestingDelegationExpirations.rows) (h : db.returnDelegation e = .ok db') :
    LoanMove e.delegator e.delegator 0 0 db.loans db'.loans := by
  simp only [returnDelegation, getAccount, bind_eq_ok, getOrThrow_eq_ok, safeSub_eq_ok,
    pure_eq_ok] at h
  obtain ⟨a, ha, _, ⟨-, rfl⟩, db₁, henergy, rfl⟩ := h
  have hcount := setDelegated_loans ha e.delegator (d := -e.vestingShares) (Int.sub_eq_add_neg)
  have hsame : LoanMove e.delegator e.delegator 0 0 _ db₁.loans :=
    .of_eq _ _ (loans_of_core (sharesSenderRecalcEnergy_core henergy))
  have hexpirations : db₁.vestingDelegationExpirations = db.vestingDelegationExpirations :=
    congrArg Core.expirations (sharesSenderRecalcEnergy_core henergy)
  have hget : db₁.loans.expirations.get (·.id) e.id = some e := by
    show db₁.vestingDelegationExpirations.get _ _ = _
    rw [hexpirations]
    exact hdb.expirations.get he
  exact ((hcount.trans hsame).trans (LoanMove.eraseExpiration hget e.delegator)).cast (by omega)
    (by omega)

end Db

/-! ## The invariant -/

namespace LoanBook

/-- The counters are the totals of the tables. -/
structure Balanced (b : LoanBook) : Prop extends Sound b where
  overLent : ∀ name, b.overLent name = 0
  overReceived : ∀ name, b.overReceived name = 0

theorem Balanced.move {lender borrower : AccountName} {b b' : LoanBook} (hb : b.Balanced)
    (h : LoanMove lender borrower 0 0 b b') : b'.Balanced where
  toSound := h.sound hb.toSound
  overLent name := by
    rw [h.overLent, hb.overLent, ite_self, add_zero]
  overReceived name := by
    rw [h.overReceived, hb.overReceived, ite_self, add_zero]

/-- Nobody has delegated or received a negative amount. -/
theorem Balanced.nonneg {b : LoanBook} (hb : b.Balanced) (name : AccountName) :
    0 ≤ b.delegated name ∧ 0 ≤ b.received name := by
  have hlent : 0 ≤ b.lent name := Table.total_nonneg hb.lent _ name
  have hlimbo : 0 ≤ b.limbo name := Table.total_nonneg hb.limbo _ name
  have hborrowed : 0 ≤ b.borrowed name := Table.total_nonneg hb.lent _ name
  have hdelegated : b.delegated name - b.lent name - b.limbo name = 0 := hb.overLent name
  have hreceived : b.received name - b.borrowed name = 0 := hb.overReceived name
  constructor
  · omega
  · omega

end LoanBook

namespace Db

variable {fc : Fc} {db db' : Db}

theorem loansBalanced_steady : Steady .loans fun v => v.loans.Balanced := by
  intro g db db' hglide hdb
  cases hglide with
  | same h => exact h ▸ hdb
  | register name recovery memo auth hauth hnew h =>
    have hrows : ((db.core.register name recovery memo auth).view .loans).loans =
        { db.loans with accounts := db.loans.accounts.create fun _ => ⟨name, 0, 0⟩ } :=
      congrArg (LoanBook.mk · db.vestingDelegations db.vestingDelegationExpirations)
        (Table.image_create _ _ _)
    have habsent : db.loans.accounts.get (·.name) name = none := by
      rw [loans_find, hnew]
      rfl
    have hmove : LoanMove name name 0 0 db.loans
        ((db.core.register name recovery memo auth).view .loans).loans := by
      rw [hrows]
      exact LoanMove.enroll habsent name 0
    exact h ▸ LoanBook.Balanced.move hdb hmove
  | declare owner hnew h => exact h ▸ hdb
  | vest name tokens ok h => exact createVesting_view (x := .loans) rfl h ▸ hdb

theorem clearExpiredDelegations_loans (hdb : db.loans.Balanced)
    (h : db.clearExpiredDelegations = .ok db') : db'.loans.Balanced := by
  have hrows : db.vestingDelegationExpirations.rows.Nodup :=
    List.Nodup.of_map _ hdb.expirations.nodup
  have hdue : ((orderBy expiresBefore db.vestingDelegationExpirations.rows).filter fun d =>
      d.expiration < db.headBlockTime).Nodup :=
    ((orderBy_perm expiresBefore _).nodup_iff.2 hrows).filter _
  refine foldlM_pending (fun d : Db => d.loans.Balanced)
    (fun e d => e ∈ d.vestingDelegationExpirations.rows) returnDelegation _ hdue ?_ db db' hdb ?_ h
  · intro e s s' hs he hstep
    refine ⟨hs.move (returnDelegation_loans hs.toSound he hstep), fun e' hne he' => ?_⟩
    simp only [returnDelegation, bind_eq_ok, pure_eq_ok] at hstep
    obtain ⟨_, -, _, -, s₁, henergy, rfl⟩ := hstep
    have hsame : s₁.vestingDelegationExpirations = s.vestingDelegationExpirations :=
      congrArg Core.expirations (sharesSenderRecalcEnergy_core henergy)
    have hid : e'.id ≠ e.id := by
      intro heq
      have hget := hs.expirations.get he
      rw [← heq, hs.expirations.get he'] at hget
      exact hne (Option.some.inj hget)
    show e' ∈ (s₁.vestingDelegationExpirations.erase (·.id) e.id).rows
    rw [hsame]
    exact Table.mem_erase_of_ne he' hid
  · intro e he
    exact (mem_orderBy expiresBefore e _).1 (List.mem_filter.1 he).1

end Db

/-- **The counters** follow the tables. -/
theorem loans_keepsBlock (env : Env) (C : Event → Prop) :
    KeepsBlock env C fun db => db.Stored env.fc ∧ db.loans.Balanced := by
  refine (stored_keepsBlock env C).aspect (x := .loans) (P := fun v => v.loans.Balanced)
    (by decide) (by decide) (by decide) Db.loansBalanced_steady ?_ ?_
  · intro clock db op db' htouch _ hv _ h hdb
    cases op with
    | accountCreate o => exact LoanBook.Balanced.move hdb (Db.accountCreate_loans hv h)
    | delegateVestingShares o =>
      have hvalid : o.validate = .ok () := hv
      have hop : 0 ≤ o.vestingShares.amount := by
        simp only [DelegateVestingSharesOperation.validate, bind_eq_ok, fcAssert_eq_ok] at hvalid
        obtain ⟨_, -, _, -, _, -, _, -, hpos⟩ := hvalid
        exact hpos
      exact LoanBook.Balanced.move hdb
        (Db.delegateVestingShares_loans hop (LoanBook.Balanced.toSound hdb) h)
    | _ => cases htouch
  · intro skip b db st db' htouch _ _ h hdb
    cases st with
    | clearExpiredDelegations => exact Db.clearExpiredDelegations_loans hdb h
    | _ => cases htouch

end VizCore.Chain
