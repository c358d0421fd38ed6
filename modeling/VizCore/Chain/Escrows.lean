import VizCore.Chain.Store

/-!
# Escrows

The tokens of an escrow are deposited together with the fee of the agent.  Either both go back
to the sender, or the agent gets the fee when the second party approves, and the tokens are
released bit by bit.

* `Life`: the course that an escrow may take, apart from any chain;
* `EscrowBooks`: the journal of the chain is a life for every escrow;
* `escrow_safety`: so it stays in every run, and every entry was permitted when it was made.
-/

namespace VizCore.Chain

open VizCore.Lib VizCore.Protocol

/-! ## The life of an escrow -/

/-- Why an escrow did not come into force. -/
inductive Refusal
  | rejected (who : AccountName)
  | expired
  deriving DecidableEq

/-- A movement of the tokens of one escrow. -/
inductive EscrowEntry
  | deposit (payer : AccountName) (amount fee : Int)
  | refund (cause : Refusal) (receiver : AccountName) (amount fee : Int)
  | fee (agent : AccountName) (amount : Int)
  | release (who receiver : AccountName) (amount : Int)
  deriving DecidableEq

inductive EscrowStage
  | pending (amount fee : Int)
  | running (held : Int)
  | closed

namespace EscrowEntry

/-- What the entry adds to the balance of the account `n`. -/
def credit (n : AccountName) : EscrowEntry → Int
  | deposit payer amount charge => if n = payer then -(amount + charge) else 0
  | refund _ receiver amount charge => if n = receiver then amount + charge else 0
  | fee agent amount => if n = agent then amount else 0
  | release _ receiver amount => if n = receiver then amount else 0

def deposited : EscrowEntry → Int
  | deposit _ amount _ => amount
  | _ => 0

def refunded : EscrowEntry → Int
  | refund _ _ amount _ => amount
  | _ => 0

def released : EscrowEntry → Int
  | release _ _ amount => amount
  | _ => 0

def feeDeposited : EscrowEntry → Int
  | deposit _ _ charge => charge
  | _ => 0

def feeRefunded : EscrowEntry → Int
  | refund _ _ _ charge => charge
  | _ => 0

def feePaid : EscrowEntry → Int
  | fee _ amount => amount
  | _ => 0

/-- The entries by which an escrow stops waiting for approvals. -/
def settles : EscrowEntry → Bool
  | refund .. | fee .. => true
  | _ => false

end EscrowEntry

namespace EscrowStage

/-- What is left after a release. -/
def left (rest : Int) : EscrowStage := if rest = 0 then .closed else .running rest

def held : EscrowStage → Int
  | pending amount _ => amount
  | running held => held
  | closed => 0

def heldFee : EscrowStage → Int
  | pending _ fee => fee
  | _ => 0

def settled : EscrowStage → Nat
  | pending .. => 0
  | _ => 1

theorem left_held (rest : Int) : (left rest).held = rest := by
  unfold left
  split
  · rename_i h
    rw [h]
    rfl
  · rfl

theorem left_heldFee (rest : Int) : (left rest).heldFee = 0 := by
  unfold left
  split <;> rfl

theorem left_settled (rest : Int) : (left rest).settled = 1 := by
  unfold left
  split <;> rfl

end EscrowStage

/-- One entry takes the escrow from one stage to the next. -/
inductive Advances : EscrowStage → EscrowEntry → EscrowStage → Prop
  | refund (cause : Refusal) (receiver : AccountName) (amount fee : Int) :
      Advances (.pending amount fee) (.refund cause receiver amount fee) .closed
  | fee (agent : AccountName) (amount fee : Int) :
      Advances (.pending amount fee) (.fee agent fee) (.running amount)
  | release (who receiver : AccountName) (held amount : Int) (hpos : 0 < amount)
      (hle : amount ≤ held) :
      Advances (.running held) (.release who receiver amount) (.left (held - amount))

/-- The entries of one escrow, from its deposit on, and the stage that they lead to. -/
inductive Life : List EscrowEntry → EscrowStage → Prop
  | deposit (payer : AccountName) (amount fee : Int) (hamount : 0 ≤ amount) (hfee : 0 ≤ fee) :
      Life [.deposit payer amount fee] (.pending amount fee)
  | advance {log : List EscrowEntry} {s s' : EscrowStage} {x : EscrowEntry} (h : Life log s)
      (hx : Advances s x s') : Life (log ++ [x]) s'

/-- The sum of one column of the entries. -/
def column (g : EscrowEntry → Int) (log : List EscrowEntry) : Int := (log.map g).sum

theorem column_snoc (g : EscrowEntry → Int) (log : List EscrowEntry) (x : EscrowEntry) :
    column g (log ++ [x]) = column g log + g x := by
  simp [column]

namespace Life

variable {log : List EscrowEntry} {s : EscrowStage}

/-- What was deposited has been released or refunded, or is still held. -/
theorem adds_up (h : Life log s) :
    column (·.deposited) log = column (·.released) log + column (·.refunded) log + s.held := by
  induction h with
  | deposit payer amount fee _ _ => simp [column, EscrowEntry.deposited, EscrowEntry.released,
      EscrowEntry.refunded, EscrowStage.held]
  | advance _ hx ih =>
    rw [column_snoc, column_snoc, column_snoc]
    cases hx with
    | refund | fee =>
      simp only [EscrowEntry.deposited, EscrowEntry.released, EscrowEntry.refunded,
        EscrowStage.held] at ih ⊢
      omega
    | release who receiver held amount _ _ =>
      rw [EscrowStage.left_held]
      simp only [EscrowEntry.deposited, EscrowEntry.released, EscrowEntry.refunded,
        EscrowStage.held] at ih ⊢
      omega

theorem fees_add_up (h : Life log s) :
    column (·.feeDeposited) log = column (·.feePaid) log + column (·.feeRefunded) log + s.heldFee := by
  induction h with
  | deposit payer amount fee _ _ => simp [column, EscrowEntry.feeDeposited, EscrowEntry.feePaid,
      EscrowEntry.feeRefunded, EscrowStage.heldFee]
  | advance _ hx ih =>
    rw [column_snoc, column_snoc, column_snoc]
    cases hx with
    | refund | fee =>
      simp only [EscrowEntry.feeDeposited, EscrowEntry.feePaid, EscrowEntry.feeRefunded,
        EscrowStage.heldFee] at ih ⊢
      omega
    | release who receiver held amount _ _ =>
      rw [EscrowStage.left_heldFee]
      simp only [EscrowEntry.feeDeposited, EscrowEntry.feePaid, EscrowEntry.feeRefunded,
        EscrowStage.heldFee] at ih ⊢
      omega

/-- The fee is paid or refunded one time, and nothing else happens before. -/
theorem settles_once (h : Life log s) : log.countP (·.settles) = s.settled := by
  induction h with
  | deposit => rfl
  | advance _ hx ih =>
    rw [List.countP_append, ih]
    cases hx with
    | refund | fee => rfl
    | release who receiver held amount _ _ =>
      rw [EscrowStage.left_settled]
      rfl

end Life

/-! ## The journal -/

/-- The entries that the escrow `id` has in a journal. -/
def logOf (journal : List (Nat × EscrowEntry)) (id : Nat) : List EscrowEntry :=
  (journal.filter (·.1 = id)).map (·.2)

theorem logOf_append (journal entries : List (Nat × EscrowEntry)) (id : Nat) :
    logOf (journal ++ entries) id = logOf journal id ++ logOf entries id := by
  simp [logOf]

theorem logOf_self (id : Nat) (x : EscrowEntry) : logOf [(id, x)] id = [x] := by
  simp [logOf]

theorem logOf_other {id id' : Nat} (hne : id ≠ id') (x : EscrowEntry) :
    logOf [(id, x)] id' = [] := by
  simp [logOf, hne]

/-- The stage that the row of an escrow shows. -/
def EscrowObject.stage (e : EscrowObject) : EscrowStage :=
  if e.isApproved then .running e.tokenBalance else .pending e.tokenBalance e.pendingFee

theorem EscrowObject.stage_pending {e : EscrowObject} (h : e.isApproved = false) :
    e.stage = .pending e.tokenBalance e.pendingFee := by
  unfold EscrowObject.stage
  rw [h]
  rfl

theorem EscrowObject.stage_running {e : EscrowObject} (h : e.isApproved = true) :
    e.stage = .running e.tokenBalance := by
  unfold EscrowObject.stage
  rw [h]
  rfl

/-- What holds of every escrow that is open: its entries lead to the stage of its row, the agent
is a third party, and no fee is left once both have approved. -/
structure OpenEscrow (journal : List (Nat × EscrowEntry)) (e : EscrowObject) : Prop where
  life : Life (logOf journal e.id) e.stage
  apart : e.toAccount ≠ e.agent
  paid : e.isApproved = true → e.pendingFee = 0

/-- The journal fits the table of escrows; `first` is the first number that was handed out. -/
structure EscrowBooks (first : Nat) (journal : List (Nat × EscrowEntry)) (t : Table EscrowObject) :
    Prop where
  start : first ≤ t.nextId
  numbered : t.Numbered (·.id)
  keyed : t.Keyed (·.key)
  opened : ∀ e ∈ t.rows, OpenEscrow journal e
  closed : ∀ id, first ≤ id → id < t.nextId → (∀ e ∈ t.rows, e.id ≠ id) →
    Life (logOf journal id) .closed
  fresh : ∀ id, t.nextId ≤ id → logOf journal id = []

namespace OpenEscrow

variable {journal : List (Nat × EscrowEntry)} {e e' : EscrowObject}

/-- An entry of another escrow. -/
theorem other {id : Nat} (h : OpenEscrow journal e) (hne : id ≠ e.id) (x : EscrowEntry) :
    OpenEscrow (journal ++ [(id, x)]) e := by
  refine ⟨?_, h.apart, h.paid⟩
  rw [logOf_append, logOf_other hne, List.append_nil]
  exact h.life

end OpenEscrow

namespace EscrowBooks

variable {first : Nat} {journal : List (Nat × EscrowEntry)} {t : Table EscrowObject}
  {e e' : EscrowObject}

theorem empty (ht : t.rows = []) : EscrowBooks t.nextId [] t where
  start := Nat.le_refl _
  numbered := by
    refine ⟨?_, fun e he => ?_⟩
    · rw [ht]
      exact List.nodup_nil
    · rw [ht] at he
      cases he
  keyed := by
    unfold Table.Keyed
    rw [ht]
    exact List.nodup_nil
  opened e he := by
    rw [ht] at he
    cases he
  closed id hle hlt _ := absurd hlt (Nat.not_lt.2 hle)
  fresh _ _ := rfl

/-- A row is known by its number. -/
theorem eq_of_id (h : EscrowBooks first journal t) (he : e ∈ t.rows) (he' : e' ∈ t.rows)
    (hid : e'.id = e.id) : e' = e := by
  have hget := h.numbered.get he'
  rw [hid, h.numbered.get he] at hget
  exact (Option.some.inj hget).symm

/-- A new escrow. -/
theorem create (h : EscrowBooks first journal t) (mk : Nat → EscrowObject) (payer : AccountName)
    (hid : ∀ id, (mk id).id = id) (hnew : t.get (·.key) (mk t.nextId).key = none)
    {amount fee : Int} (hamount : 0 ≤ amount) (hfee : 0 ≤ fee)
    (hstage : (mk t.nextId).stage = .pending amount fee)
    (hpending : (mk t.nextId).isApproved = false)
    (hapart : (mk t.nextId).toAccount ≠ (mk t.nextId).agent) :
    EscrowBooks first (journal ++ [(t.nextId, .deposit payer amount fee)]) (t.create mk) where
  start := Nat.le_succ_of_le h.start
  numbered := h.numbered.create hid
  keyed := h.keyed.create hnew rfl
  opened e he := by
    rcases List.mem_append.1 he with he | he
    · exact (h.opened e he).other (Nat.ne_of_gt (h.numbered.below e he)) _
    · rw [List.mem_singleton] at he
      subst he
      refine ⟨?_, hapart, fun happroved => ?_⟩
      · rw [hid, logOf_append, h.fresh _ (Nat.le_refl _), logOf_self, hstage]
        exact .deposit payer amount fee hamount hfee
      · rw [hpending] at happroved
        cases happroved
  closed id hle hlt hgone := by
    have hne : t.nextId ≠ id := by
      rintro rfl
      exact hgone _ (List.mem_append_right _ (List.mem_singleton_self _)) (hid _)
    rw [logOf_append, logOf_other hne, List.append_nil]
    have hlt' : id < t.nextId + 1 := hlt
    refine h.closed id hle (by omega) fun e he => hgone e (List.mem_append_left _ he)
  fresh id hle := by
    have hle' : t.nextId + 1 ≤ id := hle
    rw [logOf_append, logOf_other (by omega), h.fresh id (by omega)]
    rfl

/-- An escrow is closed by its last entry. -/
theorem erase (h : EscrowBooks first journal t) (he : e ∈ t.rows) {x : EscrowEntry}
    (hx : Advances e.stage x .closed) :
    EscrowBooks first (journal ++ [(e.id, x)]) (t.erase (·.key) e.key) where
  start := h.start
  numbered := h.numbered.erase _ _
  keyed := h.keyed.erase _ _
  opened e' he' := by
    have hmem : e' ∈ t.rows := List.mem_of_mem_eraseP he'
    refine (h.opened e' hmem).other (fun hid => ?_) x
    have hkey := h.keyed.ne_of_mem_erase he'
    rw [h.eq_of_id he hmem hid.symm] at hkey
    exact hkey rfl
  closed id hle hlt hgone := by
    by_cases hid : e.id = id
    · subst hid
      rw [logOf_append, logOf_self]
      exact (h.opened e he).life.advance hx
    · rw [logOf_append, logOf_other hid, List.append_nil]
      refine h.closed id hle hlt fun e' he' hid' => ?_
      have hne : e'.key ≠ e.key := by
        intro hkey
        have hget := h.keyed.get he'
        rw [hkey, h.keyed.get he] at hget
        rw [Option.some.inj hget] at hid
        exact hid hid'
      exact hgone e' (Table.mem_erase_of_ne he' hne) hid'
  fresh id hle := by
    have hlt := h.numbered.below e he
    have hle' : t.nextId ≤ id := hle
    rw [logOf_append, logOf_other (by omega), h.fresh id hle]
    rfl

/-- The change of one row, as a change that keeps numbers and keys everywhere. -/
theorem update_lift {f : EscrowObject → EscrowObject} (hget : t.get (·.key) e.key = some e)
    (hf : f e = e') (hid : e'.id = e.id) (hkey : e'.key = e.key) :
    ∃ g, t.update (·.key) e.key f = t.update (·.key) e.key g ∧ g e = e' ∧
      (∀ z, (g z).id = z.id) ∧ ∀ z, EscrowObject.key (g z) = z.key := by
  have hself : ({ e' with id := e.id, fromAccount := e.fromAccount, escrowId := e.escrowId } :
      EscrowObject) = e' := by
    unfold EscrowObject.key at hkey
    rw [Prod.mk.injEq] at hkey
    rw [← hid, ← hkey.1, ← hkey.2]
  refine ⟨fun z => { e' with id := z.id, fromAccount := z.fromAccount, escrowId := z.escrowId },
    t.update_congr _ _ _ _ fun x hx => ?_, hself, fun _ => rfl, fun _ => rfl⟩
  rw [hget] at hx
  cases hx
  rw [hf]
  exact hself.symm

/-- A row is replaced; the entries, if there are any, lead to its new stage. -/
theorem update (h : EscrowBooks first journal t) (he : e ∈ t.rows) (e' : EscrowObject)
    {f : EscrowObject → EscrowObject} (hf : f e = e') (hid : e'.id = e.id) (hkey : e'.key = e.key)
    {entries : List (Nat × EscrowEntry)} (hentries : ∀ x ∈ entries, x.1 = e.id)
    (hnew : OpenEscrow (journal ++ entries) e') :
    EscrowBooks first (journal ++ entries) (t.update (·.key) e.key f) := by
  have hget : t.get (·.key) e.key = some e := h.keyed.get he
  obtain ⟨g, hsame, hge, hgid, hgkey⟩ := update_lift hget hf hid hkey
  have hother (id : Nat) (hne : e.id ≠ id) : logOf (journal ++ entries) id = logOf journal id := by
    have hnil : entries.filter (·.1 = id) = [] := by
      rw [List.filter_eq_nil_iff]
      intro x hx hid'
      rw [decide_eq_true_eq, hentries x hx] at hid'
      exact hne hid'
    rw [logOf_append, logOf, logOf, hnil, List.map_nil, List.append_nil]
  rw [hsame]
  constructor
  · exact h.start
  · exact h.numbered.update _ _ _ hgid
  · exact h.keyed.of_keys (Table.map_update _ _ _ _ _ fun z _ => hgkey z)
  · intro y hy
    rcases h.keyed.mem_update hgkey hget hy with rfl | ⟨hy, hne⟩
    · rw [hge]
      exact hnew
    · have hne' : e.id ≠ y.id := by
        intro heq
        rw [h.eq_of_id he hy heq.symm] at hne
        exact hne rfl
      have hy' := h.opened y hy
      refine ⟨?_, hy'.apart, hy'.paid⟩
      rw [hother y.id hne']
      exact hy'.life
  · intro id hle hlt hgone
    have hrows : ∀ y ∈ t.rows, y.id ≠ id := by
      intro y hy hid'
      by_cases hkey' : y.key = e.key
      · have hmem : g e ∈ (t.update (·.key) e.key g).rows := by
          have hfound := Table.get_update_same t (·.key) e.key g hgkey
          rw [hget, Option.map_some] at hfound
          exact Table.get_mem hfound
        have hsame' : y = e := by
          have hget' := h.keyed.get hy
          rw [hkey', hget] at hget'
          exact (Option.some.inj hget').symm
        exact hgone (g e) hmem ((hgid e).trans (hsame' ▸ hid'))
      · exact hgone y (Table.mem_update_of_ne hy hkey') hid'
    rw [hother id (hrows e he)]
    exact h.closed id hle hlt hrows
  · intro id hle
    have hlt := h.numbered.below e he
    have hle' : t.nextId ≤ id := hle
    rw [hother id (by omega)]
    exact h.fresh id hle

/-- A row is replaced without an entry. -/
theorem note (h : EscrowBooks first journal t) (he : e ∈ t.rows) (e' : EscrowObject)
    {f : EscrowObject → EscrowObject} (hf : f e = e') (hid : e'.id = e.id)
    (hkey : e'.key = e.key) (hnew : OpenEscrow journal e') :
    EscrowBooks first journal (t.update (·.key) e.key f) := by
  rw [← List.append_nil journal] at hnew ⊢
  exact h.update he e' hf hid hkey (fun x hx => (nomatch hx)) hnew

end EscrowBooks

/-! ## Actions -/

/-- What can happen to escrows: the four operations and the expiry of ratifications.  Everything
else that the chain does in between leaves the escrows alone. -/
inductive EscrowAct
  | transfer (o : EscrowTransferOperation)
  | approve (o : EscrowApproveOperation)
  | dispute (o : EscrowDisputeOperation)
  | release (o : EscrowReleaseOperation)
  | expire
  | elsewhere (other : Db)

/-- The escrows whose time for approval is over. -/
def Db.dueEscrows (db : Db) : List EscrowObject :=
  (orderBy Db.deadlineBefore db.escrows.rows).filter fun e =>
    !e.isApproved && e.ratificationDeadline ≤ db.headBlockTime

def EscrowObject.expiry (e : EscrowObject) : Nat × EscrowEntry :=
  (e.id, .refund .expired e.fromAccount e.tokenBalance e.pendingFee)

namespace EscrowAct

def run (db : Db) : EscrowAct → Result Db
  | transfer o => db.escrowTransfer o
  | approve o => db.escrowApprove o
  | dispute o => db.escrowDispute o
  | release o => db.escrowRelease o
  | expire => db.expireEscrowRatification
  | elsewhere other => .ok { other with escrows := db.escrows }

def Valid (fc : Fc) : EscrowAct → Prop
  | transfer o => o.validate fc = .ok ()
  | approve o => o.validate = .ok ()
  | dispute o => o.validate = .ok ()
  | release o => o.validate = .ok ()
  | expire | elsewhere _ => True

/-- Those whose active authority the action needs. -/
def signers : EscrowAct → List AccountName
  | transfer o => (requiredAuthorities (.escrowTransfer o)).active
  | approve o => (requiredAuthorities (.escrowApprove o)).active
  | dispute o => (requiredAuthorities (.escrowDispute o)).active
  | release o => (requiredAuthorities (.escrowRelease o)).active
  | expire | elsewhere _ => []

/-- The entries of an action, as the state before it shows them. -/
def journal (db : Db) : EscrowAct → List (Nat × EscrowEntry)
  | transfer o => [(db.escrows.nextId, .deposit o.fromAccount o.tokenAmount.amount o.fee.amount)]
  | approve o =>
    match db.escrows.get (·.key) (o.fromAccount, o.escrowId) with
    | none => []
    | some e =>
      if o.approve then
        if (Db.withApproval o e).isApproved then [(e.id, .fee e.agent e.pendingFee)] else []
      else [(e.id, .refund (.rejected o.who) e.fromAccount e.tokenBalance e.pendingFee)]
  | dispute _ => []
  | release o =>
    match db.escrows.get (·.key) (o.fromAccount, o.escrowId) with
    | none => []
    | some e => [(e.id, .release o.who o.receiver o.tokenAmount.amount)]
  | expire => db.dueEscrows.map (·.expiry)
  | elsewhere _ => []

end EscrowAct

/-- The actions one after the other; one that fails is as if it had not been tried. -/
def playEscrows : Db → List EscrowAct → List (Nat × EscrowEntry) × Db
  | db, [] => ([], db)
  | db, act :: rest =>
    match act.run db with
    | .ok db' => (act.journal db ++ (playEscrows db' rest).1, (playEscrows db' rest).2)
    | .error _ => playEscrows db rest

/-! ## One action -/

/-- The tokens in the balance of an account. -/
def Db.tokensOf (db : Db) (n : AccountName) : Int := db.accounts.field (·.name) (·.balance) n

/-- What the entries together add to the balance of an account. -/
def credits (entries : List (Nat × EscrowEntry)) (n : AccountName) : Int :=
  (entries.map fun x => x.2.credit n).sum

namespace Db

variable {fc : Fc} {first : Nat} {journal : List (Nat × EscrowEntry)} {db db' : Db}

theorem adjustBalance_tokensOf {name : AccountName} {x : Int}
    (h : db.adjustBalance name x = .ok db') (n : AccountName) :
    db'.tokensOf n = db.tokensOf n + if n = name then x else 0 := by
  simp only [adjustBalance, getAccount, bind_eq_ok, getOrThrow_eq_ok, safeAdd_eq_ok,
    pure_eq_ok] at h
  obtain ⟨a, ha, _, ⟨-, rfl⟩, rfl⟩ := h
  exact Table.field_update_add ha (fun b => { b with balance := a.balance + x }) (·.balance) x
    (fun _ => rfl) rfl n

theorem getEscrow_mem {fromAccount : AccountName} {escrowId : Nat} {e : EscrowObject}
    (h : db.getEscrow fromAccount escrowId = .ok e) :
    db.escrows.get (·.key) (fromAccount, escrowId) = some e ∧ e ∈ db.escrows.rows ∧
      e.fromAccount = fromAccount := by
  rw [getEscrow, getOrThrow_eq_ok] at h
  have hkey : e.key = (fromAccount, escrowId) := Table.get_key h
  exact ⟨h, Table.get_mem h, congrArg Prod.fst hkey⟩

theorem escrowTransfer_books {o : EscrowTransferOperation}
    (hdb : EscrowBooks first journal db.escrows)
    (hv : o.validate fc = .ok ()) (h : db.escrowTransfer o = .ok db') :
    EscrowBooks first (journal ++ (EscrowAct.transfer o).journal db) db'.escrows := by
  simp only [EscrowTransferOperation.validate, bind_eq_ok, fcAssert_eq_ok] at hv
  obtain ⟨_, -, _, -, _, -, _, hfee, _, hamount, _, ⟨-, hapart⟩, -⟩ := hv
  simp only [escrowTransfer, bind_eq_ok, fcAssert_eq_ok, require_eq_ok, pure_eq_ok] at h
  obtain ⟨_, -, _, -, _, -, _, -, _, -, spent, -, _, -, db₁, hdebit, _, hnew, rfl⟩ := h
  rw [Option.isNone_iff_eq_none] at hnew
  have hsame := adjustBalance_escrows hdebit
  unfold EscrowAct.journal
  rw [← hsame] at hdb ⊢
  exact hdb.create (fun id =>
    { id := id, escrowId := o.escrowId, fromAccount := o.fromAccount, toAccount := o.toAccount
      agent := o.agent, ratificationDeadline := o.ratificationDeadline
      escrowExpiration := o.escrowExpiration, tokenBalance := o.tokenAmount.amount
      pendingFee := o.fee.amount }) o.fromAccount
    (fun _ => rfl) hnew hamount hfee rfl rfl hapart

theorem escrowApprove_books {o : EscrowApproveOperation}
    (hdb : EscrowBooks first journal db.escrows)
    (hv : o.validate = .ok ()) (h : db.escrowApprove o = .ok db') :
    EscrowBooks first (journal ++ (EscrowAct.approve o).journal db) db'.escrows := by
  simp only [EscrowApproveOperation.validate, bind_eq_ok, fcAssert_eq_ok] at hv
  obtain ⟨_, -, hwho⟩ := hv
  simp only [escrowApprove, bind_eq_ok, fcAssert_eq_ok] at h
  obtain ⟨e, he, _, hto, _, hagent, _, -, _, htoNew, _, hagentNew, h⟩ := h
  obtain ⟨hget, hmem, hfrom⟩ := getEscrow_mem he
  have hopen := hdb.opened e hmem
  -- whoever approves has not approved before
  have hpending : e.isApproved = false := by
    unfold EscrowObject.isApproved
    rcases hwho with hwho | hwho
    · rw [htoNew hwho, Bool.false_and]
    · rw [hagentNew hwho, Bool.and_false]
  have hlife := hopen.life
  rw [EscrowObject.stage_pending hpending] at hlife
  simp only [EscrowAct.journal, hget]
  split at h
  · rename_i happrove
    rw [if_pos happrove]
    split at h
    · rename_i hboth
      rw [if_pos hboth]
      simp only [bind_eq_ok, pure_eq_ok] at h
      obtain ⟨db₁, hpay, rfl⟩ := h
      show EscrowBooks first _ (db₁.escrows.update (·.key) e.key _)
      rw [adjustBalance_escrows hpay]
      refine hdb.update hmem { withApproval o e with pendingFee := 0 } rfl rfl rfl
        (fun x hx => ?_) ⟨?_, hopen.apart, fun _ => rfl⟩
      · rw [List.mem_singleton] at hx
        rw [hx]
      · have hstage : ({ withApproval o e with pendingFee := 0 } : EscrowObject).stage =
            .running e.tokenBalance := EscrowObject.stage_running hboth
        rw [hstage, logOf_append]
        show Life (logOf journal e.id ++ logOf [(e.id, _)] e.id) _
        rw [logOf_self]
        exact hlife.advance (.fee e.agent e.tokenBalance e.pendingFee)
    · rename_i hone
      rw [if_neg hone]
      rw [pure_eq_ok] at h
      subst h
      rw [Bool.not_eq_true] at hone
      rw [List.append_nil]
      refine hdb.note hmem (withApproval o e) rfl rfl rfl ⟨?_, hopen.apart, fun hboth => ?_⟩
      · rw [EscrowObject.stage_pending hone]
        exact hlife
      · rw [hone] at hboth
        cases hboth
  · rename_i hreject
    rw [if_neg hreject]
    simp only [bind_eq_ok, pure_eq_ok] at h
    obtain ⟨db₁, hback, db₂, hfee, rfl⟩ := h
    show EscrowBooks first _ (db₂.escrows.erase (·.key) e.key)
    rw [adjustBalance_escrows hfee, adjustBalance_escrows hback]
    refine hdb.erase hmem ?_
    rw [EscrowObject.stage_pending hpending]
    exact .refund _ _ _ _

theorem escrowDispute_books {o : EscrowDisputeOperation}
    (hdb : EscrowBooks first journal db.escrows)
    (h : db.escrowDispute o = .ok db') :
    EscrowBooks first (journal ++ (EscrowAct.dispute o).journal db) db'.escrows := by
  simp only [escrowDispute, bind_eq_ok, pure_eq_ok] at h
  obtain ⟨_, -, e, he, _, -, _, -, _, -, _, -, _, -, rfl⟩ := h
  obtain ⟨-, hmem, -⟩ := getEscrow_mem he
  have hopen := hdb.opened e hmem
  rw [EscrowAct.journal, List.append_nil]
  exact hdb.note hmem { e with disputed := true } rfl rfl rfl ⟨hopen.life, hopen.apart, hopen.paid⟩

/-- Who may release tokens, as the check of the code shows it. -/
def MayRelease (now : TimePointSec) (e : EscrowObject) (who receiver : AccountName) : Prop :=
  if e.disputed then who = e.agent ∧ (receiver = e.fromAccount ∨ receiver = e.toAccount)
  else if now < e.escrowExpiration then
    who = e.fromAccount ∧ receiver = e.toAccount ∨ who = e.toAccount ∧ receiver = e.fromAccount
  else (who = e.fromAccount ∨ who = e.toAccount) ∧
    (receiver = e.fromAccount ∨ receiver = e.toAccount)

theorem checkRelease_permits {now : TimePointSec} {o : EscrowReleaseOperation} {e : EscrowObject}
    (h : checkRelease now o e = .ok ()) :
    o.tokenAmount.amount ≤ e.tokenBalance ∧ e.isApproved = true ∧
      MayRelease now e o.who o.receiver := by
  simp only [checkRelease, bind_eq_ok, fcAssert_eq_ok] at h
  obtain ⟨_, hle, _, -, _, -, _, hreceiver, _, happroved, h⟩ := h
  refine ⟨hle, happroved, ?_⟩
  unfold MayRelease
  split at h
  · rename_i hdisputed
    rw [fcAssert_eq_ok] at h
    rw [if_pos hdisputed]
    exact ⟨h, hreceiver⟩
  · rename_i hdisputed
    rw [if_neg hdisputed]
    simp only [bind_eq_ok, fcAssert_eq_ok] at h
    obtain ⟨_, hwho, _, hfrom, hto⟩ := h
    split
    · rename_i hrunning
      by_cases hw : o.who = e.fromAccount
      · exact .inl ⟨hw, hfrom hrunning hw⟩
      · exact .inr ⟨hwho.resolve_left hw, hto hrunning hw⟩
    · exact ⟨hwho, hreceiver⟩

theorem escrowRelease_books {o : EscrowReleaseOperation}
    (hdb : EscrowBooks first journal db.escrows)
    (hv : o.validate = .ok ()) (h : db.escrowRelease o = .ok db') :
    EscrowBooks first (journal ++ (EscrowAct.release o).journal db) db'.escrows := by
  simp only [EscrowReleaseOperation.validate, bind_eq_ok, fcAssert_eq_ok] at hv
  obtain ⟨_, -, _, -, _, -, _, -, _, hpos, -⟩ := hv
  simp only [escrowRelease, bind_eq_ok, safeSub_eq_ok] at h
  obtain ⟨_, -, _, -, e, he, _, hcheck, db₁, hpay, _, ⟨-, rfl⟩, h⟩ := h
  obtain ⟨hle, happroved, -⟩ := checkRelease_permits hcheck
  obtain ⟨hget, hmem, -⟩ := getEscrow_mem he
  have hopen := hdb.opened e hmem
  have hadvance := Advances.release o.who o.receiver e.tokenBalance o.tokenAmount.amount hpos hle
  rw [← EscrowObject.stage_running happroved] at hadvance
  simp only [EscrowAct.journal, hget]
  split at h
  · rename_i hzero
    rw [pure_eq_ok] at h
    subst h
    show EscrowBooks first _ (db₁.escrows.erase (·.key) e.key)
    rw [adjustBalance_escrows hpay]
    refine hdb.erase hmem ?_
    unfold EscrowStage.left at hadvance
    rw [if_pos hzero] at hadvance
    exact hadvance
  · rename_i hrest
    rw [pure_eq_ok] at h
    subst h
    show EscrowBooks first _ (db₁.escrows.update (·.key) e.key _)
    rw [adjustBalance_escrows hpay]
    refine hdb.update hmem { e with tokenBalance := e.tokenBalance - o.tokenAmount.amount }
      rfl rfl rfl (fun x hx => ?_) ⟨?_, hopen.apart, hopen.paid⟩
    · rw [List.mem_singleton] at hx
      rw [hx]
    · unfold EscrowStage.left at hadvance
      rw [if_neg hrest] at hadvance
      have hstage : ({ e with tokenBalance := e.tokenBalance - o.tokenAmount.amount } :
          EscrowObject).stage = .running (e.tokenBalance - o.tokenAmount.amount) :=
        EscrowObject.stage_running happroved
      rw [hstage, logOf_append]
      show Life (logOf journal e.id ++ logOf [(e.id, _)] e.id) _
      rw [logOf_self]
      exact hopen.life.advance hadvance

theorem expireEscrow_books {e : EscrowObject} (hdb : EscrowBooks first journal db.escrows)
    (he : e ∈ db.escrows.rows) (hpending : e.isApproved = false)
    (h : db.expireEscrow e.key = .ok db') :
    EscrowBooks first (journal ++ [e.expiry]) db'.escrows ∧
      db'.escrows = db.escrows.erase (·.key) e.key ∧
      ∀ n, db'.tokensOf n = db.tokensOf n + e.expiry.2.credit n := by
  simp only [expireEscrow, getEscrow, bind_eq_ok, getOrThrow_eq_ok, pure_eq_ok] at h
  obtain ⟨e', he', db₁, hback, db₂, hfee, rfl⟩ := h
  rw [show db.escrows.get (·.key) (e.key.1, e.key.2) = some e from hdb.keyed.get he] at he'
  cases he'
  have hsame : db₂.escrows = db.escrows :=
    (adjustBalance_escrows hfee).trans (adjustBalance_escrows hback)
  refine ⟨?_, congrArg (fun t => Table.erase t (·.key) e.key) hsame, fun n => ?_⟩
  · show EscrowBooks first _ (db₂.escrows.erase (·.key) e.key)
    rw [hsame]
    refine hdb.erase he ?_
    rw [EscrowObject.stage_pending hpending]
    exact .refund _ _ _ _
  · have hcredit := adjustBalance_tokensOf hback n
    have hcredit' := adjustBalance_tokensOf hfee n
    show db₂.tokensOf n = _
    rw [hcredit', hcredit]
    simp only [EscrowObject.expiry, EscrowEntry.credit]
    split <;> omega

theorem expireEscrows_books {l : List EscrowObject} (hdb : EscrowBooks first journal db.escrows)
    (hl : ∀ e ∈ l, e ∈ db.escrows.rows ∧ e.isApproved = false) (hnodup : (l.map (·.key)).Nodup)
    (h : (l.map (·.key)).foldlM expireEscrow db = .ok db') :
    EscrowBooks first (journal ++ l.map (·.expiry)) db'.escrows ∧
      ∀ n, db'.tokensOf n = db.tokensOf n + credits (l.map (·.expiry)) n := by
  induction l generalizing db journal with
  | nil =>
    cases h
    rw [List.map_nil, List.append_nil]
    exact ⟨hdb, fun n => (add_zero _).symm⟩
  | cons e rest ih =>
    rw [List.map_cons, List.foldlM_cons, bind_eq_ok] at h
    obtain ⟨db₁, hexpire, hrest⟩ := h
    rw [List.map_cons, List.nodup_cons] at hnodup
    obtain ⟨he, hpending⟩ := hl e List.mem_cons_self
    obtain ⟨hbooks, hrows, htokens⟩ := expireEscrow_books hdb he hpending hexpire
    have hleft : ∀ x ∈ rest, x ∈ db₁.escrows.rows ∧ x.isApproved = false := by
      intro x hx
      obtain ⟨hmem, happroved⟩ := hl x (List.mem_cons_of_mem e hx)
      refine ⟨?_, happroved⟩
      rw [hrows]
      refine Table.mem_erase_of_ne hmem fun hkey => ?_
      exact hnodup.1 (hkey ▸ List.mem_map_of_mem hx)
    obtain ⟨hbooks', htokens'⟩ := ih hbooks hleft hnodup.2 hrest
    constructor
    · rw [List.append_assoc] at hbooks'
      exact hbooks'
    · intro n
      rw [htokens' n, htokens n]
      simp only [credits, List.map_cons, List.sum_cons]
      omega

theorem mem_dueEscrows {e : EscrowObject} : e ∈ db.dueEscrows ↔
    e ∈ db.escrows.rows ∧ e.isApproved = false ∧ e.ratificationDeadline ≤ db.headBlockTime := by
  unfold dueEscrows
  rw [List.mem_filter, mem_orderBy, Bool.and_eq_true, Bool.not_eq_true', decide_eq_true_eq]

theorem expireEscrowRatification_books (hdb : EscrowBooks first journal db.escrows)
    (h : db.expireEscrowRatification = .ok db') :
    EscrowBooks first (journal ++ EscrowAct.expire.journal db) db'.escrows ∧
      ∀ n, db'.tokensOf n = db.tokensOf n + credits (EscrowAct.expire.journal db) n := by
  refine expireEscrows_books hdb (fun e he => ?_) ?_ h
  · obtain ⟨hmem, hpending, -⟩ := mem_dueEscrows.1 he
    exact ⟨hmem, hpending⟩
  · have hperm := (orderBy_perm deadlineBefore db.escrows.rows).map EscrowObject.key
    exact (hperm.nodup_iff.2 hdb.keyed).sublist (List.filter_sublist.map _)

end Db

/-- **One action** keeps the books. -/
theorem EscrowAct.run_books {fc : Fc} {first : Nat} {journal : List (Nat × EscrowEntry)}
    {db db' : Db} {act : EscrowAct} (hdb : EscrowBooks first journal db.escrows) (hv : act.Valid fc)
    (h : act.run db = .ok db') : EscrowBooks first (journal ++ act.journal db) db'.escrows := by
  cases act with
  | transfer o => exact Db.escrowTransfer_books hdb hv h
  | approve o => exact Db.escrowApprove_books hdb hv h
  | dispute o => exact Db.escrowDispute_books hdb h
  | release o => exact Db.escrowRelease_books hdb hv h
  | expire => exact (Db.expireEscrowRatification_books hdb h).1
  | elsewhere other =>
    cases h
    rw [EscrowAct.journal, List.append_nil]
    exact hdb

/-- **All actions** keep the books. -/
theorem playEscrows_books {fc : Fc} {first : Nat} {journal : List (Nat × EscrowEntry)} {db : Db}
    {acts : List EscrowAct} (hdb : EscrowBooks first journal db.escrows)
    (hv : ∀ act ∈ acts, act.Valid fc) :
    EscrowBooks first (journal ++ (playEscrows db acts).1) (playEscrows db acts).2.escrows := by
  induction acts generalizing db journal with
  | nil =>
    rw [playEscrows, List.append_nil]
    exact hdb
  | cons act rest ih =>
    have hrest : ∀ act ∈ rest, act.Valid fc := fun x hx => hv x (List.mem_cons_of_mem act hx)
    unfold playEscrows
    split
    · rename_i db' hrun
      have hnext := ih (EscrowAct.run_books hdb (hv act List.mem_cons_self) hrun) hrest
      rw [List.append_assoc] at hnext
      exact hnext
    · exact ih hdb hrest

/-! ## Permissions -/

/-- When the entry is permitted, in the state before it is made. -/
def EscrowEntry.Permitted (db : Db) (signers : List AccountName) (id : Nat) : EscrowEntry → Prop
  | deposit payer _ _ => payer ∈ signers ∧ id = db.escrows.nextId
  | refund cause receiver _ _ =>
    ∃ e ∈ db.escrows.rows, e.id = id ∧ e.isApproved = false ∧ receiver = e.fromAccount ∧
      match cause with
      | .rejected who => who ∈ signers ∧
        (who = e.toAccount ∧ e.toApproved = false ∨ who = e.agent ∧ e.agentApproved = false)
      | .expired => e.ratificationDeadline ≤ db.headBlockTime
  | fee agent _ =>
    ∃ e ∈ db.escrows.rows, e.id = id ∧ agent = e.agent ∧ ∃ who ∈ signers,
      who = e.toAccount ∧ e.toApproved = false ∧ e.agentApproved = true ∨
      who = e.agent ∧ e.agentApproved = false ∧ e.toApproved = true
  | release who receiver _ =>
    who ∈ signers ∧ ∃ e ∈ db.escrows.rows, e.id = id ∧ e.isApproved = true ∧
      Db.MayRelease db.headBlockTime e who receiver

/-- Every entry of the action is permitted, and tokens move as the entries say. -/
structure SafeStep (db : Db) (act : EscrowAct) (db' : Db) : Prop where
  permitted : ∀ id x, (id, x) ∈ act.journal db → x.Permitted db act.signers id
  balances : (∀ other, act ≠ .elsewhere other) →
    ∀ n, db'.tokensOf n = db.tokensOf n + credits (act.journal db) n

namespace Db

variable {fc : Fc} {first : Nat} {journal : List (Nat × EscrowEntry)} {db db' : Db}

theorem escrowTransfer_safe {o : EscrowTransferOperation} (h : db.escrowTransfer o = .ok db') :
    SafeStep db (.transfer o) db' where
  permitted id x hx := by
    rw [EscrowAct.journal, List.mem_singleton] at hx
    cases hx
    exact ⟨List.mem_singleton_self _, rfl⟩
  balances _ n := by
    simp only [escrowTransfer, bind_eq_ok, safeAdd_eq_ok, pure_eq_ok] at h
    obtain ⟨_, -, _, -, _, -, _, -, _, -, spent, ⟨-, rfl⟩, _, -, db₁, hdebit, _, -, rfl⟩ := h
    have hpay := adjustBalance_tokensOf hdebit n
    simp only [EscrowAct.journal, credits, List.map_cons, List.map_nil, List.sum_singleton]
    exact hpay

theorem escrowApprove_safe {o : EscrowApproveOperation} (hdb : EscrowBooks first journal db.escrows)
    (hv : o.validate = .ok ()) (h : db.escrowApprove o = .ok db') :
    SafeStep db (.approve o) db' := by
  simp only [EscrowApproveOperation.validate, bind_eq_ok, fcAssert_eq_ok] at hv
  obtain ⟨_, -, hwho⟩ := hv
  simp only [escrowApprove, bind_eq_ok, fcAssert_eq_ok] at h
  obtain ⟨e, he, _, hto, _, hagent, _, -, _, htoNew, _, hagentNew, h⟩ := h
  obtain ⟨hget, hmem, hfrom⟩ := getEscrow_mem he
  rw [← hto, ← hagent] at hwho
  rw [← hto] at htoNew
  rw [← hagent] at hagentNew
  have hapart := (hdb.opened e hmem).apart
  have hentries : (EscrowAct.approve o).journal db = if o.approve then
      if (withApproval o e).isApproved then [(e.id, .fee e.agent e.pendingFee)] else []
      else [(e.id, .refund (.rejected o.who) e.fromAccount e.tokenBalance e.pendingFee)] := by
    simp only [EscrowAct.journal, hget]
  split at h
  · rename_i happrove
    rw [if_pos happrove] at hentries
    split at h
    · rename_i hboth
      rw [if_pos hboth] at hentries
      constructor
      · intro id x hx
        rw [hentries, List.mem_singleton] at hx
        cases hx
        refine ⟨e, hmem, rfl, rfl, o.who, List.mem_singleton_self _, ?_⟩
        simp only [EscrowObject.isApproved, withApproval, ← hto, ← hagent, Bool.and_eq_true,
          Bool.or_eq_true, decide_eq_true_eq] at hboth
        rcases hwho with hwho | hwho
        · refine .inl ⟨hwho, htoNew hwho, hboth.2.resolve_right fun heq => ?_⟩
          exact hapart (hwho.symm.trans heq)
        · refine .inr ⟨hwho, hagentNew hwho, hboth.1.resolve_right fun heq => ?_⟩
          exact hapart (heq.symm.trans hwho)
      · intro _ n
        simp only [bind_eq_ok, pure_eq_ok] at h
        obtain ⟨db₁, hpay, rfl⟩ := h
        have hcredit := adjustBalance_tokensOf hpay n
        rw [hentries]
        simp only [credits, List.map_cons, List.map_nil, List.sum_singleton, EscrowEntry.credit,
          hagent]
        exact hcredit
    · rename_i hone
      rw [if_neg hone] at hentries
      rw [pure_eq_ok] at h
      subst h
      constructor
      · intro id x hx
        rw [hentries] at hx
        cases hx
      · intro _ n
        rw [hentries]
        exact (add_zero _).symm
  · rename_i hreject
    rw [if_neg hreject] at hentries
    constructor
    · intro id x hx
      rw [hentries, List.mem_singleton] at hx
      cases hx
      have hcause : o.who = e.toAccount ∧ e.toApproved = false ∨
          o.who = e.agent ∧ e.agentApproved = false := by
        rcases hwho with hwho | hwho
        · exact .inl ⟨hwho, htoNew hwho⟩
        · exact .inr ⟨hwho, hagentNew hwho⟩
      refine ⟨e, hmem, rfl, ?_, rfl, List.mem_singleton_self _, hcause⟩
      unfold EscrowObject.isApproved
      rcases hcause with ⟨-, hnot⟩ | ⟨-, hnot⟩
      · rw [hnot, Bool.false_and]
      · rw [hnot, Bool.and_false]
    · intro _ n
      simp only [bind_eq_ok, pure_eq_ok] at h
      obtain ⟨db₁, hback, db₂, hfee, rfl⟩ := h
      have hcredit := adjustBalance_tokensOf hback n
      have hcredit' := adjustBalance_tokensOf hfee n
      have hboth : db₂.tokensOf n =
          db.tokensOf n + if n = e.fromAccount then e.tokenBalance + e.pendingFee else 0 := by
        rw [hcredit', hcredit, hfrom]
        split <;> omega
      rw [hentries]
      simp only [credits, List.map_cons, List.map_nil, List.sum_singleton, EscrowEntry.credit]
      exact hboth

theorem escrowDispute_safe {o : EscrowDisputeOperation} (h : db.escrowDispute o = .ok db') :
    SafeStep db (.dispute o) db' where
  permitted id x hx := (nomatch hx)
  balances _ n := by
    simp only [escrowDispute, bind_eq_ok, pure_eq_ok] at h
    obtain ⟨_, -, e, -, _, -, _, -, _, -, _, -, _, -, rfl⟩ := h
    exact (add_zero _).symm

theorem escrowRelease_safe {o : EscrowReleaseOperation} (h : db.escrowRelease o = .ok db') :
    SafeStep db (.release o) db' := by
  simp only [escrowRelease, bind_eq_ok] at h
  obtain ⟨_, -, _, -, e, he, _, hcheck, db₁, hpay, rest, -, h⟩ := h
  obtain ⟨-, happroved, hmay⟩ := checkRelease_permits hcheck
  obtain ⟨hget, hmem, -⟩ := getEscrow_mem he
  have hentries : (EscrowAct.release o).journal db =
      [(e.id, .release o.who o.receiver o.tokenAmount.amount)] := by
    simp only [EscrowAct.journal, hget]
  constructor
  · intro id x hx
    rw [hentries, List.mem_singleton] at hx
    cases hx
    exact ⟨List.mem_singleton_self _, e, hmem, rfl, happroved, hmay⟩
  · intro _ n
    have hcredit := adjustBalance_tokensOf hpay n
    have hsame : db'.tokensOf n = db₁.tokensOf n := by
      split at h <;>
      · rw [pure_eq_ok] at h
        subst h
        rfl
    rw [hentries, hsame]
    simp only [credits, List.map_cons, List.map_nil, List.sum_singleton]
    exact hcredit

theorem expireEscrowRatification_safe (hdb : EscrowBooks first journal db.escrows)
    (h : db.expireEscrowRatification = .ok db') : SafeStep db .expire db' where
  permitted id x hx := by
    obtain ⟨e, he, hentry⟩ := List.mem_map.1 hx
    obtain ⟨hmem, hpending, hlate⟩ := mem_dueEscrows.1 he
    cases hentry
    exact ⟨e, hmem, rfl, hpending, rfl, hlate⟩
  balances _ := (expireEscrowRatification_books hdb h).2

end Db

/-- **One action** moves tokens only as it may. -/
theorem EscrowAct.run_safe {fc : Fc} {first : Nat} {journal : List (Nat × EscrowEntry)}
    {db db' : Db} {act : EscrowAct} (hdb : EscrowBooks first journal db.escrows) (hv : act.Valid fc)
    (h : act.run db = .ok db') : SafeStep db act db' := by
  cases act with
  | transfer o => exact Db.escrowTransfer_safe h
  | approve o => exact Db.escrowApprove_safe hdb hv h
  | dispute o => exact Db.escrowDispute_safe h
  | release o => exact Db.escrowRelease_safe h
  | expire => exact Db.expireEscrowRatification_safe hdb h
  | elsewhere other => exact ⟨fun id x hx => (nomatch hx), fun hne => absurd rfl (hne other)⟩

/-- The entries of one escrow are a life, and so they add up. -/
structure Accounted (log : List EscrowEntry) (s : EscrowStage) : Prop where
  life : Life log s
  tokens : column (·.deposited) log = column (·.released) log + column (·.refunded) log + s.held
  fees : column (·.feeDeposited) log =
    column (·.feePaid) log + column (·.feeRefunded) log + s.heldFee
  once : log.countP (·.settles) = s.settled

theorem Life.accounted {log : List EscrowEntry} {s : EscrowStage} (h : Life log s) :
    Accounted log s :=
  ⟨h, h.adds_up, h.fees_add_up, h.settles_once⟩

/-- **Escrow safety.**  From a chain without escrows on, whatever is done: tokens move only as
permitted, and the entries of every escrow, open or closed, are a life that adds up. -/
theorem escrow_safety {fc : Fc} {db : Db} {acts : List EscrowAct}
    (hempty : db.escrows.rows = []) (hv : ∀ act ∈ acts, act.Valid fc) :
    (∀ before act after db', acts = before ++ act :: after →
      act.run (playEscrows db before).2 = .ok db' → SafeStep (playEscrows db before).2 act db') ∧
    (∀ e ∈ (playEscrows db acts).2.escrows.rows,
      Accounted (logOf (playEscrows db acts).1 e.id) e.stage) ∧
    ∀ id, db.escrows.nextId ≤ id → id < (playEscrows db acts).2.escrows.nextId →
      (∀ e ∈ (playEscrows db acts).2.escrows.rows, e.id ≠ id) →
        Accounted (logOf (playEscrows db acts).1 id) .closed := by
  have hstart := EscrowBooks.empty hempty
  refine ⟨fun before act after db' hacts hrun => ?_, fun e he => ?_, fun id hle hlt hgone => ?_⟩
  · have hbefore : ∀ x ∈ before, x.Valid fc := by
      intro x hx
      refine hv x ?_
      rw [hacts]
      exact List.mem_append_left _ hx
    have hact : act.Valid fc := by
      refine hv act ?_
      rw [hacts]
      exact List.mem_append_right _ List.mem_cons_self
    exact EscrowAct.run_safe (playEscrows_books hstart hbefore) hact hrun
  · exact ((playEscrows_books hstart hv).opened e he).life.accounted
  · exact ((playEscrows_books hstart hv).closed id hle hlt hgone).accounted

/-- alice deposits 50 tokens for bob with carol as the agent, both approve, and alice releases
20 of the tokens. -/
def escrowActs : List EscrowAct :=
  [.transfer { fromAccount := "alice", toAccount := "bob", agent := "carol", escrowId := 1
               tokenAmount := ⟨50, tokenSymbol⟩, fee := ⟨5, tokenSymbol⟩
               ratificationDeadline := 100, escrowExpiration := 200, jsonMetadata := "" },
    .approve { fromAccount := "alice", toAccount := "bob", agent := "carol", who := "bob"
               escrowId := 1, approve := true },
    .approve { fromAccount := "alice", toAccount := "bob", agent := "carol", who := "carol"
               escrowId := 1, approve := true },
    .release { fromAccount := "alice", toAccount := "bob", agent := "carol", who := "alice"
               receiver := "bob", escrowId := 1, tokenAmount := ⟨20, tokenSymbol⟩ }]

def escrowDb : Db := (smallStore [{ id := 4, name := "bob" }, { id := 5, name := "carol" }]).db

theorem escrow_safety_release :
    ∃ e ∈ (playEscrows escrowDb escrowActs).2.escrows.rows,
      e.stage = .running 30 ∧ Accounted (logOf (playEscrows escrowDb escrowActs).1 e.id) e.stage := by
  have hv : ∀ act ∈ escrowActs, act.Valid smallEnv.fc := by
    intro act hact
    simp only [escrowActs, List.mem_cons, List.not_mem_nil, or_false] at hact
    rcases hact with rfl | rfl | rfl | rfl
    · show EscrowTransferOperation.validate _ _ = _
      decide +kernel
    · show EscrowApproveOperation.validate _ = _
      decide +kernel
    · show EscrowApproveOperation.validate _ = _
      decide +kernel
    · show EscrowReleaseOperation.validate _ = _
      decide +kernel
  have hrow : ((playEscrows escrowDb escrowActs).2.escrows.rows.map fun e =>
      (e.isApproved, e.tokenBalance)) = [(true, 30)] := by
    decide +kernel
  obtain ⟨e, rows, hrows, he, -⟩ := List.map_eq_cons_iff.1 hrow
  have hmem : e ∈ (playEscrows escrowDb escrowActs).2.escrows.rows := by
    rw [hrows]
    exact List.mem_cons_self
  rw [Prod.mk.injEq] at he
  have hstage : e.stage = .running 30 := by
    rw [EscrowObject.stage_running he.1, he.2]
  exact ⟨e, hmem, hstage, (escrow_safety rfl hv).2.1 e hmem⟩

end VizCore.Chain
