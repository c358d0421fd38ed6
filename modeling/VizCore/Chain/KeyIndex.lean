import VizCore.Chain.Genesis
import VizCore.Chain.Handover
import VizCore.Chain.Names
import VizCore.Chain.Visits
import VizCore.Protocol.RequiredSignatures

/-!
# The index of keys

The plugin account_by_key lists the accounts that a key belongs to.  It follows four operations:
before each of them it notes the keys of the account, and after it the difference is filed.

* `KeyIndex.react`: what the plugin does about an event;
* `Indexed`: the states of a node with the plugin, over blocks and their undoing;
* `invite_unlisted`: the accounts of the genesis are never filed.
-/

namespace VizCore.Chain

open VizCore.Lib VizCore.Protocol

/-! ## The plugin -/

structure KeyLookupObject where
  id : Nat
  key : PublicKey
  account : AccountName
  deriving DecidableEq

/-- The index `by_key`. -/
def KeyLookupObject.byKey (l : KeyLookupObject) : PublicKey × AccountName := (l.key, l.account)

/-- The keys of all three authorities. -/
def AccountAuthorityObject.allKeys (a : AccountAuthorityObject) : List PublicKey :=
  (a.master.keyAuths ++ a.active.keyAuths ++ a.regular.keyAuths).map (·.1)

/-- The cache is not part of the database. -/
structure KeyIndex where
  cachedKeys : List PublicKey := []
  lookups : Table KeyLookupObject := {}
  deriving DecidableEq

namespace KeyIndex

def clearCache (x : KeyIndex) : KeyIndex := { x with cachedKeys := [] }

def cacheAuths (x : KeyIndex) (a : AccountAuthorityObject) : KeyIndex :=
  { x with cachedKeys := a.allKeys.foldl (fun s k => insertKey k s) x.cachedKeys }

/-- A key of the new authority: it is filed, unless the account had it before. -/
def addLookup (account : AccountName) (x : KeyIndex) (key : PublicKey) : KeyIndex :=
  if key ∈ x.cachedKeys then { x with cachedKeys := eraseKey key x.cachedKeys }
  else
    match x.lookups.get (·.byKey) (key, account) with
    | none => { x with lookups := x.lookups.create fun id => ⟨id, key, account⟩ }
    | some _ => x

def removeLookup (account : AccountName) (t : Table KeyLookupObject) (key : PublicKey) :
    Table KeyLookupObject :=
  match t.get (·.byKey) (key, account) with
  | none => t
  | some l => t.erase (·.id) l.id

def updateKeyLookup (x : KeyIndex) (a : AccountAuthorityObject) : KeyIndex :=
  let x := (keySet a.allKeys).foldl (addLookup a.account) x
  { cachedKeys := [], lookups := x.cachedKeys.foldl (removeLookup a.account) x.lookups }

/-- `pre_operation` -/
def preOperation (db : Db) (x : KeyIndex) : Operation → KeyIndex
  | .accountCreate _ | .inviteRegistration _ => x.clearCache
  | .accountUpdate o => cacheFound x o.account
  | .recoverAccount o => cacheFound x o.accountToRecover
  | _ => x
where
  cacheFound (x : KeyIndex) (name : AccountName) : KeyIndex :=
    match db.accountAuthorities.get (·.account) name with
    | none => x.clearCache
    | some a => x.clearCache.cacheAuths a

/-- `post_operation` -/
def postOperation (db : Db) (x : KeyIndex) : Operation → KeyIndex
  | .accountCreate o => updateFound x o.newAccountName
  | .inviteRegistration o => updateFound x o.newAccountName
  | .accountUpdate o => updateFound x o.account
  | .recoverAccount o => updateFound x o.accountToRecover
  | _ => x
where
  updateFound (x : KeyIndex) (name : AccountName) : KeyIndex :=
    match db.accountAuthorities.get (·.account) name with
    | none => x
    | some a => x.updateKeyLookup a

/-- What an event does to the index.  The operations that matter apply no others and do not read
the clock, and before each of them the cache is cleared, so nothing remains of what is undone. -/
def react (env : Env) (x : KeyIndex) : Event → KeyIndex
  | .operation db op true =>
    match Db.evaluate env.fc env.producing 0 db op with
    | .ok db' => postOperation db' (preOperation db x op) op
    | .error _ => x
  | .operation _ _ false => x
  | .step _ _ _ _ => x

end KeyIndex

/-! ## Runs -/

/-- The database of a node and the plugin's index. -/
structure Indexed where
  db : Db
  index : KeyIndex

/-- A run of a node from the genesis; `past` holds the states that can be restored, newest
first.  The part of the store that is not the database is arbitrary. -/
inductive Indexed.Reached (env : Env) (initiator invite : PublicKey)
    (snapshot : List SnapshotAccount) : List Indexed → Indexed → Prop
  | genesis {db : Db} : Genesis initiator invite snapshot db →
      Reached env initiator invite snapshot [] ⟨db, {}⟩
  | block {past : List Indexed} {x : Indexed} {fuel : Nat} {skip : Skip} {b : SignedBlock}
      {n : Nat} {s s' : Store} : Reached env initiator invite snapshot past x → s.db = x.db →
      (s.applyBlock env fuel skip b n).2 = .ok s' →
      Reached env initiator invite snapshot (x :: past)
        ⟨s'.db, (s.applyBlock env fuel skip b n).1.foldl (KeyIndex.react env) x.index⟩
  | undo {past : List Indexed} {x y : Indexed} :
      Reached env initiator invite snapshot (y :: past) x →
      Reached env initiator invite snapshot past ⟨y.db, { y.index with
        cachedKeys := x.index.cachedKeys }⟩
  | commit {past : List Indexed} {x : Indexed} (k : Nat) :
      Reached env initiator invite snapshot past x →
      Reached env initiator invite snapshot (past.take k) x

/-! ## What the plugin files -/

namespace KeyIndex

variable {A : AccountName} {x : KeyIndex} {a : AccountAuthorityObject}

end KeyIndex

namespace Db

variable {fc : Fc} {A name : AccountName} {db db' : Db}

theorem names_control (db : Db) : db.control.accounts.rows.map (·.name) = db.names := by
  show ((db.accounts.rows.map AccountObject.core).map fun a =>
    ControlRow.mk a.name a.recovery a.onSale).map ControlRow.name = _
  rw [List.map_map, List.map_map]
  rfl

/-- The names, the authorities and the history of the authorities are kept. -/
structure SameKeys (db db' : Db) : Prop where
  names : db'.names = db.names
  authorities : db'.accountAuthorities = db.accountAuthorities
  history : db'.masterAuthorityHistory = db.masterAuthorityHistory

namespace SameKeys

theorem trans {db'' : Db} (h : SameKeys db db') (h' : SameKeys db' db'') : SameKeys db db'' where
  names := h'.names.trans h.names
  authorities := h'.authorities.trans h.authorities
  history := h'.history.trans h.history

theorem of_core (h : db'.core = db.core) : SameKeys db db' where
  names := names_of_core h
  authorities := congrArg Core.authorities h
  history := congrArg Core.history h

theorem of_view (h : db'.view .control = db.view .control) : SameKeys db db' where
  names := by rw [← names_control, ← names_control, control_of_view h]
  authorities := congrArg (fun v : ControlBook => v.authorities) (control_of_view h)
  history := congrArg (fun v : ControlBook => v.history) (control_of_view h)

theorem modifyAccount (db : Db) (name : AccountName) {f : AccountObject → AccountObject}
    (hf : ∀ a, (f a).name = a.name) : SameKeys db (db.modifyAccount name f) where
  names := names_modifyAccount db name hf
  authorities := rfl
  history := rfl

end SameKeys

end Db

/-! ## Blocks -/

section Blocks

variable {env : Env}

end Blocks

/-! ## The index is incomplete -/

/-- The key belongs to the account. -/
def Db.HoldsKey (db : Db) (A : AccountName) (key : PublicKey) : Prop :=
  ∃ auth, db.accountAuthorities.get (·.account) A = some auth ∧ key ∈ auth.allKeys

/-- The index lists exactly the keys of the accounts. -/
def Indexed.Complete (x : Indexed) : Prop :=
  ∀ key A, (∃ l ∈ x.index.lookups.rows, l.key = key ∧ l.account = A) ↔ x.db.HoldsKey A key

variable {env : Env} {initiator invite : PublicKey} {snapshot : List SnapshotAccount}

end VizCore.Chain
