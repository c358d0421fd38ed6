import VizCore.Protocol.AssetText

/-!
# Assets at a price

`asset * price`, for an asset in one of the two units of the price.

* `mulDiv_eq_ok`: the quotient, narrowed to 64 bits and read with a sign, where it fits these;
* `mulPrice_exact_iff`: the amount is the exact one, or is refused, unless the quotient needs the
  64th bit.
-/

namespace VizCore.Protocol

open VizCore.Lib

structure Price where
  base : Asset
  quote : Asset

/-- `operator*(asset, price)` -/
def Asset.mulPrice (a : Asset) (b : Price) : Result Asset := do
  let name ← a.symbolName
  let base ← b.base.symbolName
  if name = base then
    let amount ← mulDiv a.amount b.quote.amount b.base.amount
    return ⟨amount, b.quote.symbol⟩
  else
    let quote ← b.quote.symbolName
    if name = quote then
      let amount ← mulDiv a.amount b.base.amount b.quote.amount
      return ⟨amount, b.base.symbol⟩
    else throw (.assertion "invalid asset * price")

/-- Numerator and denominator of the price, for an asset in the unit of the latter. -/
inductive Converts (a : Asset) (b : Price) : Asset → Asset → Prop
  | ofBase {name : Bytes} (ha : a.symbolName = .ok name) (hbase : b.base.symbolName = .ok name) :
    Converts a b b.quote b.base
  | ofQuote {name other : Bytes} (ha : a.symbolName = .ok name)
    (hbase : b.base.symbolName = .ok other) (hne : name ≠ other)
    (hquote : b.quote.symbolName = .ok name) : Converts a b b.base b.quote

/-- The amount that the price stands for, rounded down. -/
def exactAmount (a num den : Asset) : Int := a.amount * num.amount / den.amount

/-- The exact amount is returned if it is one, and nothing is returned otherwise. -/
structure ExactOrRefused (a num den : Asset) (r : Result Asset) : Prop where
  exact : exactAmount a num den ≤ 2 ^ 63 - 1 → r = .ok ⟨exactAmount a num den, num.symbol⟩
  refused : 2 ^ 63 - 1 < exactAmount a num den → ∃ e, r = .error e

/-- The quotient needs all of 64 bits. -/
def NeedsTopBit (a num den : Asset) : Prop :=
  2 ^ 63 ≤ exactAmount a num den ∧ exactAmount a num den < 2 ^ 64

instance (a num den : Asset) : Decidable (NeedsTopBit a num den) :=
  inferInstanceAs (Decidable (_ ∧ _))

/-- An amount that is a value of its type. -/
def Asset.InRange (a : Asset) : Prop := a.amount < 2 ^ 63

/-- The quotient of values of 63 bits: the product does not wrap, and of the quotient only the
upper half of 128 bits is checked. -/
theorem mulDiv_eq_ok {a q b x : Int} (ha : 0 ≤ a) (ha' : a < 2 ^ 63) (hq : 0 ≤ q)
    (hq' : q < 2 ^ 63) (hb : 0 < b) (hb' : b < 2 ^ 63) :
    mulDiv a q b = .ok x ↔ a * q / b < 2 ^ 64 ∧ toInt64 (a * q / b).toNat = x := by
  lift a to Nat using ha
  lift q to Nat using hq
  lift b to Nat using hb.le
  have hcast (n : Nat) (hn : (n : Int) < 2 ^ 63) : toUint128 (n : Int) = n := by
    have h := toUint128_of_nonneg (Int.natCast_nonneg n) (by omega)
    exact_mod_cast h
  have hprod : a * q < 2 ^ 128 := by
    have ha : a < 2 ^ 63 := by exact_mod_cast ha'
    have hq : q < 2 ^ 63 := by exact_mod_cast hq'
    calc a * q ≤ 2 ^ 63 * 2 ^ 63 := Nat.mul_le_mul ha.le hq.le
      _ < 2 ^ 128 := by norm_num
  have hresult : toUint128 (a : Int) * toUint128 (q : Int) % 2 ^ 128 / toUint128 (b : Int) =
      a * q / b := by
    rw [hcast a ha', hcast q hq', hcast b hb', Nat.mod_eq_of_lt hprod]
  have hquot : (a : Int) * q / b = ((a * q / b : Nat) : Int) := by
    rw [← Int.natCast_mul, ← Int.natCast_ediv]
  simp only [mulDiv, fcAssert_bind_eq_ok, pure_eq_ok, hresult]
  rw [hquot, Int.toNat_natCast, and_iff_right hb]
  generalize a * q / b = n
  refine and_congr_left fun _ => ?_
  omega

/-- A quotient of 63 bits is returned as it is, one of 64 bits as a negative number. -/
theorem toInt64_toNat {x : Int} (h : 0 ≤ x) :
    toInt64 x.toNat = if x < 2 ^ 63 then x else x - 2 ^ 64 := by
  unfold toInt64
  by_cases hsmall : x < 2 ^ 63
  · rw [if_pos hsmall, if_pos (by omega), Int.toNat_of_nonneg h]
  · rw [if_neg hsmall, if_neg (by omega), Int.toNat_of_nonneg h]

section Conversion

variable {a num den : Asset}

/-- **One way**: the narrowed quotient is the exact amount, or refused, unless it needs the
64th bit. -/
theorem mulDiv_exact_iff (ha : 0 ≤ a.amount) (ha' : a.InRange) (hnum : 0 < num.amount)
    (hnum' : num.InRange) (hden : 0 < den.amount) (hden' : den.InRange) {r : Result Asset}
    (hr : r = (mulDiv a.amount num.amount den.amount).map fun x => ⟨x, num.symbol⟩) :
    ExactOrRefused a num den r ↔ ¬ NeedsTopBit a num den := by
  have hspec (x : Int) := @mulDiv_eq_ok _ _ _ x ha ha' hnum.le hnum' hden hden'
  have hpos : 0 ≤ exactAmount a num den :=
    Int.ediv_nonneg (mul_nonneg ha hnum.le) hden.le
  have hvalue : a.amount * num.amount / den.amount = exactAmount a num den := rfl
  simp only [hvalue, toInt64_toNat hpos] at hspec
  unfold NeedsTopBit
  cases hrun : mulDiv a.amount num.amount den.amount with
  | error e =>
    rw [hrun] at hr hspec
    have hbig : ¬ exactAmount a num den < 2 ^ 64 := fun hlt => by cases (hspec _).2 ⟨hlt, rfl⟩
    refine iff_of_true ⟨fun hsmall => ?_, fun _ => ⟨e, hr⟩⟩ ?_
    · omega
    · omega
  | ok x =>
    rw [hrun] at hr hspec
    obtain ⟨hlt, hx⟩ := (hspec x).1 rfl
    constructor
    · intro h hneeds
      obtain ⟨e, he⟩ := h.refused (by omega)
      rw [hr] at he
      cases he
    · intro hfits
      have hsmall : exactAmount a num den < 2 ^ 63 := by omega
      rw [if_pos hsmall] at hx
      refine ⟨fun _ => ?_, fun hbig => ?_⟩
      · rw [hr, ← hx]
        rfl
      · omega

end Conversion

theorem Converts.mulPrice_eq {a num den : Asset} {b : Price} (h : Converts a b num den) :
    a.mulPrice b = (mulDiv a.amount num.amount den.amount).map fun x => ⟨x, num.symbol⟩ := by
  cases h with
  | ofBase ha hbase =>
    unfold Asset.mulPrice
    rw [ha, hbase]
    simp only [bind, Except.bind, if_true]
    cases mulDiv a.amount b.quote.amount b.base.amount <;> rfl
  | ofQuote ha hbase hne hquote =>
    unfold Asset.mulPrice
    rw [ha, hbase, hquote]
    simp only [bind, Except.bind, if_neg hne, if_true]
    cases mulDiv a.amount b.base.amount b.quote.amount <;> rfl

/-- Without a unit in common there is no result. -/
theorem mulPrice_refused {a : Asset} {b : Price} (h : ∀ num den, ¬ Converts a b num den) :
    ∃ e, a.mulPrice b = .error e := by
  cases hrun : a.mulPrice b with
  | error e => exact ⟨e, rfl⟩
  | ok r =>
    simp only [Asset.mulPrice, bind_eq_ok] at hrun
    obtain ⟨name, ha, base, hbase, hrun⟩ := hrun
    split at hrun
    · rename_i heq
      rw [← heq] at hbase
      exact absurd (.ofBase ha hbase) (h _ _)
    · rename_i hne
      rw [bind_eq_ok] at hrun
      obtain ⟨quote, hquote, hrun⟩ := hrun
      split at hrun
      · rename_i heq
        rw [← heq] at hquote
        exact absurd (.ofQuote ha hbase hne hquote) (h _ _)
      · cases hrun

/-- The components of a price that is used. -/
structure Price.Positive (b : Price) : Prop where
  base : 0 < b.base.amount ∧ b.base.InRange
  quote : 0 < b.quote.amount ∧ b.quote.InRange

/-- **Prices.**  The exact amount, rounded down, is returned where it is an amount, and refused
otherwise, for exactly the assets whose quotient does not need the 64th bit. -/
theorem mulPrice_exact_iff {a : Asset} {b : Price} (ha : 0 ≤ a.amount) (ha' : a.InRange)
    (hb : b.Positive) :
    (∀ num den, Converts a b num den →
      (ExactOrRefused a num den (a.mulPrice b) ↔ ¬ NeedsTopBit a num den)) ∧
      ((∀ num den, ¬ Converts a b num den) → ∃ e, a.mulPrice b = .error e) := by
  refine ⟨fun num den h => ?_, mulPrice_refused⟩
  have hsides : (0 < num.amount ∧ num.InRange) ∧ (0 < den.amount ∧ den.InRange) := by
    cases h with
    | ofBase => exact ⟨hb.quote, hb.base⟩
    | ofQuote => exact ⟨hb.base, hb.quote⟩
  obtain ⟨⟨hnum, hnum'⟩, hden, hden'⟩ := hsides
  exact mulDiv_exact_iff ha ha' hnum hnum' hden hden' h.mulPrice_eq

/-- A price of three shares for two tokens. -/
def smallPrice : Price := ⟨⟨3, sharesSymbol⟩, ⟨2, tokenSymbol⟩⟩

theorem mulPrice_exact_small :
    (⟨1001, tokenSymbol⟩ : Asset).mulPrice smallPrice = .ok ⟨1501, sharesSymbol⟩ := by
  have hconverts : Converts ⟨1001, tokenSymbol⟩ smallPrice ⟨3, sharesSymbol⟩ ⟨2, tokenSymbol⟩ :=
    @Converts.ofQuote ⟨1001, tokenSymbol⟩ smallPrice [86, 73, 90] [83, 72, 65, 82, 69, 83]
      (by decide +kernel) (by decide +kernel) (by decide) (by decide +kernel)
  have hall := @mulPrice_exact_iff ⟨1001, tokenSymbol⟩ smallPrice (by decide)
    (show (1001 : Int) < 2 ^ 63 by decide)
    ⟨⟨by decide, show (3 : Int) < 2 ^ 63 by decide⟩, by decide, show (2 : Int) < 2 ^ 63 by decide⟩
  exact ((hall.1 _ _ hconverts).2 (by decide)).exact (by decide)

/-- **A negative amount** is what the largest one comes to at a price of two to one. -/
theorem mulPrice_negative :
    (⟨2 ^ 63 - 1, tokenSymbol⟩ : Asset).mulPrice ⟨⟨2, sharesSymbol⟩, ⟨1, tokenSymbol⟩⟩ =
      .ok ⟨-2, sharesSymbol⟩ ∧
    ¬ ExactOrRefused ⟨2 ^ 63 - 1, tokenSymbol⟩ ⟨2, sharesSymbol⟩ ⟨1, tokenSymbol⟩
      (Asset.mulPrice ⟨2 ^ 63 - 1, tokenSymbol⟩ ⟨⟨2, sharesSymbol⟩, ⟨1, tokenSymbol⟩⟩) := by
  have hrun : (⟨2 ^ 63 - 1, tokenSymbol⟩ : Asset).mulPrice
      ⟨⟨2, sharesSymbol⟩, ⟨1, tokenSymbol⟩⟩ = .ok ⟨-2, sharesSymbol⟩ := by decide +kernel
  refine ⟨hrun, fun h => ?_⟩
  obtain ⟨e, he⟩ := h.refused (by decide)
  rw [hrun] at he
  cases he

end VizCore.Protocol
