import VizCore.Lib.Except

/-!
# Basic types of the protocol

Names, keys, times, the exceptions of the code, and its arithmetic:
`share_type` is a checked 64-bit integer, `asset * price` goes through an
unchecked 128-bit product.

* `mulDiv_eq_of_fits`: on nonnegative arguments whose product does not wrap and whose
  quotient fits 63 bits, `asset * price` is the truncated quotient;
* `mulDiv_mul_le`: whatever wraps, it is never more than the exact quotient.
-/

namespace VizCore.Protocol

open VizCore.Lib

abbrev AccountName := String

/-- A compressed public key as a number; `0` is the null key `public_key_type()`. -/
abbrev PublicKey := Nat

/-- Seconds since the epoch (`fc::time_point_sec`). -/
abbrev TimePointSec := Nat

/-- `fc::time_point_sec::maximum()`. -/
def timeMaximum : TimePointSec := 2 ^ 32 - 1

/-- Weighted keys and accounts with a threshold.  `weight_type` has 16 bits, the
threshold 32. -/
structure Authority where
  weightThreshold : Nat := 0
  accountAuths : List (AccountName × Nat) := []
  keyAuths : List (PublicKey × Nat) := []
  deriving DecidableEq, Repr

/-- What the code throws.  `assertion` is a failed `FC_ASSERT` with its text. -/
inductive Exception
  | assertion (msg : String)
  | overflow
  | divideByZero
  | unknownKey (index : String)
  | duplicateKey (index : String)
  | txMissingRegularAuth (missing : List AccountName) (used : List PublicKey)
  | txMissingActiveAuth (missing : List AccountName) (used : List PublicKey)
  | txMissingMasterAuth (missing : List AccountName) (used : List PublicKey)
  | txMissingOtherAuth (missing : List Authority)
  | txIrrelevantSig (unused : List PublicKey)
  | txIrrelevantApproval (unused : List AccountName)
  | unlinkableBlock
  | popEmptyChain
  | unknownHardfork
  | outOfFuel
  deriving DecidableEq, Repr

abbrev Result (α : Type) := Except Exception α

/-- `FC_ASSERT(c, msg)`. -/
def fcAssert (c : Prop) [Decidable c] (msg : String) : Result Unit :=
  require c (.assertion msg)

@[simp] theorem fcAssert_eq_ok (c : Prop) [Decidable c] (msg : String) (u : Unit) :
    fcAssert c msg = .ok u ↔ c :=
  require_eq_ok c (Exception.assertion msg) u

theorem fcAssert_bind_eq_ok {β : Type} (c : Prop) [Decidable c] (msg : String)
    (f : Unit → Result β) (b : β) :
    (fcAssert c msg >>= f) = .ok b ↔ c ∧ f () = .ok b :=
  require_bind_eq_ok c (Exception.assertion msg) f b

/-! ## Checked 64-bit arithmetic -/

def InInt64 (x : Int) : Prop := -2 ^ 63 ≤ x ∧ x < 2 ^ 63

instance (x : Int) : Decidable (InInt64 x) := inferInstanceAs (Decidable (_ ∧ _))

/-- The result of an operation of `fc::safe<int64_t>`: it throws when the value does
not fit. -/
def checked (x : Int) : Result Int :=
  if InInt64 x then .ok x else .error .overflow

def safeAdd (a b : Int) : Result Int := checked (a + b)

def safeSub (a b : Int) : Result Int := checked (a - b)

def safeMul (a b : Int) : Result Int := checked (a * b)

/-- Division truncates toward zero, as in C++. -/
def safeDiv (a b : Int) : Result Int :=
  if b = 0 then .error .divideByZero else checked (a.tdiv b)

/-- The remainder has the sign of the dividend, as in C++. -/
def safeMod (a b : Int) : Result Int :=
  if b = 0 then .error .divideByZero else .ok (a.tmod b)

@[simp] theorem checked_eq_ok (x y : Int) : checked x = .ok y ↔ InInt64 x ∧ x = y := by
  unfold checked
  by_cases h : InInt64 x <;> simp [h]

@[simp] theorem safeAdd_eq_ok (a b c : Int) :
    safeAdd a b = .ok c ↔ InInt64 (a + b) ∧ a + b = c := checked_eq_ok _ _

@[simp] theorem safeSub_eq_ok (a b c : Int) :
    safeSub a b = .ok c ↔ InInt64 (a - b) ∧ a - b = c := checked_eq_ok _ _

@[simp] theorem safeMul_eq_ok (a b c : Int) :
    safeMul a b = .ok c ↔ InInt64 (a * b) ∧ a * b = c := checked_eq_ok _ _

@[simp] theorem safeDiv_eq_ok (a b c : Int) :
    safeDiv a b = .ok c ↔ b ≠ 0 ∧ InInt64 (a.tdiv b) ∧ a.tdiv b = c := by
  unfold safeDiv
  by_cases h : b = 0 <;> simp [h]

/-! ## Unchecked conversions -/

/-- `fc::uint128_t(int64_t)`: the sign is extended. -/
def toUint128 (x : Int) : Nat := (x % 2 ^ 128).toNat

/-- The `share_type` built from a 64-bit unsigned value: the top bit is the sign. -/
def toInt64 (n : Nat) : Int := if n < 2 ^ 63 then n else (n : Int) - 2 ^ 64

theorem toUint128_cast (x : Int) : (toUint128 x : Int) = x % 2 ^ 128 := by
  unfold toUint128
  exact Int.toNat_of_nonneg (Int.emod_nonneg _ (by norm_num))

theorem toUint128_of_nonneg {x : Int} (h : 0 ≤ x) (h' : x < 2 ^ 128) :
    (toUint128 x : Int) = x := by
  unfold toUint128
  rw [Int.emod_eq_of_lt h h', Int.toNat_of_nonneg h]

theorem toInt64_of_lt {n : Nat} (h : n < 2 ^ 63) : toInt64 n = n :=
  if_pos h

theorem inInt64_toInt64 {n : Nat} (h : n < 2 ^ 64) : InInt64 (toInt64 n) := by
  unfold InInt64 toInt64
  split <;> omega

/-- `to_uint64()` of a 128-bit value, stored in a signed 64-bit variable; the high half must
be zero. -/
def toSigned64 (x : Nat) : Result Int := do
  fcAssert (x < 2 ^ 64) "hi == 0"
  return toInt64 x

/-- Division of 128-bit numbers throws on a zero divisor. -/
def divUint128 (a b : Nat) : Result Nat := do
  require (b ≠ 0) .divideByZero
  return a / b

/-! ## Assets -/

/-- `TOKEN_SYMBOL`: three decimals and the letters VIZ. -/
def tokenSymbol : Nat := 3 + 'V'.toNat * 2 ^ 8 + 'I'.toNat * 2 ^ 16 + 'Z'.toNat * 2 ^ 24

/-- `SHARES_SYMBOL`: six decimals and the letters SHARES. -/
def sharesSymbol : Nat :=
  6 + 'S'.toNat * 2 ^ 8 + 'H'.toNat * 2 ^ 16 + 'A'.toNat * 2 ^ 24 + 'R'.toNat * 2 ^ 32 +
    'E'.toNat * 2 ^ 40 + 'S'.toNat * 2 ^ 48

structure Asset where
  amount : Int
  symbol : Nat := tokenSymbol
  deriving DecidableEq, Repr

/-- The amount of an asset that is used together with an asset of the symbol `symbol`.
The operators of `asset` assert that both symbols agree. -/
def Asset.amountOf (a : Asset) (symbol : Nat) : Result Int := do
  fcAssert (a.symbol = symbol) "symbol == o.symbol"
  return a.amount

theorem Asset.amountOf_eq_ok (a : Asset) (symbol : Nat) (x : Int) :
    a.amountOf symbol = .ok x ↔ a.symbol = symbol ∧ a.amount = x := by
  simp only [Asset.amountOf, fcAssert_bind_eq_ok, pure_eq_ok]

/-- `asset * price` for an amount `a` in the price's base: `a * quote / base` in 128 bits;
only the high half is checked, the low half becomes a signed amount. -/
def mulDiv (a quote base : Int) : Result Int := do
  fcAssert (0 < base) "b.base.amount.value > 0"
  let result := toUint128 a * toUint128 quote % 2 ^ 128 / toUint128 base
  fcAssert (result < 2 ^ 64) "result.hi == 0"
  return toInt64 result

/-- **Exact quotient.**  When the product does not wrap, the result is the truncated quotient
as long as that fits 63 bits. -/
theorem mulDiv_eq_of_fits {a q b : Int} (ha : 0 ≤ a) (ha' : a < 2 ^ 128) (hq : 0 ≤ q)
    (hq' : q < 2 ^ 128) (hb : 0 < b) (hb' : b < 2 ^ 128) (hprod : a * q < 2 ^ 128)
    (hfit : a * q / b < 2 ^ 63) : mulDiv a q b = .ok (a * q / b) := by
  lift a to Nat using ha
  lift q to Nat using hq
  lift b to Nat using hb.le
  have hcast (n : Nat) (hn : (n : Int) < 2 ^ 128) : toUint128 (n : Int) = n := by
    have h := toUint128_of_nonneg (Int.natCast_nonneg n) hn
    exact_mod_cast h
  have hprod' : a * q < 2 ^ 128 := by exact_mod_cast hprod
  have hquot : a * q / b < 2 ^ 63 := by exact_mod_cast hfit
  have hres : toUint128 (a : Int) * toUint128 (q : Int) % 2 ^ 128 / toUint128 (b : Int) =
      a * q / b := by
    rw [hcast a ha', hcast q hq', hcast b hb', Nat.mod_eq_of_lt hprod']
  simp only [mulDiv, fcAssert_bind_eq_ok, pure_eq_ok, hres]
  refine ⟨hb, by omega, ?_⟩
  rw [toInt64_of_lt hquot, Int.natCast_ediv, Int.natCast_mul]

/-- The unsigned result may turn negative as a signed amount, but never grows. -/
theorem toInt64_le (n : Nat) : toInt64 n ≤ n := by
  unfold toInt64
  split <;> omega

/-- **Rounding down.**  Whatever wraps in the product or in the result, a conversion gives no
more than the exact quotient. -/
theorem mulDiv_mul_le {a q b x : Int} (ha : 0 ≤ a) (hq : 0 ≤ q) (hb : b < 2 ^ 128)
    (h : mulDiv a q b = .ok x) : x * b ≤ a * q := by
  simp only [mulDiv, fcAssert_bind_eq_ok, pure_eq_ok] at h
  obtain ⟨hpos, -, rfl⟩ := h
  lift a to Nat using ha
  lift q to Nat using hq
  lift b to Nat using hpos.le
  have hbase : toUint128 (b : Int) = b := by
    have h := toUint128_of_nonneg (Int.natCast_nonneg b) hb
    exact_mod_cast h
  have hsmaller (n : Nat) : toUint128 (n : Int) ≤ n := by
    unfold toUint128
    omega
  rw [hbase]
  have hprod : toUint128 (a : Int) * toUint128 (q : Int) % 2 ^ 128 ≤ a * q :=
    (Nat.mod_le _ _).trans (Nat.mul_le_mul (hsmaller a) (hsmaller q))
  have hquot : toUint128 (a : Int) * toUint128 (q : Int) % 2 ^ 128 / b * b ≤ a * q :=
    (Nat.div_mul_le_self _ _).trans hprod
  have hsigned := toInt64_le (toUint128 (a : Int) * toUint128 (q : Int) % 2 ^ 128 / b)
  calc toInt64 (toUint128 (a : Int) * toUint128 (q : Int) % 2 ^ 128 / b) * (b : Int)
      ≤ ((toUint128 (a : Int) * toUint128 (q : Int) % 2 ^ 128 / b : Nat) : Int) * (b : Int) :=
        mul_le_mul_of_nonneg_right hsigned (Int.natCast_nonneg b)
    _ ≤ (a : Int) * (q : Int) := by exact_mod_cast hquot

end VizCore.Protocol
