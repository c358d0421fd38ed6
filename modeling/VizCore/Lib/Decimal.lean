import VizCore.Lib.Bytes

/-!
# Decimal numbers as texts

* `decimalValue_decimalDigits`: the digits of a number stand for it;
* `decimalDigits_pow_add`: a one in front keeps the leading zeros of what follows;
* `Numeral.unique`: a text stands for one number at most.
-/

namespace VizCore.Lib

/-! ## Digits -/

def IsDigit (c : UInt8) : Prop := 48 ≤ c.toNat ∧ c.toNat ≤ 57

instance (c : UInt8) : Decidable (IsDigit c) := inferInstanceAs (Decidable (_ ∧ _))

instance (digits : Bytes) : Decidable (∀ c ∈ digits, IsDigit c) := List.decidableBAll IsDigit digits

def digitOf (n : Nat) : UInt8 := UInt8.ofNat (48 + n)

/-- The number that the digits stand for, with `n` before them. -/
def decimalValueFrom (n : Nat) (digits : Bytes) : Nat :=
  digits.foldl (fun n c => 10 * n + (c.toNat - 48)) n

def decimalValue (digits : Bytes) : Nat := decimalValueFrom 0 digits

def decimalDigits (n : Nat) : Bytes :=
  if n < 10 then [digitOf n] else decimalDigits (n / 10) ++ [digitOf (n % 10)]
termination_by n
decreasing_by omega

theorem toNat_digitOf {n : Nat} (h : n < 10) : (digitOf n).toNat = 48 + n := by
  unfold digitOf
  rw [UInt8.toNat_ofNat']
  omega

theorem isDigit_digitOf {n : Nat} (h : n < 10) : IsDigit (digitOf n) := by
  unfold IsDigit
  rw [toNat_digitOf h]
  omega

theorem decimalValueFrom_eq (n : Nat) (digits : Bytes) :
    decimalValueFrom n digits = n * 10 ^ digits.length + decimalValue digits := by
  unfold decimalValue
  induction digits generalizing n with
  | nil => simp [decimalValueFrom]
  | cons c digits ih =>
    have hn : decimalValueFrom n (c :: digits) = decimalValueFrom (10 * n + (c.toNat - 48)) digits :=
      rfl
    have hzero : decimalValueFrom 0 (c :: digits) = decimalValueFrom (10 * 0 + (c.toNat - 48)) digits :=
      rfl
    rw [hn, hzero, ih, ih (10 * 0 + (c.toNat - 48)), List.length_cons, Nat.pow_succ]
    ring

theorem decimalValue_append (a b : Bytes) :
    decimalValue (a ++ b) = decimalValue a * 10 ^ b.length + decimalValue b := by
  rw [← decimalValueFrom_eq]
  unfold decimalValue decimalValueFrom
  rw [List.foldl_append]

theorem decimalValue_singleton (c : UInt8) : decimalValue [c] = c.toNat - 48 := by
  show 10 * 0 + (c.toNat - 48) = _
  omega

/-- Digits stand for less than the next power of ten. -/
theorem decimalValue_lt {digits : Bytes} (h : ∀ c ∈ digits, IsDigit c) :
    decimalValue digits < 10 ^ digits.length := by
  induction digits with
  | nil => exact Nat.zero_lt_one
  | cons c digits ih =>
    have hc := h c List.mem_cons_self
    have hdigits := ih fun d hd => h d (List.mem_cons_of_mem c hd)
    have happend := decimalValue_append [c] digits
    rw [List.singleton_append, decimalValue_singleton] at happend
    have hmul : (c.toNat - 48) * 10 ^ digits.length ≤ 9 * 10 ^ digits.length := by
      apply Nat.mul_le_mul_right
      unfold IsDigit at hc
      omega
    rw [happend, List.length_cons, Nat.pow_succ]
    omega

theorem decimalDigits_digit (n : Nat) : ∀ c ∈ decimalDigits n, IsDigit c := by
  induction n using decimalDigits.induct with
  | case1 n hlt =>
    rw [decimalDigits, if_pos hlt]
    intro c hc
    rw [List.mem_singleton.1 hc]
    exact isDigit_digitOf hlt
  | case2 n hge ih =>
    rw [decimalDigits, if_neg hge]
    intro c hc
    rcases List.mem_append.1 hc with hc | hc
    · exact ih c hc
    · rw [List.mem_singleton.1 hc]
      exact isDigit_digitOf (Nat.mod_lt n (by decide))

theorem decimalDigits_ne_nil (n : Nat) : decimalDigits n ≠ [] := by
  rw [decimalDigits]
  split
  · exact List.cons_ne_nil _ _
  · exact List.append_ne_nil_of_right_ne_nil _ (List.cons_ne_nil _ _)

/-- **The digits of a number** stand for it. -/
theorem decimalValue_decimalDigits (n : Nat) : decimalValue (decimalDigits n) = n := by
  induction n using decimalDigits.induct with
  | case1 n hlt =>
    rw [decimalDigits, if_pos hlt, decimalValue_singleton, toNat_digitOf hlt]
    omega
  | case2 n hge ih =>
    rw [decimalDigits, if_neg hge, decimalValue_append, ih, decimalValue_singleton,
      toNat_digitOf (Nat.mod_lt n (by decide)), List.length_singleton]
    omega

theorem length_decimalDigits_le {n k : Nat} (hk : 0 < k) (h : n < 10 ^ k) :
    (decimalDigits n).length ≤ k := by
  induction n using decimalDigits.induct generalizing k with
  | case1 n hlt =>
    rw [decimalDigits, if_pos hlt]
    exact hk
  | case2 n hge ih =>
    rw [decimalDigits, if_neg hge, List.length_append, List.length_singleton]
    obtain ⟨k, rfl⟩ := Nat.exists_eq_succ_of_ne_zero hk.ne'
    rw [Nat.pow_succ] at h
    have hpos : 0 < k := by
      rcases Nat.eq_zero_or_pos k with rfl | hpos
      · exact absurd h (by omega)
      · exact hpos
    have hrest := ih hpos (Nat.div_lt_of_lt_mul (by omega))
    omega

/-- **A one in front** keeps the leading zeros. -/
theorem decimalDigits_pow_add (k : Nat) {f : Nat} (h : f < 10 ^ k) :
    ∃ digits, decimalDigits (10 ^ k + f) = 49 :: digits ∧ digits.length = k ∧
      decimalValue digits = f := by
  induction k generalizing f with
  | zero =>
    obtain rfl : f = 0 := Nat.lt_one_iff.1 h
    refine ⟨[], ?_, rfl, rfl⟩
    rw [decimalDigits, if_pos (by decide)]
    rfl
  | succ k ih =>
    have hpos : 0 < 10 ^ k := Nat.pow_pos (by decide)
    rw [Nat.pow_succ] at h
    obtain ⟨digits, hdigits, hlength, hvalue⟩ := ih (f := f / 10) (by omega)
    refine ⟨digits ++ [digitOf (f % 10)], ?_, ?_, ?_⟩
    · have hdiv : (10 ^ (k + 1) + f) / 10 = 10 ^ k + f / 10 := by
        rw [Nat.pow_succ]
        omega
      have hmod : (10 ^ (k + 1) + f) % 10 = f % 10 := by
        rw [Nat.pow_succ]
        omega
      rw [decimalDigits, if_neg (by rw [Nat.pow_succ]; omega), hdiv, hmod, hdigits, List.cons_append]
    · rw [List.length_append, List.length_singleton, hlength]
    · rw [decimalValue_append, hvalue, decimalValue_singleton,
        toNat_digitOf (Nat.mod_lt f (by decide)), List.length_singleton]
      omega

/-! ## Signed numbers -/

/-- Digits, with a sign or none before them, and the number that they stand for. -/
inductive Numeral : Bytes → Int → Prop
  | plain {digits : Bytes} (hne : digits ≠ []) (h : ∀ c ∈ digits, IsDigit c) :
    Numeral digits (decimalValue digits)
  | plus {digits : Bytes} (hne : digits ≠ []) (h : ∀ c ∈ digits, IsDigit c) :
    Numeral (43 :: digits) (decimalValue digits)
  | minus {digits : Bytes} (hne : digits ≠ []) (h : ∀ c ∈ digits, IsDigit c) :
    Numeral (45 :: digits) (-decimalValue digits)

theorem isDigit_of_all {digits : Bytes} (h : digits.all (fun c => decide (IsDigit c)) = true) :
    ∀ c ∈ digits, IsDigit c :=
  fun c hc => of_decide_eq_true (List.all_eq_true.1 h c hc)

/-- The shortest text of a number. -/
def numeral (v : Int) : Bytes :=
  if v < 0 then 45 :: decimalDigits v.natAbs else decimalDigits v.natAbs

theorem numeral_spec (v : Int) : Numeral (numeral v) v := by
  have hvalue := decimalValue_decimalDigits v.natAbs
  unfold numeral
  split
  · have hminus := Numeral.minus (decimalDigits_ne_nil v.natAbs) (decimalDigits_digit v.natAbs)
    rw [hvalue] at hminus
    have habs : -(v.natAbs : Int) = v := by omega
    rwa [habs] at hminus
  · have hplain := Numeral.plain (decimalDigits_ne_nil v.natAbs) (decimalDigits_digit v.natAbs)
    rw [hvalue] at hplain
    have habs : (v.natAbs : Int) = v := by omega
    rwa [habs] at hplain

/-- What a text stands for, given its first byte. -/
theorem Numeral.value {text : Bytes} {v : Int} (h : Numeral text v) :
    v = if text.head? = some 45 then -(decimalValue text.tail : Int)
      else if text.head? = some 43 then (decimalValue text.tail : Int)
      else (decimalValue text : Int) := by
  cases h with
  | plain hne hdigits =>
    obtain ⟨c, digits, rfl⟩ := List.exists_cons_of_ne_nil hne
    have hc := hdigits c List.mem_cons_self
    have hminus : c ≠ 45 := by
      rintro rfl
      exact absurd hc (by decide)
    have hplus : c ≠ 43 := by
      rintro rfl
      exact absurd hc (by decide)
    rw [List.head?_cons, if_neg fun heq => hminus (Option.some.inj heq),
      if_neg fun heq => hplus (Option.some.inj heq)]
  | plus hne hdigits => rfl
  | minus hne hdigits => rfl

/-- **A text** stands for one number at most. -/
theorem Numeral.unique {text : Bytes} {v w : Int} (h : Numeral text v) (h' : Numeral text w) :
    v = w := by
  rw [h.value, h'.value]

/-- The bytes of a number are signs and digits. -/
theorem Numeral.bytes {text : Bytes} {v : Int} (h : Numeral text v) :
    ∀ c ∈ text, c = 43 ∨ c = 45 ∨ IsDigit c := by
  cases h with
  | plain hne hdigits => exact fun c hc => .inr (.inr (hdigits c hc))
  | plus hne hdigits =>
    intro c hc
    rcases List.mem_cons.1 hc with rfl | hc
    · exact .inl rfl
    · exact .inr (.inr (hdigits c hc))
  | minus hne hdigits =>
    intro c hc
    rcases List.mem_cons.1 hc with rfl | hc
    · exact .inr (.inl rfl)
    · exact .inr (.inr (hdigits c hc))

/-- A number with more digits behind it. -/
theorem Numeral.append {text frac : Bytes} {v : Int} (h : Numeral text v)
    (hfrac : ∀ c ∈ frac, IsDigit c) :
    Numeral (text ++ frac) (if text.head? = some 45 then v * 10 ^ frac.length - decimalValue frac
      else v * 10 ^ frac.length + decimalValue frac) := by
  have hall : ∀ {digits : Bytes}, (∀ c ∈ digits, IsDigit c) → ∀ c ∈ digits ++ frac, IsDigit c := by
    intro digits hdigits c hc
    rcases List.mem_append.1 hc with hc | hc
    · exact hdigits c hc
    · exact hfrac c hc
  have hcast : ∀ digits : Bytes, ((decimalValue (digits ++ frac) : Nat) : Int) =
      decimalValue digits * 10 ^ frac.length + decimalValue frac := by
    intro digits
    rw [decimalValue_append]
    push_cast
    rfl
  cases h with
  | plain hne hdigits =>
    obtain ⟨c, digits, rfl⟩ := List.exists_cons_of_ne_nil hne
    have hminus : (c :: digits).head? ≠ some 45 := by
      intro heq
      have hc := hdigits c List.mem_cons_self
      rw [Option.some.inj heq] at hc
      exact absurd hc (by decide)
    rw [if_neg hminus, ← hcast]
    exact Numeral.plain (List.append_ne_nil_of_left_ne_nil hne _) (hall hdigits)
  | plus hne hdigits =>
    rw [if_neg (by simp), ← hcast]
    exact Numeral.plus (List.append_ne_nil_of_left_ne_nil hne _) (hall hdigits)
  | minus hne hdigits =>
    rw [List.head?_cons, if_pos rfl, List.cons_append]
    have hneg := Numeral.minus (List.append_ne_nil_of_left_ne_nil hne frac) (hall hdigits)
    rw [hcast] at hneg
    have hsum : ∀ x p f : Int, -(x * p + f) = -x * p - f := by
      intro x p f
      ring
    rwa [hsum] at hneg

end VizCore.Lib
