import Mathlib.Data.List.DropRight
import VizCore.Lib.Decimal
import VizCore.Protocol.Types

/-!
# Assets as texts

`asset::to_string` and `asset::from_string`.  The conversions of numbers and the trimming of blanks
are functions of `fc`; what is known of them is `FcText.Documented`.

* `fromText_eq_ok`: the texts that are accepted, and what they are read as;
* `fromText_exact`: the amount is the number that is written exactly when it fits in 64 bits and
  no digit behind the dot of a negative number counts.
-/

namespace VizCore.Protocol

open VizCore.Lib

/-! ## The functions of `fc` -/

/-- `fc::trim`, `fc::to_int64` and `fc::to_string`. -/
structure FcText where
  trim : Bytes → Bytes
  toInt64 : Bytes → Result Int
  toString : Int → Bytes

def isBlankByte (c : UInt8) : Bool := c == 32 || (9 ≤ c && c ≤ 13)

/-- The text without the blanks at both ends. -/
def trimBlanks (s : Bytes) : Bytes := (s.dropWhile isBlankByte).rdropWhile isBlankByte

structure FcText.Documented (fc : FcText) : Prop where
  trim : ∀ s, fc.trim s = trimBlanks s
  toInt64 : ∀ s v, fc.toInt64 s = .ok v ↔ Numeral s v ∧ InInt64 v
  toString : ∀ v, InInt64 v → fc.toString v = numeral v

/-! ## The symbol -/

/-- The bytes of a symbol: the decimals, and then the name, which ends at a zero. -/
def symbolBytes (symbol : Nat) : Bytes := leBytes 8 symbol

/-- `asset::decimals` -/
def Asset.decimals (a : Asset) : Result Nat := do
  let result := ((symbolBytes a.symbol).headD 0).toNat
  fcAssert (result < 15) "result < 15"
  return result

/-- `asset::symbol_name` -/
def Asset.symbolName (a : Asset) : Result Bytes := do
  fcAssert ((symbolBytes a.symbol)[7]? = some 0) "a[7] == 0"
  return (symbolBytes a.symbol).tail.takeWhile (· != 0)

/-- `asset::precision` -/
def Asset.precision (a : Asset) : Result Int := do
  let d ← a.decimals
  return 10 ^ d

/-- `asset::set_decimals`, for the first byte of the symbol. -/
def Asset.setDecimals (a : Asset) (d : UInt8) : Result Asset := do
  fcAssert (d < 15) "d < 15"
  return { a with symbol := leNat (d :: (symbolBytes a.symbol).tail) }

/-- `memcpy(sy + 1, symbol.c_str(), symbol_size)` -/
def Asset.copyName (a : Asset) (name : Bytes) : Asset :=
  { a with
    symbol := leNat ((symbolBytes a.symbol).take 1 ++ name ++
      (symbolBytes a.symbol).drop (1 + name.length)) }

/-! ## The texts -/

def space : UInt8 := 32

def point : UInt8 := 46

/-- `asset::to_string` -/
def Asset.toText (fc : FcText) (a : Asset) : Result Bytes := do
  let prec ← a.precision
  let whole := fc.toString (a.amount.tdiv prec)
  let fract := fc.toString (prec + a.amount.tmod prec)
  let result := if 1 < prec then whole ++ point :: fract.drop 1 else whole
  let name ← a.symbolName
  return result ++ space :: name

/-- Arithmetic on the raw 64-bit value. -/
def wrapAmount (x : Int) : Int := Int.bmod x (2 ^ 64)

/-- The amount of a text with a dot, and its decimals. -/
def readPointed (fc : FcText) (intpart fractpart : Bytes) : Result Asset := do
  let fractpart := 49 :: fractpart
  let result ← Asset.setDecimals { amount := 0, symbol := 0 } (UInt8.ofNat (fractpart.length - 1))
  let prec ← result.precision
  let whole ← fc.toInt64 intpart
  let fract ← fc.toInt64 fractpart
  return { result with amount := wrapAmount (wrapAmount (wrapAmount (whole * prec) + fract) - prec) }

/-- The amount of a text without a dot. -/
def readWhole (fc : FcText) (intpart : Bytes) : Result Asset := do
  let whole ← fc.toInt64 intpart
  Asset.setDecimals { amount := whole, symbol := 0 } 0

def readAmount (fc : FcText) (s : Bytes) (spacePos : Nat) : Option Nat → Result Asset
  | some dotPos => do
    fcAssert (dotPos < spacePos) "space_pos > dot_pos"
    readPointed fc (s.take dotPos) ((s.drop (dotPos + 1)).take (spacePos - dotPos - 1))
  | none => readWhole fc (s.take spacePos)

/-- `asset::from_string` -/
def Asset.fromText (fc : FcText) (from' : Bytes) : Result Asset := do
  let s := fc.trim from'
  let spacePos ← getOrThrow (s.findIdx? (· == space)) (.assertion "space_pos != std::string::npos")
  let result ← readAmount fc s spacePos (s.findIdx? (· == point))
  let symbol := s.drop (spacePos + 1)
  if 0 < symbol.length then do
    fcAssert (symbol.length ≤ 6) "symbol_size <= 6"
    return result.copyName symbol
  else return result

/-! ## The texts that are accepted -/

/-- The symbol with so many decimals and this name. -/
def symbolOf (d : Nat) (name : Bytes) : Nat :=
  leNat (UInt8.ofNat d :: (name ++ List.replicate (7 - name.length) 0))

/-- A number, with a dot in it or none, a blank and a name. -/
inductive Shape : Bytes → Bytes → Option Bytes → Bytes → Prop
  | whole {int name : Bytes} (hspace : space ∉ int) (hpoint : point ∉ int ++ space :: name) :
    Shape (int ++ space :: name) int none name
  | pointed {int frac name : Bytes} (hint : space ∉ int) (hpoint : point ∉ int)
    (hfrac : space ∉ frac) :
    Shape (int ++ point :: (frac ++ space :: name)) int (some frac) name

/-- The digits behind the dot. -/
def fracDigits (frac : Option Bytes) : Bytes := frac.getD []

/-- The parts of a text that is read, with the number before the dot. -/
structure Accepted (int : Bytes) (frac : Option Bytes) (name : Bytes) (n : Int) : Prop where
  numeral : Numeral int n
  fits : InInt64 n
  digits : ∀ c ∈ fracDigits frac, IsDigit c
  decimals : (fracDigits frac).length ≤ 14
  name : name.length ≤ 6

/-- What the parts are read as. -/
def readAs (n : Int) (frac : Option Bytes) (name : Bytes) : Asset :=
  { amount := wrapAmount (n * 10 ^ (fracDigits frac).length + decimalValue (fracDigits frac))
    symbol := symbolOf (fracDigits frac).length name }

theorem Shape.unique {s int int' name name' : Bytes} {frac frac' : Option Bytes}
    (h : Shape s int frac name) (h' : Shape s int' frac' name') :
    int = int' ∧ frac = frac' ∧ name = name' := by
  cases h with
  | whole hspace hpoint =>
    generalize hs : int ++ space :: name = s at *
    cases h' with
    | whole hspace' hpoint' =>
      obtain ⟨rfl, rfl⟩ := split_unique hspace hspace' hs
      exact ⟨rfl, rfl, rfl⟩
    | pointed hint' hpoint' hfrac' =>
      exact absurd (List.mem_append_right _ List.mem_cons_self) hpoint
  | @pointed _ frac _ hint hpoint hfrac =>
    generalize hs : int ++ point :: (frac ++ space :: name) = s at *
    cases h' with
    | whole hspace' hpoint' =>
      rw [← hs] at hpoint'
      exact absurd (List.mem_append_right _ List.mem_cons_self) hpoint'
    | pointed hint' hpoint' hfrac' =>
      obtain ⟨rfl, hrest⟩ := split_unique hpoint hpoint' hs
      obtain ⟨rfl, rfl⟩ := split_unique hfrac hfrac' hrest
      exact ⟨rfl, rfl, rfl⟩

theorem wrapAmount_of_fits {x : Int} (h : InInt64 x) : wrapAmount x = x := by
  unfold InInt64 at h
  unfold wrapAmount
  exact Int.bmod_eq_of_le_mul_two (by omega) (by omega)

theorem wrapAmount_fits (x : Int) : InInt64 (wrapAmount x) := by
  have hle := Int.le_bmod (x := x) (m := 2 ^ 64) (by decide)
  have hlt := Int.bmod_lt (x := x) (m := 2 ^ 64) (by decide)
  unfold InInt64 wrapAmount
  omega

theorem wrapAmount_wrap (x y z : Int) :
    wrapAmount (wrapAmount (wrapAmount x + y) - z) = wrapAmount (x + y - z) := by
  unfold wrapAmount
  rw [Int.bmod_sub_bmod, ← Int.bmod_sub_bmod, Int.bmod_add_bmod, Int.bmod_sub_bmod]

section Read

variable {fc : FcText}

theorem symbolBytes_leNat {bs : Bytes} (h : bs.length = 8) : symbolBytes (leNat bs) = bs := by
  unfold symbolBytes
  rw [← h, leBytes_leNat]

theorem setDecimals_eq_ok {d : UInt8} {r : Asset} (amount : Int) :
    Asset.setDecimals { amount := amount, symbol := 0 } d = .ok r ↔
      d < 15 ∧ r = { amount := amount, symbol := symbolOf d.toNat [] } := by
  have htail : (symbolBytes 0).tail = List.replicate 7 0 := by
    unfold symbolBytes
    rw [leBytes_zero]
    rfl
  unfold Asset.setDecimals symbolOf
  simp only
  rw [fcAssert_bind_eq_ok, pure_eq_ok, UInt8.ofNat_toNat, htail, List.nil_append, List.length_nil,
    Nat.sub_zero, eq_comm (b := r)]

theorem decimals_symbolOf {amount : Int} {d : Nat} (h : d < 15) (name : Bytes)
    (hname : name.length ≤ 6) :
    Asset.decimals { amount := amount, symbol := symbolOf d name } = .ok d := by
  have hbytes : symbolBytes (symbolOf d name) =
      UInt8.ofNat d :: (name ++ List.replicate (7 - name.length) 0) := by
    apply symbolBytes_leNat
    rw [List.length_cons, List.length_append, List.length_replicate]
    omega
  have hd : (UInt8.ofNat d).toNat = d := by
    rw [UInt8.toNat_ofNat']
    exact Nat.mod_eq_of_lt (by omega)
  unfold Asset.decimals
  simp only
  rw [hbytes, List.headD_cons, hd, fcAssert_bind_eq_ok]
  exact ⟨h, rfl⟩

theorem copyName_symbolOf (amount : Int) {d : Nat} {name : Bytes} (hname : name.length ≤ 6) :
    Asset.copyName { amount := amount, symbol := symbolOf d [] } name =
      { amount := amount, symbol := symbolOf d name } := by
  have hbytes : symbolBytes (symbolOf d []) = UInt8.ofNat d :: List.replicate 7 0 :=
    symbolBytes_leNat rfl
  unfold Asset.copyName symbolOf
  rw [← symbolOf, hbytes]
  simp only [List.take_succ_cons, List.take_zero, Nat.add_comm 1, List.drop_succ_cons,
    List.drop_replicate, List.cons_append, List.nil_append]

/-- The digits behind the dot are read with a one in front. -/
theorem one_frac {fc : FcText} (hfc : fc.Documented) {frac : Bytes} {f : Int} :
    fc.toInt64 (49 :: frac) = .ok f ↔ (∀ c ∈ frac, IsDigit c) ∧ InInt64 f ∧
      f = 10 ^ frac.length + decimalValue frac := by
  have hvalue : (decimalValue (49 :: frac) : Int) = 10 ^ frac.length + decimalValue frac := by
    have happend := decimalValue_append [49] frac
    rw [List.singleton_append] at happend
    rw [happend, decimalValue_singleton]
    push_cast
    ring
  rw [hfc.toInt64]
  constructor
  · rintro ⟨hnumeral, hfits⟩
    cases hnumeral with
    | plain hne hdigits =>
      exact ⟨fun c hc => hdigits c (List.mem_cons_of_mem _ hc), hfits, hvalue⟩
  · rintro ⟨hdigits, hfits, rfl⟩
    refine ⟨?_, hfits⟩
    rw [← hvalue]
    apply Numeral.plain (List.cons_ne_nil _ _)
    intro c hc
    rcases List.mem_cons.1 hc with rfl | hc
    · decide
    · exact hdigits c hc

/-- A number with a dot. -/
theorem readPointed_eq_ok (hfc : fc.Documented) {int frac : Bytes} {r : Asset} :
    readPointed fc int frac = .ok r ↔
      ∃ n, Accepted int (some frac) [] n ∧ r = readAs n (some frac) [] := by
  have hcast (k : Nat) : (UInt8.ofNat k).toNat = k % 256 := UInt8.toNat_ofNat'
  unfold readPointed
  simp only [bind_eq_ok, setDecimals_eq_ok, pure_eq_ok, List.length_cons, Nat.add_sub_cancel]
  constructor
  · rintro ⟨_, ⟨hd, rfl⟩, prec, hprec, n, hn, f, hf, rfl⟩
    obtain ⟨hnumeral, hfits⟩ := (hfc.toInt64 int n).1 hn
    obtain ⟨hdigits, hfrac, rfl⟩ := (one_frac hfc).1 hf
    -- more digits than fit make the second number overflow
    have hshort : frac.length < 19 := by
      by_contra hlong
      have hpow : (10 : Int) ^ 19 ≤ 10 ^ frac.length :=
        pow_le_pow_right₀ (by norm_num) (Nat.le_of_not_lt hlong)
      unfold InInt64 at hfrac
      omega
    have hlength : (UInt8.ofNat frac.length).toNat = frac.length := by
      rw [hcast]
      exact Nat.mod_eq_of_lt (by omega)
    have hlt : frac.length < 15 := by
      rw [UInt8.lt_iff_toNat_lt, hlength] at hd
      exact hd
    rw [hlength] at hprec ⊢
    unfold Asset.precision at hprec
    rw [decimals_symbolOf hlt [] (by simp)] at hprec
    obtain rfl := (pure_eq_ok _ _).1 hprec
    refine ⟨n, ⟨hnumeral, hfits, hdigits, Nat.le_of_lt_succ hlt, Nat.zero_le _⟩, ?_⟩
    unfold readAs fracDigits
    rw [Option.getD_some, wrapAmount_wrap]
    congr 2
    ring
  · rintro ⟨n, hn, rfl⟩
    have hdecimals : frac.length ≤ 14 := hn.decimals
    have hdigits : ∀ c ∈ frac, IsDigit c := hn.digits
    have hlength : (UInt8.ofNat frac.length).toNat = frac.length := by
      rw [hcast]
      exact Nat.mod_eq_of_lt (by omega)
    have hd : UInt8.ofNat frac.length < 15 := by
      rw [UInt8.lt_iff_toNat_lt, hlength]
      exact Nat.lt_succ_of_le hdecimals
    have hfrac : fc.toInt64 (49 :: frac) = .ok (10 ^ frac.length + decimalValue frac) := by
      have hvalue := decimalValue_lt hdigits
      have hpow : (10 : Int) ^ frac.length ≤ 10 ^ 14 := pow_le_pow_right₀ (by norm_num) hdecimals
      have hpos : (0 : Int) < 10 ^ frac.length := by positivity
      have hcastlt : (decimalValue frac : Int) < 10 ^ frac.length := by exact_mod_cast hvalue
      rw [one_frac hfc]
      refine ⟨hdigits, ?_, rfl⟩
      unfold InInt64
      omega
    refine ⟨_, ⟨hd, rfl⟩, 10 ^ frac.length, ?_, n, (hfc.toInt64 int n).2 ⟨hn.numeral, hn.fits⟩, _,
      hfrac, ?_⟩
    · unfold Asset.precision
      rw [hlength, decimals_symbolOf (by omega) [] (by simp)]
      rfl
    · unfold readAs fracDigits
      rw [Option.getD_some, wrapAmount_wrap, hlength]
      congr 2
      ring

/-- A number without a dot. -/
theorem readWhole_eq_ok (hfc : fc.Documented) {int : Bytes} {r : Asset} :
    readWhole fc int = .ok r ↔ ∃ n, Accepted int none [] n ∧ r = readAs n none [] := by
  have hread : ∀ n, InInt64 n → readAs n none [] = { amount := n, symbol := symbolOf 0 [] } := by
    intro n hn
    unfold readAs fracDigits
    rw [Option.getD_none, List.length_nil, pow_zero, mul_one]
    show ({ amount := wrapAmount (n + 0), symbol := _ } : Asset) = _
    rw [add_zero, wrapAmount_of_fits hn]
  unfold readWhole
  simp only [bind_eq_ok, setDecimals_eq_ok, hfc.toInt64]
  constructor
  · rintro ⟨n, ⟨hnumeral, hfits⟩, -, rfl⟩
    refine ⟨n, ⟨hnumeral, hfits, ?_, Nat.zero_le _, Nat.zero_le _⟩, (hread n hfits).symm⟩
    intro c hc
    cases hc
  · rintro ⟨n, hn, rfl⟩
    exact ⟨n, ⟨hn.numeral, hn.fits⟩, by decide, hread n hn.fits⟩

def readParts (fc : FcText) (int : Bytes) : Option Bytes → Result Asset
  | some frac => readPointed fc int frac
  | none => readWhole fc int

theorem readParts_eq_ok (hfc : fc.Documented) {int : Bytes} {frac : Option Bytes} {r : Asset} :
    readParts fc int frac = .ok r ↔ ∃ n, Accepted int frac [] n ∧ r = readAs n frac [] := by
  cases frac with
  | none => exact readWhole_eq_ok hfc
  | some frac => exact readPointed_eq_ok hfc

/-- The positions that are found split the text into its parts. -/
theorem Shape.positions {t int name : Bytes} {frac : Option Bytes} (h : Shape t int frac name) :
    ∃ spacePos, t.findIdx? (· == space) = some spacePos ∧ t.drop (spacePos + 1) = name ∧
      readAmount fc t spacePos (t.findIdx? (· == point)) = readParts fc int frac := by
  have hdrop : ∀ (l r : Bytes) (c : UInt8), (l ++ c :: r).drop (l.length + 1) = r := by
    intro l r c
    have hlength : l.length + 1 = (l ++ [c]).length := by
      rw [List.length_append, List.length_singleton]
    rw [List.append_cons, hlength, List.drop_left]
  cases h with
  | whole hspace hpoint =>
    refine ⟨int.length, findIdx?_split name hspace, hdrop _ _ _, ?_⟩
    rw [findIdx?_none.2 hpoint]
    unfold readAmount
    rw [List.take_left]
    rfl
  | @pointed _ frac _ hint hpoint hfrac =>
    have hno : space ∉ int ++ point :: frac := by
      intro hmem
      rcases List.mem_append.1 hmem with hmem | hmem
      · exact hint hmem
      · rcases List.mem_cons.1 hmem with heq | hmem
        · exact absurd heq (by decide)
        · exact hfrac hmem
    have htext : int ++ point :: (frac ++ space :: name) = (int ++ point :: frac) ++ space :: name := by
      rw [List.append_assoc, List.cons_append]
    have hlength : (int ++ point :: frac).length - int.length - 1 = frac.length := by
      rw [List.length_append, List.length_cons]
      omega
    refine ⟨(int ++ point :: frac).length, ?_, ?_, ?_⟩
    · rw [htext]
      exact findIdx?_split name hno
    · rw [htext]
      exact hdrop _ _ _
    · rw [findIdx?_split _ hpoint]
      unfold readAmount
      simp only
      rw [hdrop, List.take_left, hlength, List.take_left]
      have hlt : int.length < (int ++ point :: frac).length := by
        rw [List.length_append, List.length_cons]
        omega
      unfold fcAssert require
      rw [if_pos hlt]
      rfl

/-- A text with a blank has this shape, unless its first dot is behind the blank. -/
theorem shape_of_read {t : Bytes} {spacePos : Nat} {r : Asset}
    (hfind : t.findIdx? (· == space) = some spacePos)
    (hread : readAmount fc t spacePos (t.findIdx? (· == point)) = .ok r) :
    ∃ int frac, Shape t int frac (t.drop (spacePos + 1)) := by
  obtain ⟨hsplit, hspace, hlength⟩ := split_of_findIdx? hfind
  generalize t.take spacePos = l at *
  generalize t.drop (spacePos + 1) = name at *
  subst hsplit
  cases hpoint : (l ++ space :: name).findIdx? (· == point) with
  | none =>
    rw [findIdx?_none] at hpoint
    exact ⟨l, none, Shape.whole hspace hpoint⟩
  | some dotPos =>
    rw [hpoint] at hread
    unfold readAmount at hread
    rw [fcAssert_bind_eq_ok] at hread
    have hmem : point ∈ l := by
      by_contra hno
      obtain ⟨hrest, hfirst, hdot⟩ := split_of_findIdx? hpoint
      have hget : (l ++ space :: name)[dotPos]? = some point := by
        rw [hrest, List.getElem?_append_right (by rw [hdot]), hdot, Nat.sub_self]
        rfl
      rw [List.getElem?_append_left (by omega)] at hget
      exact hno (List.mem_of_getElem? hget)
    obtain ⟨int, frac, rfl, hint⟩ := List.eq_append_cons_of_mem hmem
    refine ⟨int, some frac, ?_⟩
    rw [List.append_assoc, List.cons_append]
    exact Shape.pointed (fun h => hspace (List.mem_append_left _ h)) hint
      fun h => hspace (List.mem_append_right _ (List.mem_cons_of_mem _ h))

/-- **The texts that are accepted**, and what they are read as. -/
theorem fromText_eq_ok (hfc : fc.Documented) {s : Bytes} {a : Asset} :
    Asset.fromText fc s = .ok a ↔ ∃ int frac name n, Shape (trimBlanks s) int frac name ∧
      Accepted int frac name n ∧ a = readAs n frac name := by
  have hname : ∀ {n : Int} {int name : Bytes} {frac : Option Bytes}, Accepted int frac [] n →
      name.length ≤ 6 → (readAs n frac []).copyName name = readAs n frac name := by
    intro n int name frac hn hlength
    exact copyName_symbolOf _ hlength
  unfold Asset.fromText
  simp only [hfc.trim, bind_eq_ok, getOrThrow_eq_ok]
  constructor
  · rintro ⟨spacePos, hfind, r, hread, h⟩
    obtain ⟨int, frac, hshape⟩ := shape_of_read hfind hread
    obtain ⟨spacePos', hfind', hdrop, hparts⟩ := @Shape.positions fc _ _ _ _ hshape
    rw [hfind] at hfind'
    obtain rfl := Option.some.inj hfind'
    rw [hparts, readParts_eq_ok hfc] at hread
    obtain ⟨n, hn, rfl⟩ := hread
    generalize (trimBlanks s).drop (spacePos + 1) = name at *
    split at h
    · rw [fcAssert_bind_eq_ok, pure_eq_ok] at h
      obtain ⟨hsix, rfl⟩ := h
      exact ⟨int, frac, name, n, hshape, { hn with name := hsix }, hname hn hsix⟩
    · rename_i hempty
      obtain rfl := List.length_eq_zero_iff.1 (Nat.eq_zero_of_not_pos hempty)
      rw [pure_eq_ok] at h
      exact ⟨int, frac, [], n, hshape, hn, h.symm⟩
  · rintro ⟨int, frac, name, n, hshape, hn, rfl⟩
    obtain ⟨spacePos, hfind, hdrop, hparts⟩ := @Shape.positions fc _ _ _ _ hshape
    have hn' : Accepted int frac [] n := { hn with name := Nat.zero_le _ }
    refine ⟨spacePos, hfind, readAs n frac [], ?_, ?_⟩
    · rw [hparts, readParts_eq_ok hfc]
      exact ⟨n, hn', rfl⟩
    · rw [hdrop]
      split
      · rw [fcAssert_bind_eq_ok, pure_eq_ok]
        exact ⟨hn.name, hname hn' hn.name⟩
      · rename_i hempty
        obtain rfl := List.length_eq_zero_iff.1 (Nat.eq_zero_of_not_pos hempty)
        rfl

end Read

/-! ## What is read -/

/-- The asset has the number that is written, with as many decimals as there are digits behind the
dot. -/
def Exact (t : Bytes) (a : Asset) : Prop :=
  ∃ int frac name, Shape t int frac name ∧ Numeral (int ++ fracDigits frac) a.amount ∧
    a.decimals = .ok (fracDigits frac).length

/-- The number that is written fits in 64 bits, and a negative one has no digits behind the dot
other than zeros. -/
def Representable (t : Bytes) : Prop :=
  ∀ int frac name n v, Shape t int frac name → Accepted int frac name n →
    Numeral (int ++ fracDigits frac) v →
      InInt64 v ∧ (int.head? = some 45 → decimalValue (fracDigits frac) = 0)

theorem fracDigits_lt {int name : Bytes} {frac : Option Bytes} {n : Int}
    (h : Accepted int frac name n) :
    (decimalValue (fracDigits frac) : Int) < 10 ^ (fracDigits frac).length ∧
      (10 : Int) ^ (fracDigits frac).length ≤ 10 ^ 14 := by
  have hvalue := decimalValue_lt h.digits
  constructor
  · exact_mod_cast hvalue
  · exact pow_le_pow_right₀ (by norm_num) h.decimals

/-- **The amount is the number that is written** exactly for the representable texts. -/
theorem fromText_exact {fc : FcText} (hfc : fc.Documented) (s : Bytes) :
    (∀ a, Asset.fromText fc s = .ok a → Exact (trimBlanks s) a) ↔
      Representable (trimBlanks s) := by
  constructor
  · intro h int frac name n v hshape hn hv
    have hexact := h _ ((fromText_eq_ok hfc).2 ⟨int, frac, name, n, hshape, hn, rfl⟩)
    obtain ⟨int', frac', name', hshape', hamount, -⟩ := hexact
    obtain ⟨rfl, rfl, rfl⟩ := hshape.unique hshape'
    have hsame : wrapAmount (n * 10 ^ (fracDigits frac).length + decimalValue (fracDigits frac)) =
        v := hamount.unique hv
    have hfits : InInt64 v := hsame ▸ wrapAmount_fits _
    refine ⟨hfits, ?_⟩
    intro hminus
    have hvalue := (hn.numeral.append hn.digits).unique hv
    rw [if_pos hminus] at hvalue
    obtain ⟨hlt, hpow⟩ := fracDigits_lt hn
    generalize n * 10 ^ (fracDigits frac).length = x at *
    -- the sum and the difference are the same modulo 2^64
    have hmod : (x + decimalValue (fracDigits frac)) % 2 ^ 64 = v % 2 ^ 64 := by
      rw [← hsame]
      have hwrap : wrapAmount (x + decimalValue (fracDigits frac)) % ((2 ^ 64 : Nat) : Int) =
          (x + decimalValue (fracDigits frac)) % ((2 ^ 64 : Nat) : Int) := Int.bmod_emod
      exact hwrap.symm
    omega
  · intro h a ha
    obtain ⟨int, frac, name, n, hshape, hn, rfl⟩ := (fromText_eq_ok hfc).1 ha
    have hv := hn.numeral.append hn.digits
    obtain ⟨hfits, hminus⟩ := h int frac name n _ hshape hn hv
    refine ⟨int, frac, name, hshape, ?_, decimals_symbolOf (Nat.lt_succ_of_le hn.decimals) name hn.name⟩
    show Numeral _ (wrapAmount _)
    by_cases hsign : int.head? = some 45
    · have hzero := hminus hsign
      rw [if_pos hsign, hzero] at hv hfits
      rw [hzero]
      have hsum : ∀ x : Int, x + ((0 : Nat) : Int) = x - ((0 : Nat) : Int) := by
        intro x
        omega
      rw [hsum, wrapAmount_of_fits hfits]
      exact hv
    · rw [if_neg hsign] at hv hfits
      rw [wrapAmount_of_fits hfits]
      exact hv

/-! ## Functions that behave as documented -/

def readDigits (digits : Bytes) : Option Nat :=
  if digits ≠ [] ∧ ∀ c ∈ digits, IsDigit c then some (decimalValue digits) else none

def readNumeral : Bytes → Option Int
  | [] => none
  | c :: rest =>
    if c = 45 then (readDigits rest).map fun n : Nat => -(n : Int)
    else if c = 43 then (readDigits rest).map fun n : Nat => (n : Int)
    else (readDigits (c :: rest)).map fun n : Nat => (n : Int)

def plainFc : FcText where
  trim := trimBlanks
  toInt64 s := do
    let v ← getOrThrow (readNumeral s) (.assertion "bad cast")
    if InInt64 v then .ok v else .error (.assertion "bad cast")
  toString := numeral

theorem readNumeral_eq_some {s : Bytes} {v : Int} : readNumeral s = some v ↔ Numeral s v := by
  have hdigits : ∀ {digits : Bytes} {f : Nat → Int} {v : Int},
      (readDigits digits).map f = some v ↔
        digits ≠ [] ∧ (∀ c ∈ digits, IsDigit c) ∧ f (decimalValue digits) = v := by
    intro digits f v
    unfold readDigits
    by_cases h : digits ≠ [] ∧ ∀ c ∈ digits, IsDigit c
    · rw [if_pos h, Option.map_some, Option.some_inj]
      exact ⟨fun heq => ⟨h.1, h.2, heq⟩, fun heq => heq.2.2⟩
    · rw [if_neg h, Option.map_none]
      exact ⟨fun heq => (by cases heq), fun heq => absurd ⟨heq.1, heq.2.1⟩ h⟩
  cases s with
  | nil =>
    constructor
    · intro h
      cases h
    · intro h
      cases h with
      | plain hne _ => exact absurd rfl hne
  | cons c rest =>
    rw [readNumeral]
    split
    · rename_i hminus
      subst hminus
      rw [hdigits]
      constructor
      · rintro ⟨hne, hall, rfl⟩
        exact Numeral.minus hne hall
      · intro h
        cases h with
        | plain hne hall => exact absurd (hall 45 List.mem_cons_self) (by decide)
        | minus hne hall => exact ⟨hne, hall, rfl⟩
    · split
      · rename_i hminus hplus
        subst hplus
        rw [hdigits]
        constructor
        · rintro ⟨hne, hall, rfl⟩
          exact Numeral.plus hne hall
        · intro h
          cases h with
          | plain hne hall => exact absurd (hall 43 List.mem_cons_self) (by decide)
          | plus hne hall => exact ⟨hne, hall, rfl⟩
      · rename_i hminus hplus
        rw [hdigits]
        constructor
        · rintro ⟨hne, hall, rfl⟩
          exact Numeral.plain hne hall
        · intro h
          cases h with
          | plain hne hall => exact ⟨hne, hall, rfl⟩
          | plus hne hall => exact absurd rfl hplus
          | minus hne hall => exact absurd rfl hminus

theorem plainFc_documented : plainFc.Documented where
  trim s := rfl
  toString v _ := rfl
  toInt64 s v := by
    show (getOrThrow (readNumeral s) _ >>= _) = .ok v ↔ _
    rw [bind_eq_ok, ← readNumeral_eq_some]
    constructor
    · rintro ⟨w, hw, h⟩
      rw [getOrThrow_eq_ok] at hw
      split at h
      · rename_i hfits
        cases h
        exact ⟨hw, hfits⟩
      · cases h
    · rintro ⟨hv, hfits⟩
      refine ⟨v, (getOrThrow_eq_ok _ _ _).2 hv, ?_⟩
      rw [if_pos hfits]

/-- `1.5 VIZ` -/
theorem fromText_exact_onePointFive :
    Exact [49, 46, 53, 32, 86, 73, 90] (readAs 1 (some [53]) [86, 73, 90]) := by
  have hshape : Shape (trimBlanks [49, 46, 53, 32, 86, 73, 90]) [49] (some [53]) [86, 73, 90] :=
    @Shape.pointed [49] [53] [86, 73, 90] (by decide) (by decide) (by decide)
  have hone : Numeral [49] 1 :=
    Numeral.plain (List.cons_ne_nil _ _) (isDigit_of_all (by decide))
  have hdigits : ∀ c ∈ fracDigits (some [53]), IsDigit c := by
    unfold fracDigits
    exact isDigit_of_all (by decide)
  have hfifteen : Numeral ([49] ++ [53]) 15 :=
    Numeral.plain (List.cons_ne_nil _ _) (isDigit_of_all (by decide))
  have hrepresentable : Representable (trimBlanks [49, 46, 53, 32, 86, 73, 90]) := by
    intro int frac name n v hshape' _ hv
    obtain ⟨rfl, rfl, rfl⟩ := hshape'.unique hshape
    rw [hv.unique hfifteen]
    exact ⟨by decide, fun h => absurd h (by decide)⟩
  exact (fromText_exact plainFc_documented [49, 46, 53, 32, 86, 73, 90]).2 hrepresentable _
    ((fromText_eq_ok plainFc_documented).2 ⟨_, _, _, 1, hshape,
      ⟨hone, by decide, hdigits, by decide, by decide⟩, rfl⟩)

/-- **The sign of `-0.5 VIZ` is lost.** -/
theorem minusHalf_signLost :
    Asset.fromText plainFc [45, 48, 46, 53, 32, 86, 73, 90] = .ok ⟨5, symbolOf 1 [86, 73, 90]⟩ ∧
    ¬ Exact (trimBlanks [45, 48, 46, 53, 32, 86, 73, 90]) ⟨5, symbolOf 1 [86, 73, 90]⟩ := by
  have hshape : Shape (trimBlanks [45, 48, 46, 53, 32, 86, 73, 90]) [45, 48] (some [53])
      [86, 73, 90] :=
    @Shape.pointed [45, 48] [53] [86, 73, 90] (by decide) (by decide) (by decide)
  have hzero : Numeral [45, 48] 0 :=
    Numeral.minus (List.cons_ne_nil _ _) (isDigit_of_all (by decide))
  have hdigits : ∀ c ∈ fracDigits (some [53]), IsDigit c := by
    unfold fracDigits
    exact isDigit_of_all (by decide)
  have hfive : Numeral ([45, 48] ++ [53]) (-5) :=
    Numeral.minus (List.cons_ne_nil _ _) (isDigit_of_all (by decide))
  constructor
  · rw [fromText_eq_ok plainFc_documented]
    exact ⟨_, _, _, 0, hshape, ⟨hzero, by decide, hdigits, by decide, by decide⟩, by decide⟩
  · rintro ⟨int, frac, name, hshape', hamount, -⟩
    obtain ⟨rfl, rfl, rfl⟩ := hshape'.unique hshape
    exact absurd (hamount.unique hfive) (by decide)

end VizCore.Protocol
