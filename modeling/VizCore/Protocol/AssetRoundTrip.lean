import VizCore.Protocol.AssetText

/-!
# Writing an asset and reading it back

The whole part of an amount and what is behind the dot are written separately, the latter with a
one in front so that its leading zeros stay.  The remainder of a negative amount is negative and
takes the one away.

* `roundTrip_iff`: the assets that are read back as they were.
-/

namespace VizCore.Protocol

open VizCore.Lib

/-- A name of at most six characters and at most 14 decimals. -/
structure SymbolParts (d : Nat) (name : Bytes) : Prop where
  decimals : d ≤ 14
  short : name.length ≤ 6
  text : (0 : UInt8) ∉ name

/-- The amount is not negative or whole, the name is one that the text keeps, and without a dot in
the amount there is none in the name. -/
structure Printable (x : Int) (d : Nat) (name : Bytes) : Prop where
  sign : 0 ≤ x ∨ (10 ^ d : Int) ∣ x
  named : ∃ c, name.getLast? = some c ∧ isBlankByte c = false
  pointless : d = 0 → point ∉ name

/-! ## The text of an asset -/

/-- The digits behind the dot, as they are written. -/
def writtenFrac (x : Int) (d : Nat) : Bytes := (numeral (10 ^ d + x.tmod (10 ^ d))).drop 1

/-- The amount as it is written. -/
def writtenAmount (x : Int) (d : Nat) : Bytes :=
  if 0 < d then numeral (x.tdiv (10 ^ d)) ++ point :: writtenFrac x d else numeral x

section Text

variable {d : Nat} {name : Bytes} {x : Int}

theorem symbolBytes_symbolOf (h : name.length ≤ 6) :
    symbolBytes (symbolOf d name) =
      UInt8.ofNat d :: (name ++ List.replicate (7 - name.length) 0) := by
  apply symbolBytes_leNat
  rw [List.length_cons, List.length_append, List.length_replicate]
  omega

theorem symbolName_symbolOf (h : SymbolParts d name) :
    Asset.symbolName { amount := x, symbol := symbolOf d name } = .ok name := by
  have hzeros : List.replicate (7 - name.length) (0 : UInt8) =
      0 :: List.replicate (6 - name.length) 0 := by
    have hshort := h.short
    rw [← List.replicate_succ]
    congr 1
    omega
  have hname : ∀ c ∈ name, (c != 0) = true := by
    intro c hc
    rw [bne_iff_ne]
    rintro rfl
    exact h.text hc
  have hend : (UInt8.ofNat d :: (name ++ List.replicate (7 - name.length) 0))[7]? = some 0 := by
    have hshort := h.short
    rw [List.getElem?_cons_succ, List.getElem?_append_right (by omega),
      List.getElem?_replicate_of_lt (by omega)]
  unfold Asset.symbolName
  simp only
  rw [symbolBytes_symbolOf h.short, fcAssert_bind_eq_ok, pure_eq_ok, List.tail_cons, hzeros,
    List.takeWhile_append_of_pos hname, List.takeWhile_cons_of_neg (by simp), List.append_nil,
    ← hzeros]
  exact ⟨hend, rfl⟩

/-- The symbol tells its decimals and its name. -/
theorem symbolOf_inj {d' : Nat} {name' : Bytes} (h : SymbolParts d name)
    (h' : SymbolParts d' name') (heq : symbolOf d name = symbolOf d' name') :
    d = d' ∧ name = name' := by
  have hd : Asset.decimals { amount := 0, symbol := symbolOf d name } = .ok d :=
    decimals_symbolOf (Nat.lt_succ_of_le h.decimals) name h.short
  have hd' : Asset.decimals { amount := 0, symbol := symbolOf d' name' } = .ok d' :=
    decimals_symbolOf (Nat.lt_succ_of_le h'.decimals) name' h'.short
  have hname := symbolName_symbolOf (x := 0) h
  have hname' := symbolName_symbolOf (x := 0) h'
  rw [heq] at hd hname
  rw [hd] at hd'
  rw [hname] at hname'
  exact ⟨Except.ok.inj hd', Except.ok.inj hname'⟩

theorem remainder_bounds (x : Int) (d : Nat) :
    -(10 ^ d : Int) < x.tmod (10 ^ d) ∧ x.tmod (10 ^ d) < 10 ^ d := by
  have hpos : (0 : Int) < 10 ^ d := by positivity
  exact ⟨Int.lt_tmod_of_pos x hpos, Int.tmod_lt_of_pos x hpos⟩

theorem pow_le_of_decimals (h : d ≤ 14) : (10 ^ d : Int) ≤ 10 ^ 14 :=
  pow_le_pow_right₀ (by norm_num) h

theorem quotient_fits (hx : InInt64 x) : InInt64 (x.tdiv (10 ^ d)) := by
  have habs := Int.natAbs_tdiv_le_natAbs x (10 ^ d)
  unfold InInt64 at hx ⊢
  by_cases hneg : 0 ≤ x
  · have hq := Int.tdiv_nonneg hneg (show (0 : Int) ≤ 10 ^ d by positivity)
    omega
  · have hq := Int.tdiv_nonneg (show 0 ≤ -x by omega) (show (0 : Int) ≤ 10 ^ d by positivity)
    rw [Int.neg_tdiv] at hq
    omega

/-- **The text** of an asset. -/
theorem toText_eq {fc : FcText} (hfc : fc.Documented) (h : SymbolParts d name) (hx : InInt64 x) :
    Asset.toText fc { amount := x, symbol := symbolOf d name } =
      .ok (writtenAmount x d ++ space :: name) := by
  have hd : Asset.decimals { amount := x, symbol := symbolOf d name } = .ok d :=
    decimals_symbolOf (Nat.lt_succ_of_le h.decimals) name h.short
  have hone : (1 : Int) < 10 ^ d ↔ 0 < d := by
    constructor
    · intro hlt
      rcases Nat.eq_zero_or_pos d with rfl | hpos
      · exact absurd hlt (by decide)
      · exact hpos
    · intro hpos
      exact one_lt_pow₀ (by norm_num) hpos.ne'
  have hsum : InInt64 (10 ^ d + x.tmod (10 ^ d)) := by
    have hbounds := remainder_bounds x d
    have hpow := pow_le_of_decimals h.decimals
    unfold InInt64
    omega
  unfold Asset.toText Asset.precision
  simp only [hd, bind_eq_ok, pure_eq_ok, Except.ok.injEq]
  refine ⟨10 ^ d, ⟨d, rfl, rfl⟩, name, symbolName_symbolOf h, ?_⟩
  rw [hfc.toString _ (quotient_fits hx), hfc.toString _ hsum]
  unfold writtenAmount writtenFrac
  by_cases hpos : 0 < d
  · rw [if_pos (hone.2 hpos), if_pos hpos]
  · obtain rfl : d = 0 := by omega
    rw [if_neg (by decide), if_neg hpos, pow_zero, Int.tdiv_one]

/-! ## The parts of the text -/

theorem numeral_byte (v : Int) : ∀ c ∈ numeral v, c ≠ space ∧ c ≠ point ∧ isBlankByte c = false := by
  intro c hc
  rcases (numeral_spec v).bytes c hc with rfl | rfl | hdigit
  · decide
  · decide
  · refine ⟨?_, ?_, ?_⟩
    · rintro rfl
      exact absurd hdigit (by decide)
    · rintro rfl
      exact absurd hdigit (by decide)
    · unfold IsDigit at hdigit
      unfold isBlankByte
      rw [Bool.or_eq_false_iff, beq_eq_false_iff_ne, Bool.and_eq_false_iff,
        decide_eq_false_iff_not, decide_eq_false_iff_not, UInt8.le_iff_toNat_le,
        UInt8.le_iff_toNat_le]
      constructor
      · rintro rfl
        exact absurd hdigit.1 (by decide)
      · right
        show ¬ c.toNat ≤ 13
        omega

theorem numeral_ne_nil (v : Int) : numeral v ≠ [] := by
  unfold numeral
  split
  · exact List.cons_ne_nil _ _
  · exact decimalDigits_ne_nil _

/-- What is written behind the dot: all decimals, or fewer where the remainder is negative. -/
theorem writtenFrac_spec (x : Int) (hd : 0 < d) :
    (∀ c ∈ writtenFrac x d, IsDigit c) ∧
    (0 ≤ x.tmod (10 ^ d) → (writtenFrac x d).length = d ∧
      (decimalValue (writtenFrac x d) : Int) = x.tmod (10 ^ d)) ∧
    (x.tmod (10 ^ d) < 0 → (writtenFrac x d).length < d) := by
  obtain ⟨hlow, hhigh⟩ := remainder_bounds x d
  unfold writtenFrac numeral
  generalize x.tmod (10 ^ d) = r at *
  rw [if_neg (by omega)]
  refine ⟨?_, ?_, ?_⟩
  · intro c hc
    exact decimalDigits_digit _ c (List.mem_of_mem_drop hc)
  · intro hr
    obtain ⟨f, rfl⟩ := Int.eq_ofNat_of_zero_le hr
    have hf : f < 10 ^ d := by exact_mod_cast hhigh
    have habs : ((10 ^ d + (f : Int)) : Int).natAbs = 10 ^ d + f := by
      have hcast : ((10 ^ d + f : Nat) : Int) = 10 ^ d + (f : Int) := by push_cast; rfl
      rw [← hcast, Int.natAbs_natCast]
    obtain ⟨digits, hdigits, hlength, hvalue⟩ := decimalDigits_pow_add d hf
    rw [habs, hdigits, List.drop_succ_cons, List.drop_zero]
    exact ⟨hlength, by rw [hvalue]⟩
  · intro hr
    have hcast : ((10 ^ d : Nat) : Int) = 10 ^ d := by push_cast; rfl
    have hlt : (10 ^ d + r).natAbs < 10 ^ d := by
      have hnat : ((10 ^ d + r).natAbs : Int) < ((10 ^ d : Nat) : Int) := by
        rw [hcast]
        omega
      exact_mod_cast hnat
    have hlength := length_decimalDigits_le hd hlt
    have hpos := List.length_pos_iff.2 (decimalDigits_ne_nil (10 ^ d + r).natAbs)
    rw [List.length_drop]
    omega

/-- The text without its blanks ends with a byte that is none. -/
theorem trimBlanks_last {s l : Bytes} {c : UInt8} (h : trimBlanks s = l ++ [c]) :
    isBlankByte c = false := by
  have hne : trimBlanks s ≠ [] := by
    rw [h]
    exact List.append_ne_nil_of_right_ne_nil _ (List.cons_ne_nil _ _)
  have hlast := List.rdropWhile_last_not isBlankByte (s.dropWhile isBlankByte) hne
  unfold trimBlanks at h
  simp only [h, List.getLast_append_singleton] at hlast
  exact Bool.eq_false_iff.2 hlast

theorem mem_of_mem_trimBlanks {s : Bytes} {c : UInt8} (h : c ∈ trimBlanks s) : c ∈ s :=
  (List.dropWhile_suffix isBlankByte).subset ((List.rdropWhile_prefix isBlankByte _).subset h)

/-- A text without blanks at its ends is left as it is. -/
theorem trimBlanks_eq {c z : UInt8} {l : Bytes} (hfirst : isBlankByte c = false)
    (hlast : isBlankByte z = false) : trimBlanks (c :: (l ++ [z])) = c :: (l ++ [z]) := by
  unfold trimBlanks
  rw [List.dropWhile_cons_of_neg (by rw [hfirst]; exact Bool.false_ne_true), ← List.cons_append,
    List.rdropWhile_concat_neg _ _ _ (by rw [hlast]; exact Bool.false_ne_true)]

theorem Shape.split {t int name : Bytes} {frac : Option Bytes} (h : Shape t int frac name) :
    ∃ l, t = l ++ space :: name := by
  cases h with
  | whole hspace hpoint => exact ⟨int, rfl⟩
  | @pointed _ frac _ hint hpoint hfrac =>
    exact ⟨int ++ point :: frac, by rw [List.append_assoc, List.cons_append]⟩

/-- A text that is read has a name that does not end with a blank. -/
theorem Shape.named {s int name : Bytes} {frac : Option Bytes}
    (h : Shape (trimBlanks s) int frac name) :
    ∃ c, name.getLast? = some c ∧ isBlankByte c = false := by
  obtain ⟨l, hl⟩ := h.split
  rcases List.eq_nil_or_concat name with rfl | ⟨inner, c, hname⟩
  · exact absurd (trimBlanks_last hl) (by decide)
  · rw [List.concat_eq_append] at hname
    subst hname
    refine ⟨c, List.getLast?_concat .., ?_⟩
    rw [← List.cons_append, ← List.append_assoc] at hl
    exact trimBlanks_last hl

/-- A text without a dot before the blank has one part there. -/
theorem Shape.pointless {int int' frac name : Bytes} (hspace : space ∉ int) (hpoint : point ∉ int)
    : ¬ Shape (int ++ space :: name) int' (some frac) name := by
  intro h
  generalize ht : int ++ space :: name = t at h
  cases h with
  | pointed hint hpoint' hfrac =>
    have hno : space ∉ int' ++ point :: frac := by
      intro hmem
      rcases List.mem_append.1 hmem with hmem | hmem
      · exact hint hmem
      · rcases List.mem_cons.1 hmem with heq | hmem
        · exact absurd heq (by decide)
        · exact hfrac hmem
    have htext : int ++ space :: name = (int' ++ point :: frac) ++ space :: name := by
      rw [ht, List.append_assoc, List.cons_append]
    obtain ⟨rfl, -⟩ := split_unique hspace hno htext
    exact hpoint (List.mem_append_right _ List.mem_cons_self)

theorem zero_not_mem_writtenAmount (x : Int) (d : Nat) : (0 : UInt8) ∉ writtenAmount x d := by
  have hnumeral : ∀ v, (0 : UInt8) ∉ numeral v := by
    intro v hmem
    rcases (numeral_spec v).bytes 0 hmem with heq | heq | hdigit
    · exact absurd heq (by decide)
    · exact absurd heq (by decide)
    · exact absurd hdigit (by decide)
  unfold writtenAmount
  split
  · intro hmem
    rcases List.mem_append.1 hmem with hmem | hmem
    · exact hnumeral _ hmem
    · rcases List.mem_cons.1 hmem with heq | hmem
      · exact absurd heq (by decide)
      · exact hnumeral _ (List.mem_of_mem_drop hmem)
  · exact hnumeral x

theorem writtenAmount_first (x : Int) (d : Nat) :
    ∃ c rest, writtenAmount x d = c :: rest ∧ isBlankByte c = false := by
  have hfirst : ∀ v, ∃ c rest, numeral v = c :: rest ∧ isBlankByte c = false := by
    intro v
    obtain ⟨c, rest, heq⟩ := List.exists_cons_of_ne_nil (numeral_ne_nil v)
    exact ⟨c, rest, heq, (numeral_byte v c (by rw [heq]; exact List.mem_cons_self)).2.2⟩
  unfold writtenAmount
  split
  · obtain ⟨c, rest, heq, hc⟩ := hfirst (x.tdiv (10 ^ d))
    exact ⟨c, rest ++ point :: writtenFrac x d, by rw [heq, List.cons_append], hc⟩
  · exact hfirst x

/-- A named text has no blanks to take off. -/
theorem trimBlanks_text (h : ∃ c, name.getLast? = some c ∧ isBlankByte c = false) :
    trimBlanks (writtenAmount x d ++ space :: name) = writtenAmount x d ++ space :: name := by
  obtain ⟨z, hz, hblank⟩ := h
  obtain ⟨c, rest, heq, hc⟩ := writtenAmount_first x d
  rcases List.eq_nil_or_concat name with rfl | ⟨inner, z', hname⟩
  · cases hz
  · rw [List.concat_eq_append] at hname
    subst hname
    rw [List.getLast?_concat] at hz
    obtain rfl := Option.some.inj hz
    have htext : writtenAmount x d ++ space :: (inner ++ [z']) =
        c :: ((rest ++ space :: inner) ++ [z']) := by
      rw [heq]
      simp
    rw [htext]
    exact trimBlanks_eq hc hblank

/-- The parts of a text with decimals. -/
theorem shape_pointed (hd : 0 < d) :
    Shape (writtenAmount x d ++ space :: name) (numeral (x.tdiv (10 ^ d)))
      (some (writtenFrac x d)) name := by
  have hint := numeral_byte (x.tdiv (10 ^ d))
  have hfrac := (writtenFrac_spec x hd).1
  unfold writtenAmount
  rw [if_pos hd, List.append_assoc, List.cons_append]
  apply Shape.pointed
  · exact fun hmem => (hint _ hmem).1 rfl
  · exact fun hmem => (hint _ hmem).2.1 rfl
  · intro hmem
    exact absurd (hfrac _ hmem) (by decide)

/-- The parts of a text without decimals. -/
theorem shape_whole (hname : point ∉ name) :
    Shape (writtenAmount x 0 ++ space :: name) (numeral x) none name := by
  have hint := numeral_byte x
  unfold writtenAmount
  rw [if_neg (Nat.lt_irrefl 0)]
  apply Shape.whole
  · exact fun hmem => (hint _ hmem).1 rfl
  · intro hmem
    rcases List.mem_append.1 hmem with hmem | hmem
    · exact (hint _ hmem).2.1 rfl
    · rcases List.mem_cons.1 hmem with heq | hmem
      · exact absurd heq (by decide)
      · exact hname hmem

end Text

/-! ## The round trip -/

section RoundTrip

variable {fc : FcText} {d : Nat} {name : Bytes} {x : Int}

/-- A printable asset is read back. -/
theorem fromText_of_printable (hfc : fc.Documented) (h : SymbolParts d name) (hx : InInt64 x)
    (hprintable : Printable x d name) :
    Asset.fromText fc (writtenAmount x d ++ space :: name) =
      .ok { amount := x, symbol := symbolOf d name } := by
  rw [fromText_eq_ok hfc, trimBlanks_text hprintable.named]
  rcases Nat.eq_zero_or_pos d with rfl | hd
  · refine ⟨_, _, _, x, shape_whole (hprintable.pointless rfl), ?_, ?_⟩
    · exact ⟨numeral_spec x, hx, fun c hc => (by cases hc), Nat.zero_le _, h.short⟩
    · unfold readAs fracDigits
      have hsum : x * 10 ^ (Option.getD (none : Option Bytes) []).length +
          ((decimalValue ((none : Option Bytes).getD []) : Nat) : Int) = x := by
        show x * 10 ^ 0 + ((0 : Nat) : Int) = x
        omega
      rw [hsum, wrapAmount_of_fits hx]
      rfl
  · have hr : 0 ≤ x.tmod (10 ^ d) := by
      rcases hprintable.sign with hpos | hdvd
      · exact Int.tmod_nonneg _ hpos
      · rw [Int.dvd_iff_tmod_eq_zero.1 hdvd]
    obtain ⟨hdigits, hkept, -⟩ := writtenFrac_spec x hd
    obtain ⟨hlength, hvalue⟩ := hkept hr
    refine ⟨_, _, _, x.tdiv (10 ^ d), shape_pointed hd, ?_, ?_⟩
    · exact ⟨numeral_spec _, quotient_fits hx, hdigits, hlength.le.trans h.decimals, h.short⟩
    · unfold readAs fracDigits
      rw [Option.getD_some, hlength, hvalue, Int.tdiv_mul_add_tmod, wrapAmount_of_fits hx]

/-- What is read back was printable. -/
theorem printable_of_fromText (hfc : fc.Documented) (h : SymbolParts d name)
    (hread : Asset.fromText fc (writtenAmount x d ++ space :: name) =
      .ok { amount := x, symbol := symbolOf d name }) : Printable x d name := by
  obtain ⟨int, frac, name', n, hshape, hn, heq⟩ := (fromText_eq_ok hfc).1 hread
  have hsymbol : symbolOf d name = symbolOf (fracDigits frac).length name' := congrArg Asset.symbol heq
  have hzero : (0 : UInt8) ∉ name' := by
    intro hmem
    obtain ⟨l, hl⟩ := hshape.split
    have htext : (0 : UInt8) ∈ writtenAmount x d ++ space :: name := by
      apply mem_of_mem_trimBlanks
      rw [hl]
      exact List.mem_append_right _ (List.mem_cons_of_mem _ hmem)
    rcases List.mem_append.1 htext with hmem | hmem
    · exact zero_not_mem_writtenAmount x d hmem
    · rcases List.mem_cons.1 hmem with heq | hmem
      · exact absurd heq (by decide)
      · exact h.text hmem
  obtain ⟨hlength, rfl⟩ := symbolOf_inj h ⟨hn.decimals, hn.name, hzero⟩ hsymbol
  have hnamed := hshape.named
  rw [trimBlanks_text hnamed] at hshape
  refine ⟨?_, hnamed, ?_⟩
  · rcases Nat.eq_zero_or_pos d with rfl | hd
    · right
      rw [pow_zero]
      exact one_dvd x
    · obtain ⟨-, hfrac, -⟩ := hshape.unique (shape_pointed hd)
      rw [hfrac] at hlength
      by_contra hno
      push_neg at hno
      obtain ⟨hneg, hdvd⟩ := hno
      have hr : x.tmod (10 ^ d) < 0 := by
        have hle := Int.tmod_nonneg (10 ^ d) (show 0 ≤ -x by omega)
        rw [Int.neg_tmod] at hle
        have hne : x.tmod (10 ^ d) ≠ 0 := fun hzero => hdvd (Int.dvd_iff_tmod_eq_zero.2 hzero)
        omega
      have hfewer := (writtenFrac_spec x hd).2.2 hr
      exact absurd hlength (by show ¬ d = (writtenFrac x d).length; omega)
  · rintro rfl hpoint
    have hint := numeral_byte x
    unfold writtenAmount at hshape
    rw [if_neg (Nat.lt_irrefl 0)] at hshape
    cases frac with
    | some frac =>
      exact Shape.pointless (fun hmem => (hint _ hmem).1 rfl) (fun hmem => (hint _ hmem).2.1 rfl)
        hshape
    | none =>
      generalize numeral x ++ space :: name = t at hshape
      cases hshape with
      | whole hspace hno =>
        exact hno (List.mem_append_right _ (List.mem_cons_of_mem _ hpoint))

/-- **The assets that are read back** are the printable ones. -/
theorem roundTrip_iff (hfc : fc.Documented) (h : SymbolParts d name) (hx : InInt64 x) :
    (∃ text, Asset.toText fc { amount := x, symbol := symbolOf d name } = .ok text ∧
      Asset.fromText fc text = .ok { amount := x, symbol := symbolOf d name }) ↔
      Printable x d name := by
  rw [toText_eq hfc h hx]
  constructor
  · rintro ⟨text, htext, hread⟩
    cases htext
    exact printable_of_fromText hfc h hread
  · intro hprintable
    exact ⟨_, rfl, fromText_of_printable hfc h hx hprintable⟩

end RoundTrip

/-- `-1.500 VIZ` is not printable, `1.500 VIZ` is. -/
theorem roundTrip_iff_viz :
    ∃ text, Asset.toText plainFc { amount := 1500, symbol := symbolOf 3 [86, 73, 90] } = .ok text ∧
      Asset.fromText plainFc text = .ok { amount := 1500, symbol := symbolOf 3 [86, 73, 90] } := by
  have hprintable : Printable 1500 3 [86, 73, 90] :=
    ⟨.inl (by decide), ⟨90, rfl, rfl⟩, fun h => absurd h (by decide)⟩
  exact (roundTrip_iff plainFc_documented ⟨by decide, by decide, by decide⟩ (by decide)).2 hprintable

/-- **`-0.005 VIZ` is written as `0.95 VIZ`.** -/
theorem negative_misprinted :
    Asset.toText plainFc { amount := -5, symbol := symbolOf 3 [86, 73, 90] } =
      .ok [48, 46, 57, 53, 32, 86, 73, 90] ∧
    Asset.fromText plainFc [48, 46, 57, 53, 32, 86, 73, 90] ≠
      .ok { amount := -5, symbol := symbolOf 3 [86, 73, 90] } := by
  have hparts : SymbolParts 3 [86, 73, 90] := ⟨by decide, by decide, by decide⟩
  have htext : writtenAmount (-5) 3 ++ space :: [86, 73, 90] = [48, 46, 57, 53, 32, 86, 73, 90] := by
    have hwhole : (-5 : Int).tdiv (10 ^ 3) = 0 := by decide
    have hfrac : 10 ^ 3 + (-5 : Int).tmod (10 ^ 3) = 995 := by decide
    have hzero : numeral 0 = [48] := by
      show decimalDigits 0 = _
      rw [decimalDigits, if_pos (by decide)]
      rfl
    have hdigits : numeral 995 = [57, 57, 53] := by
      show decimalDigits 995 = _
      rw [decimalDigits, if_neg (by decide), decimalDigits, if_neg (by decide), decimalDigits,
        if_pos (by decide)]
      rfl
    unfold writtenAmount writtenFrac
    rw [if_pos (by decide), hwhole, hfrac, hzero, hdigits]
    rfl
  constructor
  · rw [toText_eq plainFc_documented hparts (by decide), htext]
  · intro hread
    rw [← htext] at hread
    have hprintable := printable_of_fromText plainFc_documented hparts hread
    rcases hprintable.sign with hpos | hdvd
    · exact absurd hpos (by decide)
    · exact absurd hdvd (by decide)

end VizCore.Protocol
