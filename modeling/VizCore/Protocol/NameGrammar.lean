import VizCore.Lib.Bytes
import VizCore.Protocol.AccountNames

/-!
# The grammar of account names

The check of a name walks over its bytes with unsigned positions, from one dot to the next.

* `isValidAccountNameLoop_spec`: the walk stays within the name, and the names that pass are those
  of the grammar;
* `isValidAccountName_utf8`: the check of a text is that of its bytes.
-/

namespace VizCore.Protocol

open VizCore.Lib

/-! ## The walk -/

/-- Subtraction of positions, which are `size_t`. -/
def sizeSub (a b : Nat) : Nat := (a + 2 ^ 64 - b) % 2 ^ 64

def dot : UInt8 := 46

def isLowerCaseByte (c : UInt8) : Bool := 97 ≤ c && c ≤ 122

def isDigitByte (c : UInt8) : Bool := 48 ≤ c && c ≤ 57

/-- `name.find_first_of('.', begin)`, where nothing stands for `npos`. -/
def findFirstDot (name : Bytes) (begin : Nat) : Option Nat :=
  ((name.drop begin).findIdx? (· == dot)).map (begin + ·)

def isInnerByte (c : UInt8) : Bool := isLowerCaseByte c || isDigitByte c || c == 45

/-- `for (size_t i = begin + 1; i < end - 1; i++)`.  There is no result for a position outside of
the name. -/
def checkInner (name : Bytes) (start stop : Nat) : Option Bool :=
  (List.range' start (stop - start)).allM fun i => do
    let c ← name[i]?
    pure (isInnerByte c)

/-- The body of the label loop for the label from `begin` to `finish`. -/
def checkLabel (name : Bytes) (begin finish : Nat) : Option Bool :=
  if sizeSub finish begin < 2 then some false
  else do
    let first ← name[begin]?
    if !isLowerCaseByte first then some false
    else do
      let last ← name[sizeSub finish 1]?
      if !(isLowerCaseByte last || isDigitByte last) then some false
      else checkInner name (begin + 1) (sizeSub finish 1)

/-- `while (true)`, with the fuel as a bound. -/
def checkLabels (name : Bytes) : Nat → Nat → Option Bool
  | 0, _ => none
  | fuel + 1, begin => do
    let finish := (findFirstDot name begin).getD name.length
    let ok ← checkLabel name begin finish
    if !ok then some false
    else if finish = name.length then some true
    else checkLabels name fuel (finish + 1)

/-- `is_valid_account_name` as it is written. -/
def isValidAccountNameLoop (name : Bytes) : Option Bool :=
  if name.length < 2 then some false
  else if 32 < name.length then some false
  else checkLabels name (name.length + 1) 0

/-! ## The grammar -/

/-- At least two bytes, the first one a letter, the last one a letter or a digit. -/
def Label (label : Bytes) : Prop :=
  ∃ a inner z, label = a :: (inner ++ [z]) ∧ isLowerCaseByte a = true ∧
    (isLowerCaseByte z = true ∨ isDigitByte z = true) ∧ ∀ c ∈ inner, isInnerByte c = true

/-- One label or more, with dots between them. -/
inductive Labels : Bytes → Prop
  | last {label : Bytes} : Label label → Labels label
  | more {label rest : Bytes} : Label label → Labels rest → Labels (label ++ dot :: rest)

structure AccountNameGrammar (name : Bytes) : Prop where
  min : 2 ≤ name.length
  max : name.length ≤ 32
  labels : Labels name

/-! ## Where the labels end -/

theorem sizeSub_of_le {a b : Nat} (h : b ≤ a) (ha : a < 2 ^ 64) : sizeSub a b = a - b := by
  unfold sizeSub
  have hsum : a + 2 ^ 64 - b = (a - b) + 2 ^ 64 := by omega
  rw [hsum, Nat.add_mod_right, Nat.mod_eq_of_lt (by omega)]

theorem not_dot_of_inner {c : UInt8} (h : isInnerByte c = true) : c ≠ dot := by
  rintro rfl
  exact absurd h (by decide)

theorem label_iff {a z : UInt8} {inner : Bytes} : Label (a :: (inner ++ [z])) ↔
    isLowerCaseByte a = true ∧ (isLowerCaseByte z = true ∨ isDigitByte z = true) ∧
      ∀ c ∈ inner, isInnerByte c = true := by
  constructor
  · rintro ⟨a', inner', z', heq, h⟩
    obtain ⟨rfl, htail⟩ := List.cons.inj heq
    obtain ⟨rfl, hlast⟩ := List.append_inj' htail rfl
    obtain rfl := List.singleton_inj.1 hlast
    exact h
  · intro h
    exact ⟨a, inner, z, rfl, h⟩

/-- A list has fewer than two elements, or a first one and a last one. -/
theorem ends_cases {α : Type} (l : List α) :
    l.length < 2 ∨ ∃ a inner z, l = a :: (inner ++ [z]) := by
  cases l with
  | nil => exact .inl Nat.zero_lt_two
  | cons a tail =>
    rcases List.eq_nil_or_concat tail with rfl | ⟨inner, z, rfl⟩
    · exact .inl (Nat.lt_succ_self 1)
    · exact .inr ⟨a, inner, z, by rw [List.concat_eq_append]⟩

theorem Label.two {label : Bytes} (h : Label label) : 2 ≤ label.length := by
  obtain ⟨a, inner, z, rfl, -⟩ := h
  simp

theorem Label.inner {label : Bytes} (h : Label label) : ∀ c ∈ label, isInnerByte c = true := by
  obtain ⟨a, inner, z, rfl, ha, hz, hinner⟩ := h
  intro c hc
  unfold isInnerByte
  rcases List.mem_cons.1 hc with rfl | hc
  · rw [ha]
    rfl
  · rcases List.mem_append.1 hc with hc | hc
    · exact hinner c hc
    · rw [List.mem_singleton.1 hc]
      rcases hz with hz | hz
      · rw [hz]
        rfl
      · rw [hz, Bool.or_true]
        rfl

theorem Label.no_dot {label : Bytes} (h : Label label) : dot ∉ label :=
  fun hmem => not_dot_of_inner (h.inner dot hmem) rfl

theorem labels_of_no_dot {label : Bytes} (h : dot ∉ label) : Labels label ↔ Label label := by
  constructor
  · intro hlabels
    cases hlabels with
    | last hlabel => exact hlabel
    | more hlabel hrest => exact absurd (List.mem_append_right _ List.mem_cons_self) h
  · exact Labels.last

theorem labels_of_dot {label rest : Bytes} (h : dot ∉ label) :
    Labels (label ++ dot :: rest) ↔ Label label ∧ Labels rest := by
  constructor
  · intro hlabels
    generalize hname : label ++ dot :: rest = name at hlabels
    cases hlabels with
    | last hlabel =>
      subst hname
      exact absurd (List.mem_append_right _ List.mem_cons_self) hlabel.no_dot
    | more hlabel hrest =>
      obtain ⟨rfl, rfl⟩ := split_unique h hlabel.no_dot hname
      exact ⟨hlabel, hrest⟩
  · rintro ⟨hlabel, hrest⟩
    exact Labels.more hlabel hrest

/-! ## What the walk finds -/

theorem findFirstDot_last {before label : Bytes} (h : dot ∉ label) :
    findFirstDot (before ++ label) before.length = none := by
  unfold findFirstDot
  rw [List.drop_left, findIdx?_none.2 h, Option.map_none]

theorem findFirstDot_more {before label rest : Bytes} (h : dot ∉ label) :
    findFirstDot (before ++ (label ++ dot :: rest)) before.length =
      some (before.length + label.length) := by
  unfold findFirstDot
  rw [List.drop_left, findIdx?_split rest h, Option.map_some]

/-- The inner bytes are those between the first and the last one. -/
theorem checkInner_eq (before inner rest : Bytes) :
    checkInner (before ++ (inner ++ rest)) before.length (before.length + inner.length) =
      some (inner.all isInnerByte) := by
  unfold checkInner
  rw [Nat.add_sub_cancel_left]
  induction inner generalizing before with
  | nil => rfl
  | cons c inner ih =>
    have hnext := ih (before ++ [c])
    rw [List.append_assoc, List.singleton_append, List.length_append, List.length_singleton]
      at hnext
    rw [List.length_cons, List.range'_succ, List.allM, List.cons_append,
      List.getElem?_append_right (Nat.le_refl _), Nat.sub_self, List.getElem?_cons_zero]
    simp only [Option.bind_eq_bind, Option.bind_some, Option.pure_def]
    rw [List.all_cons]
    cases isInnerByte c with
    | true => exact hnext
    | false => rfl

/-- The body of the loop checks the bytes of one label. -/
theorem checkLabel_spec (before label rest : Bytes)
    (hsize : before.length + label.length < 2 ^ 64) :
    ∃ ok, checkLabel (before ++ (label ++ rest)) before.length (before.length + label.length) =
      some ok ∧ (ok = true ↔ Label label) := by
  unfold checkLabel
  rw [sizeSub_of_le (Nat.le_add_right _ _) hsize, Nat.add_sub_cancel_left]
  rcases ends_cases label with htwo | ⟨a, inner, z, rfl⟩
  · rw [if_pos htwo]
    exact ⟨false, rfl, iff_of_false Bool.false_ne_true fun h => Nat.not_le_of_lt htwo h.two⟩
  · rw [if_neg (by simp)]
    have hfirst : (before ++ (a :: (inner ++ [z]) ++ rest))[before.length]? = some a := by
      rw [List.getElem?_append_right (Nat.le_refl _), Nat.sub_self]
      rfl
    have hend : sizeSub (before.length + (a :: (inner ++ [z])).length) 1 =
        before.length + (1 + inner.length) := by
      simp only [List.length_cons, List.length_append, List.length_nil] at hsize ⊢
      rw [sizeSub_of_le (by omega) hsize]
      omega
    have hlast : (before ++ (a :: (inner ++ [z]) ++ rest))[before.length + (1 + inner.length)]? =
        some z := by
      have hsplit : before ++ (a :: (inner ++ [z]) ++ rest) =
          (before ++ (a :: inner)) ++ z :: rest := by
        simp
      have hpos : before.length + (1 + inner.length) = (before ++ (a :: inner)).length := by
        rw [List.length_append, List.length_cons, Nat.add_comm 1]
      rw [hsplit, hpos, List.getElem?_append_right (Nat.le_refl _), Nat.sub_self]
      rfl
    have hinner : checkInner (before ++ (a :: (inner ++ [z]) ++ rest)) (before.length + 1)
        (before.length + (1 + inner.length)) = some (inner.all isInnerByte) := by
      have hcheck := checkInner_eq (before ++ [a]) inner (z :: rest)
      rw [List.length_append, List.length_singleton] at hcheck
      have hsplit : before ++ (a :: (inner ++ [z]) ++ rest) =
          (before ++ [a]) ++ (inner ++ z :: rest) := by
        simp
      rw [hsplit, ← Nat.add_assoc]
      exact hcheck
    rw [hend]
    simp only [hfirst, hlast, hinner, Option.bind_eq_bind, Option.bind_some]
    rw [label_iff]
    cases hlower : isLowerCaseByte a with
    | false => exact ⟨false, rfl, iff_of_false Bool.false_ne_true fun h => Bool.false_ne_true h.1⟩
    | true =>
      cases hback : isLowerCaseByte z || isDigitByte z with
      | false =>
        refine ⟨false, rfl, iff_of_false Bool.false_ne_true fun h => ?_⟩
        rw [← Bool.or_eq_true, hback] at h
        exact Bool.false_ne_true h.2.1
      | true =>
        refine ⟨inner.all isInnerByte, rfl, ?_⟩
        rw [List.all_eq_true, ← Bool.or_eq_true, hback]
        exact ⟨fun h => ⟨rfl, rfl, h⟩, fun h => h.2.2⟩

/-- **The walk from a label on**: it ends within the name, and accepts what the grammar does. -/
theorem checkLabels_spec (fuel : Nat) (before rest : Bytes) (hfuel : rest.length < fuel)
    (hsize : before.length + rest.length < 2 ^ 64) :
    ∃ ok, checkLabels (before ++ rest) fuel before.length = some ok ∧
      (ok = true ↔ Labels rest) := by
  induction fuel generalizing before rest with
  | zero => exact absurd hfuel (Nat.not_lt_zero _)
  | succ fuel ih =>
    unfold checkLabels
    by_cases hdot : dot ∈ rest
    · obtain ⟨label, tail, rfl, hlabel⟩ := List.eq_append_cons_of_mem hdot
      rw [List.length_append, List.length_cons] at hfuel hsize
      obtain ⟨ok, hcheck, hok⟩ := checkLabel_spec before label (dot :: tail) (by omega)
      obtain ⟨ok', hrest, hok'⟩ := ih (before ++ (label ++ [dot])) tail (by omega)
        (by simp only [List.length_append, List.length_cons, List.length_nil]; omega)
      have hnext : before ++ (label ++ [dot]) ++ tail = before ++ (label ++ dot :: tail) := by
        simp
      have hpos : (before ++ (label ++ [dot])).length = before.length + label.length + 1 := by
        rw [List.length_append, List.length_append, List.length_singleton, Nat.add_assoc]
      have hmore : before.length + label.length ≠ (before ++ (label ++ dot :: tail)).length := by
        simp only [List.length_append, List.length_cons]
        omega
      rw [hnext, hpos] at hrest
      rw [findFirstDot_more hlabel, Option.getD_some]
      simp only [hcheck, Option.bind_eq_bind, Option.bind_some]
      rw [labels_of_dot hlabel, if_neg hmore]
      cases ok with
      | true => exact ⟨ok', hrest, hok'.trans (and_iff_right (hok.1 rfl)).symm⟩
      | false => exact ⟨false, rfl, iff_of_false Bool.false_ne_true fun h =>
          Bool.false_ne_true (hok.2 h.1)⟩
    · obtain ⟨ok, hcheck, hok⟩ := checkLabel_spec before rest [] hsize
      rw [List.append_nil] at hcheck
      rw [findFirstDot_last hdot, Option.getD_none, List.length_append]
      simp only [hcheck, Option.bind_eq_bind, Option.bind_some]
      rw [labels_of_no_dot hdot]
      cases ok with
      | true => exact ⟨true, rfl, hok⟩
      | false => exact ⟨false, rfl, hok⟩

/-- **The names that pass** are those of the grammar, and the walk stays within the name. -/
theorem isValidAccountNameLoop_spec (name : Bytes) :
    ∃ ok, isValidAccountNameLoop name = some ok ∧ (ok = true ↔ AccountNameGrammar name) := by
  unfold isValidAccountNameLoop
  by_cases hmin : name.length < 2
  · rw [if_pos hmin]
    exact ⟨false, rfl, iff_of_false Bool.false_ne_true fun h => Nat.not_le_of_lt hmin h.min⟩
  · by_cases hmax : 32 < name.length
    · rw [if_neg hmin, if_pos hmax]
      exact ⟨false, rfl, iff_of_false Bool.false_ne_true fun h => Nat.not_le_of_lt hmax h.max⟩
    · rw [if_neg hmin, if_neg hmax]
      obtain ⟨ok, hcheck, hok⟩ := checkLabels_spec (name.length + 1) [] name
        (Nat.lt_succ_self _) (by simp only [List.length_nil]; omega)
      refine ⟨ok, hcheck, hok.trans ?_⟩
      constructor
      · intro hlabels
        exact ⟨Nat.le_of_not_lt hmin, Nat.le_of_not_lt hmax, hlabels⟩
      · exact AccountNameGrammar.labels

/-! ## The names of texts -/

/-- The bytes of a text. -/
def utf8 (s : String) : Bytes := s.toList.flatMap String.utf8EncodeChar

theorem length_utf8 (s : String) : (utf8 s).length = s.utf8ByteSize := by
  unfold utf8
  rw [utf8ByteSize_eq, List.length_flatMap]
  simp only [String.length_utf8EncodeChar]

/-- The byte of an ASCII character. -/
def asciiByte (c : Char) : UInt8 := c.val.toUInt8

theorem toNat_asciiByte {c : Char} (h : c.toNat < 128) : (asciiByte c).toNat = c.toNat := by
  unfold asciiByte
  rw [UInt32.toNat_toUInt8]
  exact Nat.mod_eq_of_lt (by show c.toNat < 2 ^ 8; omega)

theorem encode_of_ascii {c : Char} (h : c.toNat < 128) :
    String.utf8EncodeChar c = [asciiByte c] := by
  apply String.utf8EncodeChar_eq_singleton
  rw [Char.utf8Size_eq_one_iff]
  exact UInt32.le_iff_toNat_le.2 (Nat.le_of_lt_succ h)

/-- The bytes of another character are not ASCII. -/
theorem encode_of_not_ascii {c : Char} (h : ¬ c.toNat < 128) :
    ∃ b ∈ String.utf8EncodeChar c, 128 ≤ b.toNat := by
  have hlarge : ∀ b mask : UInt8, 128 ≤ mask.toNat → 128 ≤ (b ||| mask).toNat := by
    intro b mask hmask
    rw [UInt8.toNat_or]
    exact hmask.trans Nat.right_le_or
  rcases c.utf8Size_eq with hsize | hsize | hsize | hsize
  · rw [Char.utf8Size_eq_one_iff] at hsize
    exact absurd (Nat.lt_succ_of_le (UInt32.le_iff_toNat_le.1 hsize)) h
  · rw [String.utf8EncodeChar_eq_cons_cons hsize]
    exact ⟨_, List.mem_cons_self, hlarge _ _ (by decide)⟩
  · rw [String.utf8EncodeChar_eq_cons_cons_cons hsize]
    exact ⟨_, List.mem_cons_self, hlarge _ _ (by decide)⟩
  · rw [String.utf8EncodeChar_eq_cons_cons_cons_cons hsize]
    exact ⟨_, List.mem_cons_self, hlarge _ _ (by decide)⟩

section Ascii

variable {c : Char}

theorem isLowerCaseByte_ascii (h : c.toNat < 128) :
    isLowerCaseByte (asciiByte c) = isLowerCase c := by
  have hcode {a b : Char} : a ≤ b ↔ a.toNat ≤ b.toNat := UInt32.le_iff_toNat_le
  unfold isLowerCaseByte isLowerCase
  simp only [UInt8.le_iff_toNat_le, toNat_asciiByte h, hcode]
  rfl

theorem isDigitByte_ascii (h : c.toNat < 128) : isDigitByte (asciiByte c) = isDigit c := by
  have hcode {a b : Char} : a ≤ b ↔ a.toNat ≤ b.toNat := UInt32.le_iff_toNat_le
  unfold isDigitByte isDigit
  simp only [UInt8.le_iff_toNat_le, toNat_asciiByte h, hcode]
  rfl

theorem asciiByte_inj (h : c.toNat < 128) {d : Char} (hd : d.toNat < 128) :
    asciiByte c = asciiByte d ↔ c = d := by
  constructor
  · intro heq
    have hnat := congrArg UInt8.toNat heq
    rw [toNat_asciiByte h, toNat_asciiByte hd] at hnat
    exact Char.toNat_inj.1 hnat
  · exact congrArg asciiByte

theorem isInnerByte_ascii (h : c.toNat < 128) :
    isInnerByte (asciiByte c) = (isLowerCase c || isDigit c || c = '-') := by
  have hdash : (asciiByte c == 45) = decide (c = '-') := by
    rw [Bool.eq_iff_iff, beq_iff_eq, decide_eq_true_iff]
    exact asciiByte_inj h (d := '-') (by decide)
  unfold isInnerByte
  rw [isLowerCaseByte_ascii h, isDigitByte_ascii h, hdash]

end Ascii

/-- A label of characters is one of their bytes. -/
theorem label_ascii {label : List Char} (h : ∀ c ∈ label, c.toNat < 128) :
    Label (label.map asciiByte) ↔ isValidLabel label = true := by
  rcases ends_cases label with htwo | ⟨a, inner, z, rfl⟩
  · constructor
    · intro hlabel
      have hlength := hlabel.two
      rw [List.length_map] at hlength
      exact absurd hlength (Nat.not_le_of_lt htwo)
    · intro hvalid
      exact absurd ((isValidLabel_eq label).1 hvalid).1 (Nat.not_le_of_lt htwo)
  · have ha := h a List.mem_cons_self
    have hz := h z (List.mem_cons_of_mem _ (List.mem_append_right _ List.mem_cons_self))
    have hinner : ∀ c ∈ inner, c.toNat < 128 := by
      intro c hc
      exact h c (List.mem_cons_of_mem _ (List.mem_append_left _ hc))
    have hbytes : (∀ b ∈ inner.map asciiByte, isInnerByte b = true) ↔
        ∀ c ∈ inner, isLowerCase c = true ∨ isDigit c = true ∨ c = '-' := by
      rw [List.forall_mem_map]
      apply forall₂_congr
      intro c hc
      rw [isInnerByte_ascii (hinner c hc), Bool.or_eq_true, Bool.or_eq_true, decide_eq_true_iff,
        or_assoc]
    have hlast : (a :: (inner ++ [z])).getLast? = some z := by
      rw [← List.cons_append, List.getLast?_append_of_ne_nil _ (List.cons_ne_nil _ _)]
      rfl
    rw [List.map_cons, List.map_append, List.map_singleton, label_iff, isValidLabel_eq,
      isLowerCaseByte_ascii ha, isLowerCaseByte_ascii hz, isDigitByte_ascii hz, hbytes, hlast,
      List.tail_cons, List.dropLast_concat]
    simp

theorem splitDots_of_no_dot {l : List Char} (h : '.' ∉ l) : splitDots l = [l] := by
  induction l with
  | nil => rfl
  | cons c rest ih =>
    have hc : ¬ c = '.' := fun hdot => h (hdot ▸ List.mem_cons_self)
    obtain ⟨label, labels, hrest, heq⟩ := splitDots_cons c rest
    rw [ih fun hmem => h (List.mem_cons_of_mem c hmem)] at hrest
    cases hrest
    rw [heq, if_neg hc]

/-- The labels of a text are those of its bytes. -/
theorem labels_ascii (n : Nat) (l : List Char) (hn : l.length ≤ n)
    (h : ∀ c ∈ l, c.toNat < 128) :
    Labels (l.map asciiByte) ↔ ∀ label ∈ splitDots l, isValidLabel label = true := by
  have hdot : ∀ label : List Char, (∀ c ∈ label, c.toNat < 128) → '.' ∉ label →
      dot ∉ label.map asciiByte := by
    intro label hlabel hno hmem
    obtain ⟨c, hc, heq⟩ := List.mem_map.1 hmem
    rw [(asciiByte_inj (hlabel c hc) (d := '.') (by decide)).1 heq] at hc
    exact hno hc
  induction n generalizing l with
  | zero =>
    obtain rfl := List.length_eq_zero_iff.1 (Nat.le_zero.1 hn)
    rw [splitDots_of_no_dot List.not_mem_nil, labels_of_no_dot (hdot [] h List.not_mem_nil),
      label_ascii h, List.forall_mem_singleton]
  | succ n ih =>
    by_cases hmem : '.' ∈ l
    · obtain ⟨label, rest, rfl, hno⟩ := List.eq_append_cons_of_mem hmem
      have hlabel : ∀ c ∈ label, c.toNat < 128 := fun c hc => h c (List.mem_append_left _ hc)
      have hrest : ∀ c ∈ rest, c.toNat < 128 :=
        fun c hc => h c (List.mem_append_right _ (List.mem_cons_of_mem _ hc))
      have hlength : rest.length ≤ n := by
        rw [List.length_append, List.length_cons] at hn
        omega
      have htail : Labels (rest.map asciiByte) ↔
          ∀ label ∈ splitDots rest, isValidLabel label = true := ih rest hlength hrest
      rw [splitDots_append hno, List.forall_mem_cons, ← label_ascii hlabel, ← htail,
        List.map_append, List.map_cons]
      exact labels_of_dot (hdot label hlabel hno)
    · rw [splitDots_of_no_dot hmem, labels_of_no_dot (hdot l h hmem), label_ascii h,
        List.forall_mem_singleton]

theorem Labels.ascii {name : Bytes} (h : Labels name) : ∀ b ∈ name, b.toNat < 128 := by
  have hinner : ∀ b : UInt8, isInnerByte b = true → b.toNat < 128 := by
    intro b hb
    unfold isInnerByte isLowerCaseByte isDigitByte at hb
    simp only [Bool.or_eq_true, Bool.and_eq_true, decide_eq_true_iff, UInt8.le_iff_toNat_le,
      beq_iff_eq] at hb
    rcases hb with (⟨-, hb⟩ | ⟨-, hb⟩) | rfl
    · exact Nat.lt_of_le_of_lt hb (by decide)
    · exact Nat.lt_of_le_of_lt hb (by decide)
    · decide
  induction h with
  | last hlabel =>
    intro b hb
    exact hinner b (hlabel.inner b hb)
  | more hlabel _ ih =>
    intro b hb
    rcases List.mem_append.1 hb with hb | hb
    · exact hinner b (hlabel.inner b hb)
    · rcases List.mem_cons.1 hb with rfl | hb
      · decide
      · exact ih b hb

theorem toNat_lt_of_valid {name : String} (h : isValidAccountName name = true) :
    ∀ c ∈ name.toList, c.toNat < 128 := by
  intro c hc
  have hcode {a b : Char} : a ≤ b ↔ a.toNat ≤ b.toNat := UInt32.le_iff_toNat_le
  rcases isValidAccountName_chars h c hc with rfl | hlower | hdigit | rfl
  · decide
  · unfold isLowerCase at hlower
    rw [Bool.and_eq_true, decide_eq_true_iff, decide_eq_true_iff, hcode, hcode] at hlower
    exact Nat.lt_of_le_of_lt hlower.2 (by decide)
  · unfold isDigit at hdigit
    rw [Bool.and_eq_true, decide_eq_true_iff, decide_eq_true_iff, hcode, hcode] at hdigit
    exact Nat.lt_of_le_of_lt hdigit.2 (by decide)
  · decide

/-- **The check of a text** is that of its bytes. -/
theorem isValidAccountName_utf8 (s : String) :
    isValidAccountName s = true ↔ isValidAccountNameLoop (utf8 s) = some true := by
  obtain ⟨ok, hloop, hok⟩ := isValidAccountNameLoop_spec (utf8 s)
  have hgrammar : isValidAccountNameLoop (utf8 s) = some true ↔ AccountNameGrammar (utf8 s) := by
    rw [hloop, Option.some_inj, hok]
  rw [hgrammar]
  by_cases hascii : ∀ c ∈ s.toList, c.toNat < 128
  · have hbytes : utf8 s = s.toList.map asciiByte := by
      unfold utf8
      rw [List.map_eq_flatMap]
      exact List.flatMap_congr fun c hc => encode_of_ascii (hascii c hc)
    have hlabels := labels_ascii s.toList.length s.toList (Nat.le_refl _) hascii
    rw [isValidAccountName_eq, ← hlabels, ← length_utf8, ← hbytes]
    exact ⟨fun h => ⟨h.1, h.2.1, h.2.2⟩, fun h => ⟨h.min, h.max, h.labels⟩⟩
  · push_neg at hascii
    obtain ⟨c, hc, hlarge⟩ := hascii
    constructor
    · intro hvalid
      exact absurd (toNat_lt_of_valid hvalid c hc) (Nat.not_lt_of_le hlarge)
    · intro h
      obtain ⟨b, hb, hb128⟩ := encode_of_not_ascii (Nat.not_lt_of_le hlarge)
      have hmem : b ∈ utf8 s := List.mem_flatMap.2 ⟨c, hc, hb⟩
      exact absurd (h.labels.ascii b hmem) (Nat.not_lt_of_le hb128)

end VizCore.Protocol
