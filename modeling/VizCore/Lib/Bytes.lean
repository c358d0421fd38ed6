import Mathlib.Tactic

/-!
# Files as byte strings

Words of a fixed number of bytes, least significant byte first, the two effects that a
program has on a file (`resize`, `overwrite`), and files that are a row of records, each
followed by a word that holds the position where the record begins.

* `leNat_leBytes`: a word that fits is read back;
* `records_append`, `offsets_append`: how the file and the list of positions grow.
-/

namespace VizCore.Lib

abbrev Bytes := List UInt8

/-! ## The first of its kind -/

/-- The first `c` splits a text in one way. -/
theorem split_unique {c : UInt8} {l r l' r' : Bytes} (hl : c ∉ l) (hl' : c ∉ l')
    (h : l ++ c :: r = l' ++ c :: r') : l = l' ∧ r = r' := by
  have htake : ∀ (l r : Bytes), c ∉ l → (l ++ c :: r).takeWhile (· != c) = l := by
    intro l r hl
    rw [List.takeWhile_append_of_pos, List.takeWhile_cons_of_neg (by simp), List.append_nil]
    intro d hd
    rw [bne_iff_ne]
    rintro rfl
    exact hl hd
  have hsame : l = l' := by
    rw [← htake l r hl, h, htake l' r' hl']
  subst hsame
  exact ⟨rfl, List.cons.inj (List.append_cancel_left h) |>.2⟩

theorem findIdx?_none {c : UInt8} {s : Bytes} : s.findIdx? (· == c) = none ↔ c ∉ s := by
  rw [List.findIdx?_eq_none_iff]
  constructor
  · intro h hmem
    have hc := h c hmem
    rw [beq_self_eq_true] at hc
    cases hc
  · intro h d hd
    rw [beq_eq_false_iff_ne]
    rintro rfl
    exact h hd

/-- The search finds the first `c`. -/
theorem findIdx?_split {c : UInt8} {l : Bytes} (r : Bytes) (h : c ∉ l) :
    (l ++ c :: r).findIdx? (· == c) = some l.length := by
  rw [List.findIdx?_append, findIdx?_none.2 h, List.findIdx?_cons]
  simp

theorem split_of_findIdx? {c : UInt8} {s : Bytes} {i : Nat} (h : s.findIdx? (· == c) = some i) :
    s = s.take i ++ c :: s.drop (i + 1) ∧ c ∉ s.take i ∧ (s.take i).length = i := by
  have hmem : c ∈ s := by
    by_contra hno
    rw [findIdx?_none.2 hno] at h
    cases h
  obtain ⟨l, r, rfl, hl⟩ := List.eq_append_cons_of_mem hmem
  rw [findIdx?_split r hl] at h
  obtain rfl := Option.some.inj h
  have hdrop : (l ++ c :: r).drop (l.length + 1) = r := by
    have hlength : l.length + 1 = (l ++ [c]).length := by
      rw [List.length_append, List.length_singleton]
    rw [List.append_cons, hlength, List.drop_left]
  rw [List.take_left, hdrop]
  exact ⟨rfl, hl, rfl⟩

/-! ## Words -/

/-- The `width` bytes of a number. -/
def leBytes : Nat → Nat → Bytes
  | 0, _ => []
  | width + 1, n => UInt8.ofNat (n % 256) :: leBytes width (n / 256)

/-- The number that the bytes stand for. -/
def leNat : Bytes → Nat
  | [] => 0
  | b :: bs => b.toNat + 256 * leNat bs

@[simp] theorem length_leBytes (width n : Nat) : (leBytes width n).length = width := by
  induction width generalizing n with
  | zero => rfl
  | succ width ih => simp [leBytes, ih]

theorem leNat_leBytes {width n : Nat} (h : n < 256 ^ width) : leNat (leBytes width n) = n := by
  induction width generalizing n with
  | zero =>
    have hzero : n = 0 := by simpa using h
    rw [hzero]
    rfl
  | succ width ih =>
    have hrest : n / 256 < 256 ^ width := by
      apply Nat.div_lt_of_lt_mul
      rw [Nat.mul_comm]
      exact h
    have hbyte : (UInt8.ofNat (n % 256)).toNat = n % 256 := by
      rw [UInt8.toNat_ofNat']
      omega
    show (UInt8.ofNat (n % 256)).toNat + 256 * leNat (leBytes width (n / 256)) = n
    rw [hbyte, ih hrest]
    omega

theorem leBytes_zero (width : Nat) : leBytes width 0 = List.replicate width 0 := by
  induction width with
  | zero => rfl
  | succ width ih =>
    show UInt8.ofNat (0 % 256) :: leBytes width (0 / 256) = _
    rw [Nat.zero_div, ih]
    rfl

/-- Bytes are determined by their number and the number they stand for. -/
theorem leBytes_leNat (bs : Bytes) : leBytes bs.length (leNat bs) = bs := by
  induction bs with
  | nil => rfl
  | cons b bs ih =>
    have hlt := b.toNat_lt
    have hmod : (b.toNat + 256 * leNat bs) % 256 = b.toNat := by omega
    have hdiv : (b.toNat + 256 * leNat bs) / 256 = leNat bs := by omega
    show UInt8.ofNat ((b.toNat + 256 * leNat bs) % 256) ::
      leBytes bs.length ((b.toNat + 256 * leNat bs) / 256) = b :: bs
    rw [hmod, hdiv, ih, UInt8.ofNat_toNat]

/-! ## Effects on a file -/

/-- The file is cut or filled with zeros to the given size. -/
def resize (file : Bytes) (size : Nat) : Bytes :=
  file.take size ++ List.replicate (size - file.length) 0

/-- Bytes in the middle of a file are replaced. -/
def overwrite (file : Bytes) (pos : Nat) (data : Bytes) : Bytes :=
  file.take pos ++ data ++ file.drop (pos + data.length)

@[simp] theorem length_resize (file : Bytes) (size : Nat) : (resize file size).length = size := by
  unfold resize
  simp
  omega

theorem resize_append (file : Bytes) (n : Nat) :
    resize file (file.length + n) = file ++ List.replicate n 0 := by
  unfold resize
  rw [List.take_of_length_le (by omega)]
  congr 2
  omega

/-- What stands at the place that is overwritten does not matter. -/
theorem overwrite_append (before old data after : Bytes) (h : old.length = data.length) :
    overwrite (before ++ (old ++ after)) before.length data = before ++ (data ++ after) := by
  unfold overwrite
  rw [← h, List.take_left, List.append_assoc, ← List.drop_drop, List.drop_left, List.drop_left]

/-! ## Records with back pointers -/

section Records

variable {α : Type} (pack : α → Bytes) (width : Nat)

/-- The records from position `pos` on, each followed by its position. -/
def records : Nat → List α → Bytes
  | _, [] => []
  | pos, a :: as =>
    pack a ++ (leBytes width pos ++ records (pos + (pack a).length + width) as)

/-- The positions where the records begin. -/
def offsets : Nat → List α → List Nat
  | _, [] => []
  | pos, a :: as => pos :: offsets (pos + (pack a).length + width) as

@[simp] theorem length_offsets (pos : Nat) (as : List α) :
    (offsets pack width pos as).length = as.length := by
  induction as generalizing pos with
  | nil => rfl
  | cons a as ih => simp [offsets, ih]

theorem records_append (pos : Nat) (as bs : List α) :
    records pack width pos (as ++ bs) = records pack width pos as ++
      records pack width (pos + (records pack width pos as).length) bs := by
  induction as generalizing pos with
  | nil => rfl
  | cons a as ih =>
    have hnext : pos + (records pack width pos (a :: as)).length =
        pos + (pack a).length + width +
          (records pack width (pos + (pack a).length + width) as).length := by
      simp only [records, List.length_append, length_leBytes]
      omega
    rw [hnext]
    simp only [List.cons_append, records, List.append_assoc]
    rw [ih]

theorem offsets_append (pos : Nat) (as bs : List α) :
    offsets pack width pos (as ++ bs) = offsets pack width pos as ++
      offsets pack width (pos + (records pack width pos as).length) bs := by
  induction as generalizing pos with
  | nil => rfl
  | cons a as ih =>
    have hnext : pos + (records pack width pos (a :: as)).length =
        pos + (pack a).length + width +
          (records pack width (pos + (pack a).length + width) as).length := by
      simp only [records, List.length_append, length_leBytes]
      omega
    rw [hnext]
    simp only [List.cons_append, offsets]
    rw [ih]

/-- Records of bounded size make a file of bounded size. -/
theorem length_records_le {bound : Nat} {as : List α} (h : ∀ a ∈ as, (pack a).length ≤ bound)
    (pos : Nat) : (records pack width pos as).length ≤ as.length * (bound + width) := by
  induction as generalizing pos with
  | nil => simp [records]
  | cons a as ih =>
    have hhead := h a List.mem_cons_self
    have htail := ih (fun x hx => h x (List.mem_cons_of_mem a hx)) (pos + (pack a).length + width)
    simp only [records, List.length_append, length_leBytes, List.length_cons]
    have hmul : (as.length + 1) * (bound + width) = as.length * (bound + width) + (bound + width) :=
      Nat.succ_mul _ _
    omega

/-- Words in a row. -/
def words (ns : List Nat) : Bytes := ns.flatMap (leBytes width)

@[simp] theorem length_words (ns : List Nat) : (words width ns).length = ns.length * width := by
  induction ns with
  | nil => simp [words]
  | cons n ns ih =>
    have hcons : words width (n :: ns) = leBytes width n ++ words width ns := rfl
    rw [hcons, List.length_append, ih, length_leBytes, List.length_cons, Nat.succ_mul]
    omega

theorem words_append (ms ns : List Nat) :
    words width (ms ++ ns) = words width ms ++ words width ns := List.flatMap_append

end Records

end VizCore.Lib
