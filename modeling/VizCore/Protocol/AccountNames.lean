import VizCore.Protocol.Validate

/-!
# Account names

What the checks of account names say about a name with a dot, and about the names of anonymous
accounts.

* `isValidDomainName_iff`: what the check of the parent says;
* `length_of_dot`: a valid name with a dot is long enough for a new account;
* `isValidAccountName_numbered`: the numbered names are valid.
-/

namespace VizCore.Protocol

/-! ## The size of a text -/

theorem utf8ByteSize_eq (s : String) : s.utf8ByteSize = (s.toList.map Char.utf8Size).sum := by
  have hlist : ∀ l : List Char, (String.ofList l).utf8ByteSize = (l.map Char.utf8Size).sum := by
    intro l
    induction l with
    | nil => rfl
    | cons c l ih =>
      rw [String.ofList_cons, String.utf8ByteSize_append, String.utf8ByteSize_singleton, ih]
      rfl
  have hs := hlist s.toList
  rwa [String.ofList_toList] at hs

theorem length_le_utf8ByteSize (s : String) : s.toList.length ≤ s.utf8ByteSize := by
  rw [utf8ByteSize_eq]
  have hlist : ∀ l : List Char, l.length ≤ (l.map Char.utf8Size).sum := by
    intro l
    induction l with
    | nil => exact Nat.le_refl 0
    | cons c l ih =>
      have hc := Char.utf8Size_pos c
      rw [List.length_cons, List.map_cons, List.sum_cons]
      omega
  exact hlist s.toList

/-- A text of ASCII characters has one byte for each. -/
theorem utf8ByteSize_of_ascii {s : String} (h : ∀ c ∈ s.toList, c.toNat < 128) :
    s.utf8ByteSize = s.toList.length := by
  have hsize : ∀ c : Char, c.toNat < 128 → c.utf8Size = 1 := by
    intro c hc
    rw [Char.utf8Size_eq_one_iff]
    exact UInt32.le_iff_toNat_le.2 (Nat.le_of_lt_succ hc)
  rw [utf8ByteSize_eq]
  generalize s.toList = l at *
  induction l with
  | nil => rfl
  | cons c l ih =>
    rw [List.map_cons, List.sum_cons, List.length_cons, hsize c (h c List.mem_cons_self),
      ih fun d hd => h d (List.mem_cons_of_mem c hd), Nat.add_comm]

/-! ## Labels -/

theorem splitDots_ne_nil (l : List Char) : splitDots l ≠ [] := by
  cases l with
  | nil => exact List.cons_ne_nil _ _
  | cons c rest =>
    unfold splitDots
    split
    · exact List.cons_ne_nil _ _
    · split
      · exact List.cons_ne_nil _ _
      · exact List.cons_ne_nil _ _

/-- A character opens a label or extends the first one. -/
theorem splitDots_cons (c : Char) (rest : List Char) : ∃ label labels,
    splitDots rest = label :: labels ∧ splitDots (c :: rest) =
      if c = '.' then [] :: label :: labels else (c :: label) :: labels := by
  cases hrest : splitDots rest with
  | nil => exact absurd hrest (splitDots_ne_nil rest)
  | cons label labels =>
    refine ⟨label, labels, rfl, ?_⟩
    rw [splitDots, hrest]

/-- The labels and the dots between them make the name. -/
theorem splitDots_length (l : List Char) :
    ((splitDots l).map (·.length + 1)).sum = l.length + 1 := by
  induction l with
  | nil => rfl
  | cons c rest ih =>
    obtain ⟨label, labels, hrest, heq⟩ := splitDots_cons c rest
    rw [hrest] at ih
    rw [heq]
    simp only [List.map_cons, List.sum_cons, List.length_cons] at ih ⊢
    split
    · simp only [List.map_cons, List.sum_cons, List.length_nil]
      omega
    · simp only [List.map_cons, List.sum_cons, List.length_cons]
      omega

theorem splitDots_of_dot {l : List Char} (h : '.' ∈ l) : 2 ≤ (splitDots l).length := by
  induction l with
  | nil => exact absurd h List.not_mem_nil
  | cons c rest ih =>
    obtain ⟨label, labels, hrest, heq⟩ := splitDots_cons c rest
    rw [hrest] at ih
    rw [heq]
    split
    · rw [List.length_cons, List.length_cons]
      omega
    · rename_i hc
      rcases List.mem_cons.1 h with hdot | h
      · exact absurd hdot.symm hc
      · exact ih h

/-- The first label ends at the first dot. -/
theorem splitDots_append {l r : List Char} (h : '.' ∉ l) :
    splitDots (l ++ '.' :: r) = l :: splitDots r := by
  induction l with
  | nil =>
    obtain ⟨label, labels, hrest, heq⟩ := splitDots_cons '.' r
    rw [List.nil_append, heq, if_pos rfl, hrest]
  | cons c rest ih =>
    have hc : ¬ c = '.' := fun hdot => h (hdot ▸ List.mem_cons_self)
    obtain ⟨label, labels, hrest, heq⟩ := splitDots_cons c (rest ++ '.' :: r)
    rw [ih fun hmem => h (List.mem_cons_of_mem c hmem)] at hrest
    cases hrest
    rw [List.cons_append, heq, if_neg hc]

theorem isValidAccountName_eq (name : String) : isValidAccountName name = true ↔
    2 ≤ name.utf8ByteSize ∧ name.utf8ByteSize ≤ 32 ∧
      ∀ label ∈ splitDots name.toList, isValidLabel label = true := by
  unfold isValidAccountName
  rw [Bool.and_eq_true, Bool.and_eq_true, decide_eq_true_iff, decide_eq_true_iff, and_assoc,
    List.all_eq_true]

/-- A valid name with a dot is long enough for a new account. -/
theorem length_of_dot {name : String} (h : isValidAccountName name = true)
    (hdot : '.' ∈ name.toList) : 5 ≤ name.utf8ByteSize := by
  obtain ⟨-, -, hlabels⟩ := (isValidAccountName_eq name).1 h
  have hcount := splitDots_of_dot hdot
  have hlength := splitDots_length name.toList
  have hsize := length_le_utf8ByteSize name
  have hlabel : ∀ label ∈ splitDots name.toList, 2 ≤ label.length := by
    intro label hmem
    have hvalid := hlabels label hmem
    unfold isValidLabel at hvalid
    rw [Bool.and_eq_true, decide_eq_true_iff] at hvalid
    exact hvalid.1
  cases hsplit : splitDots name.toList with
  | nil => exact absurd hsplit (splitDots_ne_nil _)
  | cons first rest =>
    rw [hsplit] at hcount hlength hlabel
    cases rest with
    | nil =>
      rw [List.length_singleton] at hcount
      omega
    | cons second rest =>
      have hfirst := hlabel first List.mem_cons_self
      have hsecond := hlabel second (List.mem_cons_of_mem _ List.mem_cons_self)
      simp only [List.map_cons, List.sum_cons] at hlength
      omega

theorem isValidLabel_eq (label : List Char) : isValidLabel label = true ↔
    2 ≤ label.length ∧ (∃ a ∈ label.head?, isLowerCase a = true) ∧
      (∃ z ∈ label.getLast?, isLowerCase z = true ∨ isDigit z = true) ∧
      ∀ c ∈ label.tail.dropLast, isLowerCase c = true ∨ isDigit c = true ∨ c = '-' := by
  unfold isValidLabel
  simp only [Bool.and_eq_true, decide_eq_true_iff, Option.any_eq_true, List.all_eq_true,
    Bool.or_eq_true, Option.mem_def, or_assoc, and_assoc]

theorem isValidLabel_chars {label : List Char} (h : isValidLabel label = true) :
    ∀ c ∈ label, isLowerCase c = true ∨ isDigit c = true ∨ c = '-' := by
  obtain ⟨hlength, ⟨a, ha, hlower⟩, ⟨z, hz, hlast⟩, hmiddle⟩ := (isValidLabel_eq label).1 h
  intro c hc
  cases label with
  | nil => exact absurd hc List.not_mem_nil
  | cons b rest =>
    rcases List.mem_cons.1 hc with rfl | hc
    · obtain rfl := Option.some.inj ha
      exact .inl hlower
    · have hne : rest ≠ [] := List.ne_nil_of_mem hc
      rw [← List.dropLast_append_getLast hne] at hc
      rcases List.mem_append.1 hc with hc | hc
      · exact hmiddle c hc
      · have hsame : (b :: rest).getLast? = some (rest.getLast hne) := by
          rw [List.getLast?_cons_of_ne_nil hne, List.getLast?_eq_some_getLast hne]
        obtain rfl := Option.some.inj (hsame.symm.trans hz)
        rw [List.mem_singleton.1 hc]
        exact hlast.imp_right .inl

/-- The characters of a valid name. -/
theorem isValidAccountName_chars {name : String} (h : isValidAccountName name = true) :
    ∀ c ∈ name.toList, c = '.' ∨ isLowerCase c = true ∨ isDigit c = true ∨ c = '-' := by
  obtain ⟨-, -, hlabels⟩ := (isValidAccountName_eq name).1 h
  have hmem : ∀ l : List Char, ∀ c ∈ l, c = '.' ∨ ∃ label ∈ splitDots l, c ∈ label := by
    intro l
    induction l with
    | nil => exact fun c hc => absurd hc List.not_mem_nil
    | cons d rest ih =>
      intro c hc
      obtain ⟨label, labels, hrest, heq⟩ := splitDots_cons d rest
      rw [hrest] at ih
      rw [heq]
      by_cases hd : d = '.'
      · rw [if_pos hd]
        rcases List.mem_cons.1 hc with rfl | hc
        · exact .inl hd
        · rcases ih c hc with hdot | ⟨x, hx, hcx⟩
          · exact .inl hdot
          · exact .inr ⟨x, List.mem_cons_of_mem _ hx, hcx⟩
      · rw [if_neg hd]
        rcases List.mem_cons.1 hc with rfl | hc
        · exact .inr ⟨c :: label, List.mem_cons_self, List.mem_cons_self⟩
        · rcases ih c hc with hdot | ⟨x, hx, hcx⟩
          · exact .inl hdot
          · rcases List.mem_cons.1 hx with rfl | hx
            · exact .inr ⟨d :: x, List.mem_cons_self, List.mem_cons_of_mem _ hcx⟩
            · exact .inr ⟨x, List.mem_cons_of_mem _ hx, hcx⟩
  intro c hc
  rcases hmem name.toList c hc with hdot | ⟨label, hlabel, hcl⟩
  · exact .inl hdot
  · exact .inr (isValidLabel_chars (hlabels label hlabel) c hcl)

/-- A valid name needs three bytes for a new account. -/
theorem isValidCreateAccountName_iff {name : String} (h : isValidAccountName name = true) :
    isValidCreateAccountName name = true ↔ 3 ≤ name.utf8ByteSize := by
  obtain ⟨-, hmax, -⟩ := (isValidAccountName_eq name).1 h
  unfold isValidCreateAccountName
  rw [Bool.and_eq_true, decide_eq_true_iff, decide_eq_true_iff]
  exact and_iff_left hmax

/-! ## Parents -/

/-- What follows the first dot is the creator. -/
theorem isValidDomainName_iff {name creator : String} : isValidDomainName name creator = true ↔
    ∀ label parent, splitAtFirst '.' name = some (label, parent) → parent = creator := by
  unfold isValidDomainName splitAtFirst
  cases name.toList.dropWhile (· ≠ '.') with
  | nil => exact iff_of_true rfl fun _ _ h => nomatch h
  | cons c rest =>
    dsimp only
    rw [decide_eq_true_iff]
    constructor
    · intro heq label parent h
      cases h
      rw [← heq, String.ofList_toList]
    · intro h
      rw [← h _ _ rfl, String.toList_ofList]

theorem splitAtFirst_append {c : Char} {l r : String} (h : c ∉ l.toList) :
    splitAtFirst c (l ++ (String.singleton c ++ r)) = some (l, r) := by
  have hl : ∀ x ∈ l.toList, decide (x ≠ c) = true := by
    intro x hx
    exact decide_eq_true fun heq => h (heq ▸ hx)
  have htext : (l ++ (String.singleton c ++ r)).toList = l.toList ++ c :: r.toList := by
    rw [String.toList_append, String.toList_append, String.toList_singleton, List.singleton_append]
  unfold splitAtFirst
  rw [htext, List.dropWhile_append_of_pos hl, List.takeWhile_append_of_pos hl,
    List.dropWhile_cons_of_neg (by simp), List.takeWhile_cons_of_neg (by simp), List.append_nil,
    String.ofList_toList]
  dsimp only
  rw [String.ofList_toList]

theorem mem_of_splitAtFirst {c : Char} {s l r : String} (h : splitAtFirst c s = some (l, r)) :
    c ∈ s.toList := by
  unfold splitAtFirst at h
  cases hrest : s.toList.dropWhile (· ≠ c) with
  | nil =>
    rw [hrest] at h
    cases h
  | cons d rest =>
    have hd : d = c := by
      have hhead := List.head?_dropWhile_not (fun x => decide (x ≠ c)) s.toList
      rw [hrest] at hhead
      simpa using hhead
    have hmem : d ∈ s.toList.dropWhile (· ≠ c) := hrest ▸ List.mem_cons_self
    rw [← hd]
    exact List.dropWhile_suffix _ |>.subset hmem

/-! ## Blanks -/

/-- The characters that `fc::trim` takes off both ends. -/
def isBlank (c : Char) : Bool := c = ' ' || ('\t' ≤ c && c ≤ '\r')

/-- A text without blanks is left as it is. -/
def Fc.KeepsUnblank (fc : Fc) : Prop :=
  ∀ s : String, (∀ c ∈ s.toList, isBlank c = false) → fc.trim s = s

/-- A valid name has no blanks. -/
theorem isBlank_of_valid {name : String} (h : isValidAccountName name = true) :
    ∀ c ∈ name.toList, isBlank c = false := by
  intro c hc
  have hcode {a b : Char} : a ≤ b ↔ a.toNat ≤ b.toNat := UInt32.le_iff_toNat_le
  have hlow : 45 ≤ c.toNat := by
    rcases isValidAccountName_chars h c hc with rfl | hlower | hdigit | rfl
    · decide
    · unfold isLowerCase at hlower
      rw [Bool.and_eq_true, decide_eq_true_iff, decide_eq_true_iff, hcode] at hlower
      exact (by decide : 45 ≤ 'a'.toNat).trans hlower.1
    · unfold isDigit at hdigit
      rw [Bool.and_eq_true, decide_eq_true_iff, decide_eq_true_iff, hcode] at hdigit
      exact (by decide : 45 ≤ '0'.toNat).trans hdigit.1
    · decide
  unfold isBlank
  rw [Bool.or_eq_false_iff, decide_eq_false_iff_not, Bool.and_eq_false_iff,
    decide_eq_false_iff_not, decide_eq_false_iff_not, hcode, hcode]
  constructor
  · rintro rfl
    exact absurd hlow (by decide)
  · have hcr : '\r'.toNat = 13 := rfl
    omega

/-! ## The numbered names -/

theorem toNat_of_isDigit {c : Char} (h : c.isDigit = true) : c.toNat < 128 := by
  unfold Char.isDigit at h
  rw [Bool.and_eq_true, decide_eq_true_iff, decide_eq_true_iff] at h
  have hle := UInt32.le_iff_toNat_le.1 h.2
  exact Nat.lt_of_le_of_lt hle (by decide)

theorem toString_chars (k : Int) : ∃ sign digits : List Char, (toString k).toList = sign ++ digits ∧
    (sign = [] ∨ sign = ['-']) ∧ digits ≠ [] ∧ (∀ c ∈ digits, c.isDigit = true) ∧
    digits = Nat.toDigits 10 k.natAbs := by
  cases k with
  | ofNat n =>
    refine ⟨[], Nat.toDigits 10 n, ?_, .inl rfl, Nat.toDigits_ne_nil, ?_, rfl⟩
    · show (Nat.repr n).toList = _
      rw [Nat.toList_repr]
      rfl
    · exact fun c hc => Nat.isDigit_of_mem_toDigits (by decide) (by decide) hc
  | negSucc n =>
    refine ⟨['-'], Nat.toDigits 10 (n + 1), ?_, .inr rfl, Nat.toDigits_ne_nil, ?_, rfl⟩
    · show ("-" ++ Nat.repr (n + 1)).toList = _
      rw [String.toList_append, Nat.toList_repr]
      rfl
    · exact fun c hc => Nat.isDigit_of_mem_toDigits (by decide) (by decide) hc

/-- **A numbered name** is valid. -/
theorem isValidAccountName_numbered {k : Int} (hlow : -2 ^ 31 ≤ k) (hhigh : k ≤ 2 ^ 31) :
    isValidAccountName ("n" ++ toString k ++ ".anonymous") = true := by
  obtain ⟨sign, digits, htext, hsign, hne, hdigits, heq⟩ := toString_chars k
  have hcount : digits.length ≤ 10 := by
    rw [heq, Nat.length_toDigits_le_iff (by decide) (by decide)]
    omega
  have hsize : sign.length ≤ 1 := by
    rcases hsign with rfl | rfl <;> simp
  have hlist : ("n" ++ toString k ++ ".anonymous").toList =
      ('n' :: (sign ++ digits)) ++ '.' :: "anonymous".toList := by
    rw [String.toList_append, String.toList_append, htext]
    rfl
  have hchars : ∀ c ∈ sign ++ digits, c = '-' ∨ c.isDigit = true := by
    intro c hc
    rcases List.mem_append.1 hc with hc | hc
    · rcases hsign with rfl | rfl
      · exact absurd hc List.not_mem_nil
      · exact .inl (List.mem_singleton.1 hc)
    · exact .inr (hdigits c hc)
  have hnodot : '.' ∉ 'n' :: (sign ++ digits) := by
    intro hmem
    rcases List.mem_cons.1 hmem with heq | hmem
    · exact absurd heq (by decide)
    · rcases hchars _ hmem with heq | hdigit
      · exact absurd heq (by decide)
      · exact absurd hdigit (by decide)
  have hascii : ∀ c ∈ ("n" ++ toString k ++ ".anonymous").toList, c.toNat < 128 := by
    intro c hc
    rw [hlist] at hc
    have hrest : ('.' :: "anonymous".toList).all (fun d => decide (d.toNat < 128)) = true := by decide
    rcases List.mem_append.1 hc with hc | hc
    · rcases List.mem_cons.1 hc with rfl | hc
      · decide
      · rcases hchars c hc with rfl | hdigit
        · decide
        · exact toNat_of_isDigit hdigit
    · exact of_decide_eq_true (List.all_eq_true.1 hrest c hc)
  rw [isValidAccountName_eq, utf8ByteSize_of_ascii hascii, hlist, List.length_append,
    List.length_cons, List.length_append]
  have htail : ('.' :: "anonymous".toList).length = 10 := by decide
  have hpositive : 0 < digits.length := List.length_pos_iff.2 hne
  refine ⟨by omega, by omega, ?_⟩
  rw [splitDots_append hnodot]
  intro label hlabel
  rcases List.mem_cons.1 hlabel with rfl | hlabel
  · rw [isValidLabel_eq]
    have hlast : ('n' :: (sign ++ digits)).getLast? = some (digits.getLast hne) := by
      rw [← List.cons_append, List.getLast?_append_of_ne_nil _ hne,
        List.getLast?_eq_some_getLast hne]
    refine ⟨?_, ⟨'n', rfl, by decide⟩, ⟨_, hlast, .inr (hdigits _ (List.getLast_mem hne))⟩, ?_⟩
    · rw [List.length_cons, List.length_append]
      omega
    · intro c hc
      rcases hchars c (List.dropLast_subset _ hc) with heq | hdigit
      · exact .inr (.inr heq)
      · exact .inr (.inl hdigit)
  · have hrest : (splitDots "anonymous".toList).all isValidLabel = true := by decide
    exact List.all_eq_true.1 hrest label hlabel

/-- The parent of a numbered name. -/
theorem splitAtFirst_numbered (k : Int) :
    splitAtFirst '.' ("n" ++ toString k ++ ".anonymous") =
      some ("n" ++ toString k, "anonymous") := by
  have hlabel : '.' ∉ ("n" ++ toString k).toList := by
    obtain ⟨sign, digits, htext, hsign, -, hdigits, -⟩ := toString_chars k
    rw [String.toList_append, htext]
    intro hmem
    rcases List.mem_append.1 hmem with hmem | hmem
    · exact absurd hmem (by decide)
    · rcases List.mem_append.1 hmem with hmem | hmem
      · rcases hsign with rfl | rfl
        · exact absurd hmem List.not_mem_nil
        · exact absurd (List.mem_singleton.1 hmem) (by decide)
      · exact absurd (hdigits _ hmem) (by decide)
  have htext : ".anonymous" = String.singleton '.' ++ "anonymous" := by decide
  rw [htext]
  exact splitAtFirst_append hlabel

end VizCore.Protocol
