import Mathlib.Tactic

/-!
# Object tables

An object database keeps rows in the order of their ids and hands out a fresh id
for every new row.  Rows are read, modified and removed by a key; where several
rows carry the key the first one is meant.

* `sum_update`, `sum_erase`: what changing or removing one row does to a total;
* `get_update_same`, `get_update_ne`: reading back after a change;
* `all_update`: a property of all rows is kept when the changed row keeps it.
-/

namespace VizCore.Lib

structure Table (α : Type) where
  rows : List α := []
  nextId : Nat := 0
  deriving DecidableEq

namespace Table

variable {α κ : Type} [DecidableEq κ]

def get (t : Table α) (key : α → κ) (k : κ) : Option α := t.rows.find? fun x => key x = k

/-- Apply `f` to the first row with the key `k`. -/
def updateRows (key : α → κ) (k : κ) (f : α → α) : List α → List α
  | [] => []
  | x :: rest => if key x = k then f x :: rest else x :: updateRows key k f rest

def update (t : Table α) (key : α → κ) (k : κ) (f : α → α) : Table α :=
  { t with rows := updateRows key k f t.rows }

def erase (t : Table α) (key : α → κ) (k : κ) : Table α :=
  { t with rows := t.rows.eraseP fun x => key x = k }

/-- A new row, built from its id. -/
def create (t : Table α) (mk : Nat → α) : Table α :=
  { rows := t.rows ++ [mk t.nextId], nextId := t.nextId + 1 }

def map (t : Table α) (f : α → α) : Table α := { t with rows := t.rows.map f }

def filter (t : Table α) (p : α → Bool) : Table α := { t with rows := t.rows.filter p }

def sum (t : Table α) (g : α → Int) : Int := (t.rows.map g).sum

def All (t : Table α) (P : α → Prop) : Prop := ∀ x ∈ t.rows, P x

instance (t : Table α) (P : α → Prop) [DecidablePred P] : Decidable (t.All P) :=
  inferInstanceAs (Decidable (∀ x ∈ t.rows, P x))

/-! ## Reading -/

theorem get_mem {t : Table α} {key : α → κ} {k : κ} {x : α} (h : t.get key k = some x) :
    x ∈ t.rows :=
  List.mem_of_find?_eq_some h

theorem get_key {t : Table α} {key : α → κ} {k : κ} {x : α} (h : t.get key k = some x) :
    key x = k := by
  simpa using List.find?_some h

theorem get_update_same (t : Table α) (key : α → κ) (k : κ) (f : α → α)
    (hkey : ∀ x, key (f x) = key x) : (t.update key k f).get key k = (t.get key k).map f := by
  obtain ⟨rows, n⟩ := t
  simp only [get, update]
  induction rows with
  | nil => rfl
  | cons x rest ih =>
    unfold updateRows
    by_cases h : key x = k
    · simp [h, hkey]
    · rw [if_neg h]
      simp [h, ih]

theorem get_update_ne (t : Table α) (key : α → κ) {k k' : κ} (f : α → α) (hne : k' ≠ k)
    (hkey : ∀ x, key (f x) = key x) : (t.update key k f).get key k' = t.get key k' := by
  obtain ⟨rows, n⟩ := t
  simp only [get, update]
  induction rows with
  | nil => rfl
  | cons x rest ih =>
    unfold updateRows
    by_cases h : key x = k
    · simp [h, hkey, Ne.symm hne]
    · rw [if_neg h]
      by_cases h' : key x = k'
      · simp [h']
      · simp [h', ih]

/-- A change adds no rows. -/
theorem get_update_eq_none (t : Table α) (key : α → κ) (k k' : κ) (f : α → α)
    (hkey : ∀ x, key (f x) = key x) :
    (t.update key k f).get key k' = none ↔ t.get key k' = none := by
  by_cases h : k' = k
  · rw [h, get_update_same t key k f hkey, Option.map_eq_none_iff]
  · rw [get_update_ne t key f h hkey]

/-- Only what the change does to the row that is read matters. -/
theorem update_congr (t : Table α) (key : α → κ) (k : κ) (f g : α → α)
    (h : ∀ x, t.get key k = some x → f x = g x) : t.update key k f = t.update key k g := by
  obtain ⟨rows, n⟩ := t
  simp only [get, update, mk.injEq, and_true] at h ⊢
  induction rows with
  | nil => rfl
  | cons x rest ih =>
    unfold updateRows
    by_cases hx : key x = k
    · rw [if_pos hx, if_pos hx, h x (by simp [hx])]
    · rw [if_neg hx, if_neg hx, ih fun y hy => h y (by simpa [hx] using hy)]

theorem update_update (t : Table α) (key : α → κ) (k : κ) (f g : α → α)
    (hkey : ∀ x, key (f x) = key x) :
    (t.update key k f).update key k g = t.update key k fun x => g (f x) := by
  obtain ⟨rows, n⟩ := t
  simp only [update, mk.injEq, and_true]
  induction rows with
  | nil => rfl
  | cons x rest ih =>
    by_cases hx : key x = k
    · simp [updateRows, hx, hkey]
    · simp [updateRows, hx, ih]

/-- A row that is not named is as it was. -/
theorem get_foldl_update_ne {β : Type} (key : α → κ) (name : β → κ) (f : β → α → α)
    (hkey : ∀ b x, key (f b x) = key x) {l : List β} {k : κ} (hk : ∀ b ∈ l, k ≠ name b)
    (t : Table α) :
    (l.foldl (fun t b => t.update key (name b) (f b)) t).get key k = t.get key k := by
  induction l generalizing t with
  | nil => rfl
  | cons c l ih =>
    rw [List.foldl_cons, ih fun b hb => hk b (List.mem_cons_of_mem c hb),
      get_update_ne t key (f c) (hk c List.mem_cons_self) (hkey c)]

/-- A run of changes to different rows: a row that is named gets its own change. -/
theorem get_foldl_update {β : Type} (key : α → κ) (name : β → κ) (f : β → α → α)
    (hkey : ∀ b x, key (f b x) = key x) {l : List β} (hnodup : (l.map name).Nodup)
    (t : Table α) {b : β} (hb : b ∈ l) :
    (l.foldl (fun t b => t.update key (name b) (f b)) t).get key (name b) =
      (t.get key (name b)).map (f b) := by
  induction l generalizing t with
  | nil => cases hb
  | cons c l ih =>
    rw [List.map_cons, List.nodup_cons] at hnodup
    rw [List.foldl_cons]
    rcases List.mem_cons.1 hb with rfl | hb
    · have hne : ∀ c ∈ l, name b ≠ name c := fun c hc heq =>
        hnodup.1 (heq ▸ List.mem_map_of_mem hc)
      rw [get_foldl_update_ne key name f hkey hne, get_update_same t key _ (f b) (hkey b)]
    · have hne : name b ≠ name c := fun heq => hnodup.1 (heq ▸ List.mem_map_of_mem hb)
      rw [ih hnodup.2 _ hb, get_update_ne t key (f c) hne (hkey c)]

/-! ## Images of rows -/

/-- The table of the images of the rows. -/
def image {β : Type} (t : Table α) (φ : α → β) : Table β :=
  { rows := t.rows.map φ, nextId := t.nextId }

theorem image_image {β γ : Type} (t : Table α) (φ : α → β) (ψ : β → γ) :
    (t.image φ).image ψ = t.image fun x => ψ (φ x) := by
  simp [image]

theorem get_image {β : Type} (t : Table α) (φ : α → β) (key : β → κ) (k : κ) :
    (t.image φ).get key k = (t.get (fun x => key (φ x)) k).map φ := by
  simp only [get, image, List.find?_map]
  rfl

theorem image_update {β : Type} (t : Table α) (φ : α → β) (key : β → κ) (k : κ) (f : α → α)
    (g : β → β) (h : ∀ x, φ (f x) = g (φ x)) :
    (t.update (fun x => key (φ x)) k f).image φ = (t.image φ).update key k g := by
  obtain ⟨rows, n⟩ := t
  simp only [image, update, mk.injEq, and_true]
  induction rows with
  | nil => rfl
  | cons x rest ih =>
    by_cases hx : key (φ x) = k
    · simp [updateRows, hx, h]
    · simp [updateRows, hx, ih]

/-- A change that the image does not show. -/
theorem image_update_of_same {β : Type} {κ' : Type} [DecidableEq κ'] (t : Table α) (φ : α → β)
    (key : α → κ') (k : κ') (f : α → α) (h : ∀ x, φ (f x) = φ x) :
    (t.update key k f).image φ = t.image φ := by
  obtain ⟨rows, n⟩ := t
  simp only [image, update, mk.injEq, and_true]
  induction rows with
  | nil => rfl
  | cons x rest ih =>
    unfold updateRows
    split
    · simp [h]
    · rw [List.map_cons, List.map_cons, ih]

theorem image_create {β : Type} (t : Table α) (φ : α → β) (mk : Nat → α) :
    (t.create mk).image φ = (t.image φ).create fun id => φ (mk id) := by
  simp [create, image]

theorem sum_image {β : Type} (t : Table α) (φ : α → β) (g : β → Int) :
    (t.image φ).sum g = t.sum fun x => g (φ x) := by
  simp [sum, image, Function.comp_def]

/-! ## Totals -/

theorem sum_update (t : Table α) (key : α → κ) (k : κ) (f : α → α) (g : α → Int) {x : α}
    (h : t.get key k = some x) : (t.update key k f).sum g = t.sum g + (g (f x) - g x) := by
  obtain ⟨rows, n⟩ := t
  simp only [get, update, sum] at h ⊢
  induction rows with
  | nil => simp at h
  | cons y rest ih =>
    unfold updateRows
    by_cases hy : key y = k
    · simp only [hy, decide_true, List.find?_cons_of_pos, Option.some.injEq] at h
      subst h
      simp only [hy, ↓reduceIte, List.map_cons, List.sum_cons]
      omega
    · simp only [hy, decide_false, Bool.false_eq_true, not_false_eq_true,
        List.find?_cons_of_neg] at h
      rw [if_neg hy, List.map_cons, List.sum_cons, ih h, List.map_cons, List.sum_cons]
      omega

theorem update_of_get_none (t : Table α) (key : α → κ) (k : κ) (f : α → α)
    (h : t.get key k = none) : t.update key k f = t := by
  obtain ⟨rows, n⟩ := t
  simp only [get, update, mk.injEq, and_true] at h ⊢
  induction rows with
  | nil => rfl
  | cons y rest ih =>
    simp only [List.find?_eq_none, List.mem_cons, decide_eq_true_eq] at h ih
    unfold updateRows
    rw [if_neg (h y (.inl rfl)), ih fun x hx => h x (.inr hx)]

/-- A change that leaves `g` alone leaves its total alone. -/
theorem sum_update_of_same (t : Table α) (key : α → κ) (k : κ) (f : α → α) (g : α → Int)
    (hg : ∀ x, g (f x) = g x) : (t.update key k f).sum g = t.sum g := by
  cases h : t.get key k with
  | none => rw [update_of_get_none t key k f h]
  | some x =>
    rw [sum_update t key k f g h, hg]
    omega

theorem sum_erase (t : Table α) (key : α → κ) (k : κ) (g : α → Int) {x : α}
    (h : t.get key k = some x) : (t.erase key k).sum g = t.sum g - g x := by
  obtain ⟨rows, n⟩ := t
  simp only [get, erase, sum] at h ⊢
  induction rows with
  | nil => simp at h
  | cons y rest ih =>
    by_cases hy : key y = k
    · simp only [hy, decide_true, List.find?_cons_of_pos, Option.some.injEq] at h
      subst h
      simp [hy]
    · simp only [hy, decide_false, Bool.false_eq_true, not_false_eq_true,
        List.find?_cons_of_neg] at h
      simp only [hy, decide_false, Bool.false_eq_true, not_false_eq_true, List.eraseP_cons_of_neg,
        List.map_cons, List.sum_cons, ih h]
      omega

@[simp] theorem sum_create (t : Table α) (mk : Nat → α) (g : α → Int) :
    (t.create mk).sum g = t.sum g + g (mk t.nextId) := by
  simp [create, sum]

/-- Rows that carry nothing may be dropped. -/
theorem sum_filter_of_zero (t : Table α) (p : α → Bool) (g : α → Int)
    (h : ∀ x ∈ t.rows, p x = false → g x = 0) : (t.filter p).sum g = t.sum g := by
  obtain ⟨rows, n⟩ := t
  simp only [sum, filter] at h ⊢
  induction rows with
  | nil => rfl
  | cons x rest ih =>
    have hrest := ih fun y hy => h y (List.mem_cons_of_mem x hy)
    cases hx : p x with
    | true => simp [hx, hrest]
    | false => simp [hx, hrest, h x List.mem_cons_self hx]

theorem sum_nonneg {t : Table α} {g : α → Int} (h : t.All fun x => 0 ≤ g x) : 0 ≤ t.sum g := by
  refine List.sum_nonneg fun y hy => ?_
  obtain ⟨x, hx, rfl⟩ := List.mem_map.1 hy
  exact h x hx

theorem le_sum_of_mem {t : Table α} {g : α → Int} (h : t.All fun x => 0 ≤ g x) {x : α}
    (hx : x ∈ t.rows) : g x ≤ t.sum g := by
  refine List.single_le_sum (fun y hy => ?_) _ (List.mem_map_of_mem hx)
  obtain ⟨z, hz, rfl⟩ := List.mem_map.1 hy
  exact h z hz

/-! ## Amounts by key -/

/-- The amount in the row with the key `k`, zero where there is none. -/
def field (t : Table α) (key : α → κ) (g : α → Int) (k : κ) : Int := ((t.get key k).map g).getD 0

/-- The total over the rows that belong to `k`. -/
def total (t : Table α) (owner : α → κ) (g : α → Int) (k : κ) : Int :=
  t.sum fun x => if owner x = k then g x else 0

theorem field_of_get {t : Table α} {key : α → κ} {k : κ} {x : α} (h : t.get key k = some x)
    (g : α → Int) : t.field key g k = g x := by
  unfold field
  rw [h]
  rfl

theorem field_of_none {t : Table α} {key : α → κ} {k : κ} (h : t.get key k = none)
    (g : α → Int) : t.field key g k = 0 := by
  unfold field
  rw [h]
  rfl

theorem field_update_ne (t : Table α) (key : α → κ) {k k' : κ} (f : α → α) (g : α → Int)
    (hne : k' ≠ k) (hkey : ∀ x, key (f x) = key x) :
    (t.update key k f).field key g k' = t.field key g k' := by
  unfold field
  rw [get_update_ne t key f hne hkey]

theorem field_update_same {t : Table α} {key : α → κ} {k : κ} {x : α} (h : t.get key k = some x)
    (f : α → α) (g : α → Int) (hkey : ∀ x, key (f x) = key x) :
    (t.update key k f).field key g k = g (f x) := by
  refine field_of_get ?_ g
  rw [get_update_same t key k f hkey, h]
  rfl

/-- A change that leaves `g` alone leaves the field alone. -/
theorem field_update_of_same (t : Table α) (key : α → κ) (k k' : κ) (f : α → α) (g : α → Int)
    (hkey : ∀ x, key (f x) = key x) (hg : ∀ x, g (f x) = g x) :
    (t.update key k f).field key g k' = t.field key g k' := by
  by_cases h : k' = k
  · subst h
    unfold field
    rw [get_update_same t key k' f hkey]
    cases t.get key k' with
    | none => rfl
    | some x => exact hg x
  · exact field_update_ne t key f g h hkey

/-- A change that adds `d` to the field of one row. -/
theorem field_update_add {t : Table α} {key : α → κ} {k : κ} {x : α} (h : t.get key k = some x)
    (f : α → α) (g : α → Int) (d : Int) (hkey : ∀ x, key (f x) = key x)
    (hg : g (f x) = g x + d) (k' : κ) :
    (t.update key k f).field key g k' = t.field key g k' + if k' = k then d else 0 := by
  by_cases hk : k' = k
  · rw [if_pos hk, hk, field_update_same h f g hkey, field_of_get h g, hg]
  · rw [if_neg hk, field_update_ne t key f g hk hkey, add_zero]

theorem get_create_same {t : Table α} {key : α → κ} {k : κ} (h : t.get key k = none)
    {mk : Nat → α} (hmk : key (mk t.nextId) = k) :
    (t.create mk).get key k = some (mk t.nextId) := by
  unfold get at h ⊢
  simp [create, List.find?_append, h, hmk]

theorem get_create_ne (t : Table α) (key : α → κ) {k : κ} {mk : Nat → α}
    (hmk : key (mk t.nextId) ≠ k) : (t.create mk).get key k = t.get key k := by
  unfold get
  simp [create, List.find?_append, hmk]

/-- A new row with a new key. -/
theorem field_create {t : Table α} {key : α → κ} {k : κ} (h : t.get key k = none) (g : α → Int)
    {mk : Nat → α} (hmk : key (mk t.nextId) = k) (k' : κ) :
    (t.create mk).field key g k' =
      t.field key g k' + if k' = k then g (mk t.nextId) else 0 := by
  by_cases hk : k' = k
  · subst hk
    rw [if_pos rfl, field_of_get (get_create_same h hmk), field_of_none h, zero_add]
  · rw [if_neg hk, add_zero]
    unfold field
    rw [get_create_ne t key (by rw [hmk]; exact Ne.symm hk)]

theorem total_nonneg {t : Table α} {g : α → Int} (h : t.All fun x => 0 ≤ g x) (owner : α → κ)
    (k : κ) : 0 ≤ t.total owner g k := by
  refine sum_nonneg fun x hx => ?_
  show 0 ≤ if owner x = k then g x else 0
  split
  · exact h x hx
  · exact le_refl 0

theorem total_create (t : Table α) (owner : α → κ) (g : α → Int) (mk : Nat → α) (k : κ) :
    (t.create mk).total owner g k =
      t.total owner g k + if owner (mk t.nextId) = k then g (mk t.nextId) else 0 :=
  sum_create t mk _

theorem total_update {κ' : Type} [DecidableEq κ'] {t : Table α} {key : α → κ'} {k' : κ'} {x : α}
    (h : t.get key k' = some x) (owner : α → κ) (g : α → Int) (f : α → α) (k : κ) :
    (t.update key k' f).total owner g k = t.total owner g k +
      ((if owner (f x) = k then g (f x) else 0) - if owner x = k then g x else 0) :=
  sum_update t key k' f _ h

/-- A change that leaves owner and amount alone leaves the totals alone. -/
theorem total_update_of_same {κ' : Type} [DecidableEq κ'] (t : Table α) (key : α → κ') (k' : κ')
    (owner : α → κ) (g : α → Int) (f : α → α) (howner : ∀ x, owner (f x) = owner x)
    (hg : ∀ x, g (f x) = g x) (k : κ) :
    (t.update key k' f).total owner g k = t.total owner g k := by
  refine sum_update_of_same t key k' f _ fun x => ?_
  rw [howner, hg]

theorem total_erase {κ' : Type} [DecidableEq κ'] {t : Table α} {key : α → κ'} {k' : κ'} {x : α}
    (h : t.get key k' = some x) (owner : α → κ) (g : α → Int) (k : κ) :
    (t.erase key k').total owner g k = t.total owner g k - if owner x = k then g x else 0 :=
  sum_erase t key k' _ h

theorem sum_congr {t : Table α} {g g' : α → Int} (h : ∀ x ∈ t.rows, g x = g' x) :
    t.sum g = t.sum g' := by
  unfold sum
  rw [List.map_congr_left h]

/-- Where no row belongs to `k` the total is zero. -/
theorem total_of_absent {t : Table α} {owner : α → κ} {k : κ} (g : α → Int)
    (h : ∀ x ∈ t.rows, owner x ≠ k) : t.total owner g k = 0 := by
  have hzero : t.total owner g k = t.sum fun _ => 0 :=
    sum_congr fun x hx => if_neg (h x hx)
  rw [hzero]
  simp [sum]

/-- Two totals may be taken in either order. -/
theorem sum_comm {β : Type} (t : Table α) (u : Table β) (g : α → β → Int) :
    (t.sum fun x => u.sum (g x)) = u.sum fun y => t.sum fun x => g x y := by
  have h := Multiset.sum_map_sum_map (t.rows : Multiset α) (u.rows : Multiset β) (f := g)
  simp only [Multiset.map_coe, Multiset.sum_coe] at h
  exact h

/-! ## Properties of all rows -/

theorem mem_update {t : Table α} {key : α → κ} {k : κ} {f : α → α} {y : α}
    (h : y ∈ (t.update key k f).rows) :
    y ∈ t.rows ∨ ∃ x, t.get key k = some x ∧ y = f x := by
  obtain ⟨rows, n⟩ := t
  simp only [get, update] at h ⊢
  induction rows with
  | nil => exact .inl h
  | cons x rest ih =>
    unfold updateRows at h
    by_cases hx : key x = k
    · rw [if_pos hx, List.mem_cons] at h
      rcases h with rfl | h
      · exact .inr ⟨x, by simp [hx], rfl⟩
      · exact .inl (List.mem_cons_of_mem x h)
    · rw [if_neg hx, List.mem_cons] at h
      rcases h with rfl | h
      · exact .inl List.mem_cons_self
      · rcases ih h with h | ⟨z, hz, rfl⟩
        · exact .inl (List.mem_cons_of_mem x h)
        · exact .inr ⟨z, by simp [hx, hz], rfl⟩

/-- Rows with another key stay. -/
theorem mem_update_of_ne {t : Table α} {key : α → κ} {k : κ} {f : α → α} {x : α}
    (hx : x ∈ t.rows) (hne : key x ≠ k) : x ∈ (t.update key k f).rows := by
  obtain ⟨rows, n⟩ := t
  simp only [update] at hx ⊢
  induction rows with
  | nil => exact hx
  | cons y rest ih =>
    unfold updateRows
    split
    · rename_i hy
      rcases List.mem_cons.1 hx with rfl | hx
      · exact absurd hy hne
      · exact List.mem_cons_of_mem _ hx
    · rcases List.mem_cons.1 hx with rfl | hx
      · exact List.mem_cons_self
      · exact List.mem_cons_of_mem _ (ih hx)

theorem mem_erase_of_ne {t : Table α} {key : α → κ} {k : κ} {x : α} (hx : x ∈ t.rows)
    (hne : key x ≠ k) : x ∈ (t.erase key k).rows :=
  (List.mem_eraseP_of_neg (by simpa using hne)).2 hx

theorem all_update {t : Table α} {key : α → κ} {k : κ} {f : α → α} {P : α → Prop}
    (h : t.All P) (hf : ∀ x, t.get key k = some x → P x → P (f x)) :
    (t.update key k f).All P := by
  intro y hy
  rcases mem_update hy with hy | ⟨x, hx, rfl⟩
  · exact h y hy
  · exact hf x hx (h x (get_mem hx))

theorem all_erase {t : Table α} {key : α → κ} {k : κ} {P : α → Prop} (h : t.All P) :
    (t.erase key k).All P :=
  fun x hx => h x (List.mem_of_mem_eraseP hx)

theorem all_create {t : Table α} {mk : Nat → α} {P : α → Prop} (h : t.All P)
    (hmk : P (mk t.nextId)) : (t.create mk).All P := by
  intro x hx
  simp only [create, List.mem_append, List.mem_singleton] at hx
  rcases hx with hx | rfl
  · exact h x hx
  · exact hmk

theorem all_filter {t : Table α} {p : α → Bool} {P : α → Prop} (h : t.All P) :
    (t.filter p).All P :=
  fun x hx => h x (List.mem_of_mem_filter hx)

/-! ## Unique keys -/

/-- No two rows carry the same key. -/
def Keyed (t : Table α) (key : α → κ) : Prop := (t.rows.map key).Nodup

namespace Keyed

variable {t : Table α} {key : α → κ}

/-- A row is found by its key. -/
theorem get (h : t.Keyed key) {x : α} (hx : x ∈ t.rows) : t.get key (key x) = some x := by
  obtain ⟨rows, n⟩ := t
  simp only [Keyed, Table.get] at h hx ⊢
  induction rows with
  | nil => simp at hx
  | cons y rest ih =>
    rw [List.map_cons, List.nodup_cons] at h
    rcases List.mem_cons.1 hx with rfl | hx
    · simp
    · have hne : key y ≠ key x := by
        intro heq
        exact h.1 (heq ▸ List.mem_map_of_mem hx)
      rw [List.find?_cons_of_neg (by simpa using hne)]
      exact ih h.2 hx

/-- With unique keys at most one row adds to a total by key. -/
theorem total_eq_field (h : t.Keyed key) (g : α → Int) (k : κ) :
    t.total key g k = t.field key g k := by
  obtain ⟨rows, n⟩ := t
  simp only [Keyed, total, sum, field, Table.get] at h ⊢
  induction rows with
  | nil => rfl
  | cons y rest ih =>
    rw [List.map_cons, List.nodup_cons] at h
    rw [List.map_cons, List.sum_cons, ih h.2]
    by_cases hy : key y = k
    · have hnone : rest.find? (fun x => key x = k) = none := by
        refine List.find?_eq_none.2 fun x hx => ?_
        intro heq
        have hxk : key x = k := by simpa using heq
        exact h.1 (hy.trans hxk.symm ▸ List.mem_map_of_mem hx)
      simp [hy, hnone]
    · simp [hy]

omit [DecidableEq κ] in
theorem of_keys {t' : Table α} (h : t.Keyed key) (hkeys : t'.rows.map key = t.rows.map key) :
    t'.Keyed key := by
  unfold Keyed
  rw [hkeys]
  exact h

theorem create (h : t.Keyed key) {mk : Nat → α} {k : κ} (hnew : t.get key k = none)
    (hmk : key (mk t.nextId) = k) : (t.create mk).Keyed key := by
  show ((t.rows ++ [mk t.nextId]).map key).Nodup
  rw [List.map_append, List.nodup_append]
  refine ⟨h, by simp, ?_⟩
  intro a ha b hb heq
  rw [List.map_singleton, List.mem_singleton, hmk] at hb
  obtain ⟨x, hx, rfl⟩ := List.mem_map.1 ha
  have hnone := List.find?_eq_none.1 hnew x hx
  simp [heq, hb] at hnone

end Keyed

theorem updateRows_map {β : Type} (key : α → κ) (k : κ) (f : α → α) (g : α → β)
    (hf : ∀ x, g (f x) = g x) (l : List α) : (updateRows key k f l).map g = l.map g := by
  induction l with
  | nil => rfl
  | cons x rest ih =>
    unfold updateRows
    split
    · simp [hf]
    · simp [ih]

/-- A field that the change of the row keeps. -/
theorem map_update {β : Type} (t : Table α) (key : α → κ) (k : κ) (f : α → α) (g : α → β)
    (hf : ∀ x, t.get key k = some x → g (f x) = g x) :
    (t.update key k f).rows.map g = t.rows.map g := by
  obtain ⟨rows, n⟩ := t
  simp only [get, update] at hf ⊢
  induction rows with
  | nil => rfl
  | cons x rest ih =>
    unfold updateRows
    by_cases h : key x = k
    · rw [if_pos h, List.map_cons, List.map_cons, hf x (by simp [h])]
    · rw [if_neg h, List.map_cons, List.map_cons, ih]
      intro y hy
      exact hf y (by simpa [h] using hy)

theorem get_eq_none_iff {t : Table α} {key : α → κ} {k : κ} :
    t.get key k = none ↔ k ∉ t.rows.map key := by
  simp [get, List.find?_eq_none]

/-- The rows of a table with unique keys after one of them has changed. -/
theorem Keyed.mem_update {t : Table α} {key : α → κ} {k : κ} {f : α → α} {x y : α}
    (h : t.Keyed key) (hkey : ∀ z, key (f z) = key z) (hx : t.get key k = some x)
    (hy : y ∈ (t.update key k f).rows) : y = f x ∨ y ∈ t.rows ∧ key y ≠ k := by
  have hkeyed : (t.update key k f).Keyed key := h.of_keys (updateRows_map key k f key hkey t.rows)
  have hget := hkeyed.get hy
  by_cases hk : key y = k
  · rw [hk, get_update_same t key k f hkey, hx, Option.map_some, Option.some.injEq] at hget
    exact .inl hget.symm
  · rw [get_update_ne t key f hk hkey] at hget
    exact .inr ⟨get_mem hget, hk⟩

/-- A key is gone with its row. -/
theorem Keyed.ne_of_mem_erase {t : Table α} {key : α → κ} (h : t.Keyed key) {k : κ} {x : α}
    (hx : x ∈ (t.erase key k).rows) : key x ≠ k := by
  obtain ⟨rows, n⟩ := t
  simp only [Table.erase] at hx
  unfold Keyed at h
  induction rows with
  | nil => cases hx
  | cons y rest ih =>
    rw [List.map_cons, List.nodup_cons] at h
    by_cases hy : key y = k
    · rw [List.eraseP_cons_of_pos (by simpa using hy)] at hx
      intro heq
      exact h.1 (hy.trans heq.symm ▸ List.mem_map_of_mem hx)
    · rw [List.eraseP_cons_of_neg (by simpa using hy)] at hx
      rcases List.mem_cons.1 hx with rfl | hx
      · exact hy
      · exact ih h.2 hx

theorem Keyed.erase {κ' : Type} [DecidableEq κ'] {t : Table α} {key : α → κ} (h : t.Keyed key)
    (key' : α → κ') (k : κ') : (t.erase key' k).Keyed key :=
  h.sublist ((List.eraseP_sublist).map key)

theorem Keyed.get_erase_same {t : Table α} {key : α → κ} (h : t.Keyed key) (k : κ) :
    (t.erase key k).get key k = none := by
  rw [get_eq_none_iff]
  intro hk
  obtain ⟨x, hx, hxk⟩ := List.mem_map.1 hk
  exact h.ne_of_mem_erase hx hxk

theorem get_erase_ne (t : Table α) (key : α → κ) {k k' : κ} (hne : k' ≠ k) :
    (t.erase key k).get key k' = t.get key k' := by
  obtain ⟨rows, n⟩ := t
  simp only [get, Table.erase]
  induction rows with
  | nil => rfl
  | cons x rest ih =>
    by_cases hx : key x = k
    · have hx' : key x ≠ k' := fun h => hne (h.symm.trans hx)
      rw [List.eraseP_cons_of_pos (by simpa using hx), List.find?_cons_of_neg (by simpa using hx')]
    · rw [List.eraseP_cons_of_neg (by simpa using hx)]
      by_cases hx' : key x = k'
      · simp [hx']
      · simp [hx', ih]

/-- Where two fields are unique, a row is the same row by either of them. -/
theorem update_by_other {κ' : Type} [DecidableEq κ'] {t : Table α} {key : α → κ} {key' : α → κ'}
    (h : t.Keyed key) (h' : t.Keyed key') {x : α} (hx : x ∈ t.rows) (f : α → α) :
    t.update key (key x) f = t.update key' (key' x) f := by
  obtain ⟨rows, n⟩ := t
  simp only [Table.update, Keyed] at h h' hx ⊢
  congr 1
  induction rows with
  | nil => cases hx
  | cons y rest ih =>
    rw [List.map_cons, List.nodup_cons] at h h'
    unfold updateRows
    rcases List.mem_cons.1 hx with rfl | hx
    · rw [if_pos rfl, if_pos rfl]
    · have hne : key y ≠ key x := fun heq => h.1 (heq ▸ List.mem_map_of_mem hx)
      have hne' : key' y ≠ key' x := fun heq => h'.1 (heq ▸ List.mem_map_of_mem hx)
      rw [if_neg hne, if_neg hne', ih h.2 h'.2 hx]

/-! ## Numbered rows -/

/-- The ids of the rows are the numbers that have been handed out, each at most once. -/
structure Numbered (t : Table α) (id : α → Nat) : Prop where
  nodup : (t.rows.map id).Nodup
  below : t.All fun x => id x < t.nextId

namespace Numbered

variable {t : Table α} {id : α → Nat}

/-- A row is found by its id. -/
theorem get (h : t.Numbered id) {x : α} (hx : x ∈ t.rows) : t.get id (id x) = some x :=
  Keyed.get h.nodup hx

theorem of_ids {t' : Table α} (h : t.Numbered id) (hids : t'.rows.map id = t.rows.map id)
    (hnext : t'.nextId = t.nextId) : t'.Numbered id := by
  constructor
  · rw [hids]
    exact h.nodup
  · intro x hx
    have hmem : id x ∈ t.rows.map id := hids ▸ List.mem_map_of_mem hx
    obtain ⟨y, hy, heq⟩ := List.mem_map.1 hmem
    show id x < t'.nextId
    rw [hnext, ← heq]
    exact h.below y hy

theorem update {κ : Type} [DecidableEq κ] (h : t.Numbered id) (key : α → κ) (k : κ) (f : α → α)
    (hf : ∀ x, id (f x) = id x) : (t.update key k f).Numbered id := by
  constructor
  · show ((updateRows key k f t.rows).map id).Nodup
    rw [updateRows_map key k f id hf]
    exact h.nodup
  · exact all_update h.below fun x _ hx => by
      show id (f x) < t.nextId
      rw [hf]
      exact hx

/-- An id is gone with its row. -/
theorem ne_of_mem_erase (h : t.Numbered id) {k : Nat} {x : α} (hx : x ∈ (t.erase id k).rows) :
    id x ≠ k :=
  Keyed.ne_of_mem_erase h.nodup hx

theorem erase {κ : Type} [DecidableEq κ] (h : t.Numbered id) (key : α → κ) (k : κ) :
    (t.erase key k).Numbered id :=
  ⟨h.nodup.sublist ((List.eraseP_sublist).map id), all_erase h.below⟩

theorem filter (h : t.Numbered id) (p : α → Bool) : (t.filter p).Numbered id :=
  ⟨h.nodup.sublist ((List.filter_sublist).map id), all_filter h.below⟩

theorem create_next (h : t.Numbered id) {mk : Nat → α} (hmk : id (mk t.nextId) = t.nextId) :
    (t.create mk).Numbered id := by
  constructor
  · show ((t.rows ++ [mk t.nextId]).map id).Nodup
    rw [List.map_append, List.nodup_append]
    refine ⟨h.nodup, by simp, ?_⟩
    intro a ha b hb heq
    rw [List.map_singleton, List.mem_singleton, hmk] at hb
    obtain ⟨x, hx, rfl⟩ := List.mem_map.1 ha
    have hlt := h.below x hx
    omega
  · intro x hx
    simp only [Table.create, List.mem_append, List.mem_singleton] at hx ⊢
    rcases hx with hx | rfl
    · exact Nat.lt_succ_of_lt (h.below x hx)
    · rw [hmk]
      exact Nat.lt_succ_self _

theorem create (h : t.Numbered id) {mk : Nat → α} (hmk : ∀ n, id (mk n) = n) :
    (t.create mk).Numbered id :=
  h.create_next (hmk _)

end Numbered

end Table

/-! ## Iteration in the order of an index -/

/-- The rows of an ordered index: stable insertion by `before`. -/
def orderBy {α : Type} (before : α → α → Bool) : List α → List α
  | [] => []
  | x :: rest => insert x (orderBy before rest)
where
  insert (x : α) : List α → List α
    | [] => [x]
    | y :: rest => if before y x then y :: insert x rest else x :: y :: rest

theorem mem_orderBy_insert {α : Type} (before : α → α → Bool) (a x : α) (l : List α) :
    a ∈ orderBy.insert before x l ↔ a = x ∨ a ∈ l := by
  induction l with
  | nil => simp [orderBy.insert]
  | cons y rest ih =>
    unfold orderBy.insert
    split
    · simp only [List.mem_cons, ih]
      tauto
    · simp

@[simp] theorem mem_orderBy {α : Type} (before : α → α → Bool) (a : α) (l : List α) :
    a ∈ orderBy before l ↔ a ∈ l := by
  induction l with
  | nil => simp [orderBy]
  | cons x rest ih => simp [orderBy, mem_orderBy_insert, ih]

theorem orderBy_insert_perm {α : Type} (before : α → α → Bool) (x : α) (l : List α) :
    (orderBy.insert before x l).Perm (x :: l) := by
  induction l with
  | nil => exact List.Perm.refl _
  | cons y rest ih =>
    unfold orderBy.insert
    split
    · exact (ih.cons y).trans (List.Perm.swap x y rest)
    · exact List.Perm.refl _

theorem orderBy_perm {α : Type} (before : α → α → Bool) (l : List α) :
    (orderBy before l).Perm l := by
  induction l with
  | nil => exact List.Perm.refl _
  | cons x rest ih => exact (orderBy_insert_perm before x _).trans (ih.cons x)

end VizCore.Lib
