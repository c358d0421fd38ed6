import Mathlib.Tactic

/-!
# Fallible computations

Functions that may throw are modelled in `Except ε`.  A proof about a run that
returned normally takes the run apart with `bind_eq_ok`, reads what each check
has established with `require_eq_ok`, and handles loops with
`foldlM_invariant`.
-/

namespace VizCore.Lib

variable {ε α β σ : Type}

/-- A check that throws `e` when the condition does not hold. -/
def require (c : Prop) [Decidable c] (e : ε) : Except ε Unit :=
  if c then .ok () else .error e

/-- A lookup that throws `e` when there is nothing to return. -/
def getOrThrow (o : Option α) (e : ε) : Except ε α :=
  match o with
  | some a => .ok a
  | none => .error e

@[simp] theorem pure_eq_ok (a b : α) : (pure a : Except ε α) = .ok b ↔ a = b := by
  simp [pure, Except.pure]

theorem bind_eq_ok (x : Except ε α) (f : α → Except ε β) (b : β) :
    x >>= f = .ok b ↔ ∃ a, x = .ok a ∧ f a = .ok b := by
  cases x with
  | error e => simp [bind, Except.bind]
  | ok a => simp [bind, Except.bind]

/-- Two runs with the same first part fail alike when their second parts do. -/
theorem bind_error_mono {x : Except ε α} {f g : α → Except ε β} {e : ε}
    (hfg : ∀ a, f a = .error e → g a = .error e) (h : x >>= f = .error e) :
    x >>= g = .error e := by
  cases x with
  | error e' => exact h
  | ok a => exact hfg a h

theorem map_eq_ok (x : Except ε α) (f : α → β) (b : β) :
    f <$> x = .ok b ↔ ∃ a, x = .ok a ∧ f a = b := by
  cases x with
  | error e => simp [Functor.map, Except.map]
  | ok a => simp [Functor.map, Except.map]

@[simp] theorem require_eq_ok (c : Prop) [Decidable c] (e : ε) (u : Unit) :
    require c e = .ok u ↔ c := by
  unfold require
  by_cases h : c <;> simp [h]

@[simp] theorem getOrThrow_eq_ok (o : Option α) (e : ε) (a : α) :
    getOrThrow o e = .ok a ↔ o = some a := by
  cases o <;> simp [getOrThrow]

/-- Whether a run returns a value that passes the test `p`. -/
def returns (x : Except ε α) (p : α → Bool) : Bool :=
  match x with
  | .ok a => p a
  | .error _ => false

theorem returns_eq_true {x : Except ε α} {p : α → Bool} (h : returns x p = true) :
    ∃ a, x = .ok a ∧ p a = true := by
  cases x with
  | error e => cases h
  | ok a => exact ⟨a, rfl, h⟩

/-- What is said of every result is decided by the run. -/
instance decidableForallOk (x : Except ε α) (P : α → Prop) [DecidablePred P] :
    Decidable (∀ a, x = .ok a → P a) :=
  match x with
  | .ok a => decidable_of_iff (P a) ⟨fun h _ ha => Except.ok.inj ha ▸ h, fun h => h a rfl⟩
  | .error _ => .isTrue fun _ h => nomatch h

instance decidableForallError (x : Except ε α) (P : ε → Prop) [DecidablePred P] :
    Decidable (∀ e, x = .error e → P e) :=
  match x with
  | .ok _ => .isTrue fun _ h => nomatch h
  | .error e => decidable_of_iff (P e) ⟨fun h _ he => Except.error.inj he ▸ h, fun h => h e rfl⟩

instance decidableExistsOkAnd (x : Except ε α) (P : α → Prop) [DecidablePred P] :
    Decidable (∃ a, x = .ok a ∧ P a) :=
  match x with
  | .ok a => decidable_of_iff (P a) ⟨fun h => ⟨a, rfl, h⟩, fun ⟨_, ha, h⟩ => Except.ok.inj ha ▸ h⟩
  | .error _ => .isFalse fun ⟨_, h, _⟩ => nomatch h

instance decidableExistsOk (x : Except ε α) : Decidable (∃ a, x = .ok a) :=
  match x with
  | .ok a => .isTrue ⟨a, rfl⟩
  | .error _ => .isFalse fun ⟨_, h⟩ => nomatch h

theorem require_bind_eq_ok (c : Prop) [Decidable c] (e : ε) (f : Unit → Except ε β) (b : β) :
    (require c e >>= f) = .ok b ↔ c ∧ f () = .ok b := by
  rw [bind_eq_ok]
  constructor
  · rintro ⟨u, hu, hf⟩
    exact ⟨(require_eq_ok c e u).1 hu, hf⟩
  · rintro ⟨hc, hf⟩
    exact ⟨(), (require_eq_ok c e ()).2 hc, hf⟩

/-- Whatever a loop collects comes from one of its passes. -/
theorem mem_of_mapM_eq_ok {f : α → Except ε β} {l : List α} {l' : List β}
    (h : l.mapM f = .ok l') {b : β} (hb : b ∈ l') : ∃ a ∈ l, f a = .ok b := by
  induction l generalizing l' with
  | nil =>
    rw [List.mapM_nil, pure_eq_ok] at h
    rw [← h] at hb
    exact absurd hb List.not_mem_nil
  | cons a l ih =>
    simp only [List.mapM_cons, bind_eq_ok, pure_eq_ok] at h
    obtain ⟨c, hc, rest, hrest, rfl⟩ := h
    rcases List.mem_cons.1 hb with rfl | hb
    · exact ⟨a, List.mem_cons_self, hc⟩
    · obtain ⟨x, hx, hfx⟩ := ih hrest hb
      exact ⟨x, List.mem_cons_of_mem a hx, hfx⟩

/-- A loop collects what its passes give, in their order. -/
theorem mapM_eq_ok_map {f : α → Except ε β} {g : α → β} {l : List α} {l' : List β}
    (hf : ∀ a ∈ l, ∀ b, f a = .ok b → b = g a) (h : l.mapM f = .ok l') : l' = l.map g := by
  induction l generalizing l' with
  | nil =>
    rw [List.mapM_nil, pure_eq_ok] at h
    rw [← h, List.map_nil]
  | cons a l ih =>
    simp only [List.mapM_cons, bind_eq_ok, pure_eq_ok] at h
    obtain ⟨c, hc, rest, hrest, rfl⟩ := h
    rw [List.map_cons, hf a List.mem_cons_self c hc,
      ih (fun b hb => hf b (List.mem_cons_of_mem a hb)) hrest]

/-- A loop whose passes all return returns. -/
theorem exists_mapM_eq_ok {f : α → Except ε β} {l : List α} (h : ∀ a ∈ l, ∃ b, f a = .ok b) :
    ∃ l', l.mapM f = .ok l' := by
  induction l with
  | nil => exact ⟨[], rfl⟩
  | cons a l ih =>
    obtain ⟨b, hb⟩ := h a List.mem_cons_self
    obtain ⟨rest, hrest⟩ := ih fun c hc => h c (List.mem_cons_of_mem a hc)
    refine ⟨b :: rest, ?_⟩
    simp only [List.mapM_cons, bind_eq_ok, pure_eq_ok]
    exact ⟨b, hb, rest, hrest, rfl⟩

/-- What a loop collects, pass by pass. -/
theorem mapM_eq_ok_iff_forall₂ {f : α → Except ε β} {l : List α} {l' : List β} :
    l.mapM f = .ok l' ↔ List.Forall₂ (fun a b => f a = .ok b) l l' := by
  induction l generalizing l' with
  | nil =>
    rw [List.mapM_nil, pure_eq_ok, List.forall₂_nil_left_iff, eq_comm]
  | cons a l ih =>
    rw [List.mapM_cons, List.forall₂_cons_left_iff]
    simp only [bind_eq_ok, pure_eq_ok]
    constructor
    · rintro ⟨b, hb, rest, hrest, rfl⟩
      exact ⟨b, rest, hb, ih.1 hrest, rfl⟩
    · rintro ⟨b, rest, hb, hrest, rfl⟩
      exact ⟨b, hb, rest, ih.2 hrest, rfl⟩

/-- A loop returns when every pass returns from the states that the loop keeps. -/
theorem exists_foldlM_eq_ok (P : σ → Prop) (f : σ → α → Except ε σ) (l : List α)
    (hstep : ∀ a ∈ l, ∀ s, P s → ∃ s', f s a = .ok s' ∧ P s') (s : σ) (hs : P s) :
    ∃ s', l.foldlM f s = .ok s' ∧ P s' := by
  induction l generalizing s with
  | nil => exact ⟨s, rfl, hs⟩
  | cons a l ih =>
    obtain ⟨t, ht, hP⟩ := hstep a List.mem_cons_self s hs
    obtain ⟨s', hrun, hs'⟩ := ih (fun b hb => hstep b (List.mem_cons_of_mem a hb)) t hP
    refine ⟨s', ?_, hs'⟩
    rw [List.foldlM_cons, bind_eq_ok]
    exact ⟨t, ht, hrun⟩

/-- What every pass of a loop body keeps, the whole loop keeps. -/
theorem foldlM_invariant (P : σ → Prop) (f : σ → α → Except ε σ) (l : List α)
    (hstep : ∀ a ∈ l, ∀ s s', P s → f s a = .ok s' → P s') (s s' : σ)
    (hs : P s) (hrun : l.foldlM f s = .ok s') : P s' := by
  induction l generalizing s with
  | nil =>
    simp only [List.foldlM_nil, pure_eq_ok] at hrun
    exact hrun ▸ hs
  | cons a l ih =>
    rw [List.foldlM_cons, bind_eq_ok] at hrun
    obtain ⟨t, ht, hrest⟩ := hrun
    have hP : P t := hstep a (by simp) s t hs ht
    exact ih (fun b hb => hstep b (by simp [hb])) t hP hrest

/-- A loop over distinct items, each of which is still pending when its turn comes. -/
theorem foldlM_pending (P : σ → Prop) (Q : α → σ → Prop) (f : σ → α → Except ε σ) (l : List α)
    (hl : l.Nodup)
    (hstep : ∀ a s s', P s → Q a s → f s a = .ok s' → P s' ∧ ∀ b, b ≠ a → Q b s → Q b s')
    (s s' : σ) (hs : P s) (hQ : ∀ a ∈ l, Q a s) (hrun : l.foldlM f s = .ok s') : P s' := by
  induction l generalizing s with
  | nil =>
    rw [List.foldlM_nil, pure_eq_ok] at hrun
    exact hrun ▸ hs
  | cons a l ih =>
    rw [List.foldlM_cons, bind_eq_ok] at hrun
    obtain ⟨t, ht, hrest⟩ := hrun
    rw [List.nodup_cons] at hl
    obtain ⟨hP, hother⟩ := hstep a s t hs (hQ a List.mem_cons_self) ht
    refine ih hl.2 t hP (fun b hb => ?_) hrest
    refine hother b ?_ (hQ b (List.mem_cons_of_mem a hb))
    rintro rfl
    exact hl.1 hb

/-! ## Errors that are not thrown -/

theorem bind_ne_error {x : Except ε α} {f : α → Except ε β} {e : ε} (hx : x ≠ .error e)
    (hf : ∀ a, x = .ok a → f a ≠ .error e) : x >>= f ≠ .error e := by
  cases x with
  | error e' => exact fun h => hx (by cases h; rfl)
  | ok a => exact hf a rfl

/-- A loop does not throw what no pass throws from the states that the loop keeps. -/
theorem foldlM_ne_error (P : σ → Prop) (f : σ → α → Except ε σ) (l : List α) {e : ε}
    (hstep : ∀ a ∈ l, ∀ s, P s → f s a ≠ .error e ∧ ∀ s', f s a = .ok s' → P s') (s : σ)
    (hs : P s) : l.foldlM f s ≠ .error e := by
  induction l generalizing s with
  | nil => exact fun h => by cases h
  | cons a l ih =>
    rw [List.foldlM_cons]
    obtain ⟨hne, hkeep⟩ := hstep a List.mem_cons_self s hs
    refine bind_ne_error hne fun t ht => ?_
    exact ih (fun b hb => hstep b (List.mem_cons_of_mem a hb)) t (hkeep t ht)

/-! ## Both ways to end -/

/-- What is returned satisfies `Q`, and what is thrown satisfies `E`. -/
def Ends (E : ε → Prop) (Q : α → Prop) : Except ε α → Prop
  | .ok a => Q a
  | .error e => E e

namespace Ends

variable {E : ε → Prop} {Q R : α → Prop} {x : Except ε α}

theorem of_ok (h : Ends E Q x) {a : α} (hx : x = .ok a) : Q a := by
  subst hx
  exact h

theorem of_error (h : Ends E Q x) {e : ε} (hx : x = .error e) : E e := by
  subst hx
  exact h

/-- Both ways to end may say less. -/
theorem mono {E' : ε → Prop} (h : Ends E Q x) (hE : ∀ e, E e → E' e) (hQ : ∀ a, Q a → R a) :
    Ends E' R x := by
  cases x with
  | error e => exact hE e h
  | ok a => exact hQ a h

theorem bind {f : α → Except ε β} {S : β → Prop} (h : Ends E Q x)
    (hf : ∀ a, Q a → Ends E S (f a)) : Ends E S (x >>= f) := by
  cases x with
  | error e => exact h
  | ok a => exact hf a h

/-- What every pass of a loop body keeps, also when it throws, the whole loop keeps. -/
theorem foldlM {P : σ → Prop} {f : σ → α → Except ε σ} (l : List α)
    (hf : ∀ a s, P s → Ends E P (f s a)) {s : σ} (hs : P s) : Ends E P (l.foldlM f s) := by
  induction l generalizing s with
  | nil => exact hs
  | cons a l ih =>
    rw [List.foldlM_cons]
    exact (hf a s hs).bind fun t ht => ih ht

end Ends

end VizCore.Lib
