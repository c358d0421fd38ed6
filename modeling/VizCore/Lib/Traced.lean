import VizCore.Lib.Except

/-!
# Computations that leave a trace

A computation that may throw and that reports events on its way.  The events of a part
that threw remain in the trace, and a computation may ask how many events came before
it.  `Traced.dry` and `Traced.attempt` mark the events of a part whose effect is undone.

* `Recounts C l x H`: if every event of `x` satisfies `C`, then what `x` returns satisfies `H`
  together with all events so far;
* `Ensures C x Q`: if every event of `x` satisfies `C`, then what `x` returns
  satisfies `Q`;
* `Agree C x y`: if every event of `x` satisfies `C`, then `y` does exactly what `x`
  does;
* `Safe P x Q`: every event of `x` satisfies `P`, also when `x` throws, and what `x`
  returns satisfies `Q`;
* `Settles P E x Q`: every event of `x` satisfies `P`, what `x` returns satisfies `Q`, and what
  it throws satisfies `E`;
* `Simulates x y R`: when `x` returns, `y` returns with the same trace and the results are
  related by `R`.
-/

namespace VizCore.Lib

/-- The argument is the number of events before. -/
def Traced (ω ε α : Type) : Type := Nat → List ω × Except ε α

namespace Traced

variable {ω ε α β σ : Type}

protected def bind (x : Traced ω ε α) (f : α → Traced ω ε β) : Traced ω ε β := fun n =>
  match x n with
  | (l, .error e) => (l, .error e)
  | (l, .ok a) => (l ++ (f a (n + l.length)).1, (f a (n + l.length)).2)

instance : Monad (Traced ω ε) where
  pure a := fun _ => ([], .ok a)
  bind := Traced.bind

def lift (r : Except ε α) : Traced ω ε α := fun _ => ([], r)

def report (e : ω) : Traced ω ε Unit := fun _ => ([e], .ok ())

/-- The number of events so far. -/
def tick : Traced ω ε Nat := fun n => ([], .ok n)

/-- Runs `x` and undoes it. -/
def dry (mark : ω → ω) (x : Traced ω ε α) : Traced ω ε α := fun n => ((x n).1.map mark, (x n).2)

/-- Runs `x`; when it throws, it is undone and the exception is returned. -/
def attempt (mark : ω → ω) (x : Traced ω ε α) : Traced ω ε (Except ε α) := fun n =>
  match x n with
  | (l, .error e) => (l.map mark, .ok (.error e))
  | (l, .ok a) => (l, .ok (.ok a))

/-- Changes what `x` returns and what it throws, the trace remains. -/
def mapBoth {ε' : Type} (f : ε → ε') (g : α → β) (x : Traced ω ε α) : Traced ω ε' β := fun n =>
  match x n with
  | (l, .error e) => (l, .error (f e))
  | (l, .ok a) => (l, .ok (g a))

/-- A run that returns is a run of its first part and a run of the rest. -/
theorem bind_eq_ok {x : Traced ω ε α} {f : α → Traced ω ε β} {n : Nat} {b : β}
    (h : ((x >>= f) n).2 = .ok b) : ∃ a, (x n).2 = .ok a ∧
      (f a (n + (x n).1.length)).2 = .ok b ∧
      ((x >>= f) n).1 = (x n).1 ++ (f a (n + (x n).1.length)).1 := by
  change (Traced.bind x f n).2 = .ok b at h
  change ∃ a, (x n).2 = .ok a ∧ (f a (n + (x n).1.length)).2 = .ok b ∧
    (Traced.bind x f n).1 = (x n).1 ++ (f a (n + (x n).1.length)).1
  unfold Traced.bind at h ⊢
  cases hrun : x n with
  | mk l r =>
    rw [hrun] at h
    cases r with
    | error e => cases h
    | ok a => exact ⟨a, rfl, h, rfl⟩

theorem bind_of_ok {x : Traced ω ε α} {f : α → Traced ω ε β} {n : Nat} {a : α}
    (h : (x n).2 = .ok a) : ((x >>= f) n).2 = (f a (n + (x n).1.length)).2 := by
  change (Traced.bind x f n).2 = _
  unfold Traced.bind
  cases hrun : x n with
  | mk l r =>
    rw [hrun] at h
    cases h
    rfl

theorem bind_of_error {x : Traced ω ε α} {f : α → Traced ω ε β} {n : Nat} {e : ε}
    (h : (x n).2 = .error e) : ((x >>= f) n).2 = .error e := by
  change (Traced.bind x f n).2 = _
  unfold Traced.bind
  cases hrun : x n with
  | mk l r =>
    rw [hrun] at h
    cases h
    rfl

theorem attempt_of_error {mark : ω → ω} {x : Traced ω ε α} {n : Nat} {e : ε}
    (h : (x n).2 = .error e) : (attempt mark x n).2 = .ok (.error e) := by
  unfold attempt
  cases hrun : x n with
  | mk l r =>
    rw [hrun] at h
    cases h
    rfl

/-- An attempt returns how its part ended; when it ended well, its events remain. -/
theorem attempt_eq_ok {mark : ω → ω} {x : Traced ω ε α} {n : Nat} {r : Except ε α}
    (h : (attempt mark x n).2 = .ok r) :
    r = (x n).2 ∧ ∀ a, r = .ok a → (attempt mark x n).1 = (x n).1 := by
  unfold attempt at h ⊢
  cases hrun : x n with
  | mk l q =>
    rw [hrun] at h
    cases q with
    | error e =>
      cases h
      refine ⟨rfl, ?_⟩
      rintro a ⟨⟩
    | ok a =>
      cases h
      exact ⟨rfl, fun _ _ => rfl⟩

/-! ## What a run recounts -/

/-- If every event of `x` satisfies `C`, then what `x` returns satisfies `H` together with the
events, `l` being those before. -/
def Recounts (C : ω → Prop) (l : List ω) (x : Traced ω ε α) (H : List ω → α → Prop) : Prop :=
  ∀ n, (∀ e ∈ (x n).1, C e) → ∀ a, (x n).2 = .ok a → H (l ++ (x n).1) a

namespace Recounts

variable {C : ω → Prop} {l : List ω} {x : Traced ω ε α} {H K : List ω → α → Prop}

theorem mono (h : Recounts C l x H) (hHK : ∀ l a, H l a → K l a) : Recounts C l x K :=
  fun n hC a ha => hHK _ a (h n hC a ha)

theorem pure {a : α} (h : H l a) : Recounts C l (Pure.pure a : Traced ω ε α) H := by
  intro n _ b hb
  have heq : a = b := Except.ok.inj hb
  show H (l ++ []) b
  rw [List.append_nil, ← heq]
  exact h

theorem bind {f : α → Traced ω ε β} {S : List ω → β → Prop} (hx : Recounts C l x H)
    (hf : ∀ l a, H l a → Recounts C l (f a) S) : Recounts C l (x >>= f) S := by
  intro n hC b hb
  change ∀ e ∈ (Traced.bind x f n).1, C e at hC
  change (Traced.bind x f n).2 = .ok b at hb
  show S (l ++ (Traced.bind x f n).1) b
  unfold Traced.bind at hC hb ⊢
  have hxn := hx n
  cases hrun : x n with
  | mk l₁ r =>
    rw [hrun] at hC hb hxn
    cases r with
    | error e => cases hb
    | ok a =>
      simp only [List.mem_append] at hC
      have ha : H (l ++ l₁) a := hxn (fun e he => hC e (.inl he)) a rfl
      have hfa := hf _ a ha _ (fun e he => hC e (.inr he)) b hb
      rw [List.append_assoc] at hfa
      exact hfa

theorem lift {r : Except ε α} (h : ∀ a, r = .ok a → H l a) :
    Recounts C l (Traced.lift r : Traced ω ε α) H := by
  intro n _ a ha
  show H (l ++ []) a
  rw [List.append_nil]
  exact h a ha

theorem report {e : ω} {H : List ω → Unit → Prop} (h : C e → H (l ++ [e]) ()) :
    Recounts C l (Traced.report e : Traced ω ε Unit) H :=
  fun _ hC _ _ => h (hC e (by simp [Traced.report]))

theorem tick {H : List ω → Nat → Prop} (h : ∀ n, H l n) :
    Recounts C l (Traced.tick : Traced ω ε Nat) H := by
  intro n _ a _
  show H (l ++ []) a
  rw [List.append_nil]
  exact h a

/-- The events of a run that is undone are marked. -/
theorem dry {mark : ω → ω} (h : ∀ (l' : List ω) a, H (l ++ l'.map mark) a) :
    Recounts C l (Traced.dry mark x) H :=
  fun n _ a _ => h (x n).1 a

theorem attempt {mark : ω → ω} {S : List ω → Except ε α → Prop} (hx : Recounts C l x H)
    (hok : ∀ l a, H l a → S l (.ok a))
    (herror : ∀ (l' : List ω) e, S (l ++ l'.map mark) (.error e)) :
    Recounts C l (Traced.attempt mark x) S := by
  intro n hC r hr
  have hxn := hx n
  unfold Traced.attempt at hC hr ⊢
  cases hrun : x n with
  | mk l₁ r₁ =>
    rw [hrun] at hC hr hxn
    cases r₁ with
    | error e =>
      cases hr
      exact herror l₁ e
    | ok a =>
      cases hr
      exact hok _ a (hxn hC a rfl)

theorem mapBoth {ε' : Type} {f : ε → ε'} {g : α → β} {S : List ω → β → Prop}
    (h : Recounts C l x H) (hg : ∀ l a, H l a → S l (g a)) :
    Recounts C l (Traced.mapBoth f g x) S := by
  intro n hC b hb
  have hxn := h n
  unfold Traced.mapBoth at hC hb ⊢
  cases hrun : x n with
  | mk l₁ r =>
    rw [hrun] at hC hb hxn
    cases r with
    | error e => cases hb
    | ok a =>
      cases hb
      exact hg _ a (hxn hC a rfl)

/-- What every pass of a loop body recounts, the whole loop recounts. -/
theorem foldlM (P : List ω → σ → Prop) (f : σ → α → Traced ω ε σ) (as : List α)
    (hstep : ∀ a ∈ as, ∀ l s, P l s → Recounts C l (f s a) P) (s : σ) (hs : P l s) :
    Recounts C l (as.foldlM f s) P := by
  induction as generalizing l s with
  | nil => exact pure hs
  | cons a as ih =>
    rw [List.foldlM_cons]
    refine bind (hstep a (by simp) l s hs) fun l t ht => ?_
    exact ih (fun b hb => hstep b (by simp [hb])) t ht

/-- A loop in two parts, of which the second one recounts more. -/
theorem foldlM_append (P : List ω → σ → Prop) (f : σ → α → Traced ω ε σ) (as bs : List α)
    {S : List ω → σ → Prop} (hstep : ∀ a ∈ as, ∀ l s, P l s → Recounts C l (f s a) P)
    (hlast : ∀ l s, P l s → Recounts C l (bs.foldlM f s) S) (s : σ) (hs : P l s) :
    Recounts C l ((as ++ bs).foldlM f s) S := by
  induction as generalizing l s with
  | nil => exact hlast l s hs
  | cons a as ih =>
    rw [List.cons_append, List.foldlM_cons]
    refine bind (hstep a (by simp) l s hs) fun l t ht => ?_
    exact ih (fun b hb => hstep b (by simp [hb])) t ht

end Recounts

/-! ## What a run ensures -/

def Ensures (C : ω → Prop) (x : Traced ω ε α) (Q : α → Prop) : Prop :=
  ∀ n, (∀ e ∈ (x n).1, C e) → ∀ a, (x n).2 = .ok a → Q a

/-- A run ensures what it recounts, whatever its events are. -/
theorem ensures_iff {C : ω → Prop} {x : Traced ω ε α} {Q : α → Prop} (l : List ω) :
    Ensures C x Q ↔ Recounts C l x fun _ a => Q a :=
  Iff.rfl

namespace Ensures

variable {C : ω → Prop} {x : Traced ω ε α} {Q R : α → Prop}

theorem mono (h : Ensures C x Q) (hQR : ∀ a, Q a → R a) : Ensures C x R :=
  fun n hC a ha => hQR a (h n hC a ha)

theorem pure {a : α} (h : Q a) : Ensures C (Pure.pure a : Traced ω ε α) Q :=
  (ensures_iff []).2 (.pure h)

theorem bind {f : α → Traced ω ε β} {S : β → Prop} (hx : Ensures C x Q)
    (hf : ∀ a, Q a → Ensures C (f a) S) : Ensures C (x >>= f) S := by
  rw [ensures_iff []] at hx ⊢
  exact hx.bind fun l a ha => (ensures_iff l).1 (hf a ha)

theorem lift {r : Except ε α} (h : ∀ a, r = .ok a → Q a) :
    Ensures C (Traced.lift r : Traced ω ε α) Q :=
  (ensures_iff []).2 (.lift h)

theorem report (e : ω) : Ensures C (Traced.report e : Traced ω ε Unit) fun _ => C e :=
  (ensures_iff []).2 (.report id)

theorem tick : Ensures C (Traced.tick : Traced ω ε Nat) fun _ => True :=
  fun _ _ _ _ => trivial

theorem dry (mark : ω → ω) (x : Traced ω ε α) :
    Ensures C (Traced.dry mark x) fun _ => True :=
  fun _ _ _ _ => trivial

theorem attempt (mark : ω → ω) (h : Ensures C x Q) :
    Ensures C (Traced.attempt mark x) fun r => ∀ a, r = .ok a → Q a := by
  rw [ensures_iff []] at h ⊢
  refine h.attempt (fun _ a ha b hb => ?_) fun _ e b hb => ?_
  · cases hb
    exact ha
  · cases hb

theorem mapBoth {ε' : Type} {f : ε → ε'} {g : α → β} {S : β → Prop} (h : Ensures C x Q)
    (hg : ∀ a, Q a → S (g a)) : Ensures C (Traced.mapBoth f g x) S := by
  rw [ensures_iff []] at h ⊢
  exact h.mapBoth fun _ => hg

/-- What every pass of a loop body ensures, the whole loop ensures. -/
theorem foldlM (P : σ → Prop) (f : σ → α → Traced ω ε σ) (l : List α)
    (hstep : ∀ a ∈ l, ∀ s, P s → Ensures C (f s a) P) (s : σ) (hs : P s) :
    Ensures C (l.foldlM f s) P := by
  rw [ensures_iff []]
  exact .foldlM (fun _ => P) f l (fun a ha l t ht => (ensures_iff l).1 (hstep a ha t ht)) s hs

end Ensures

/-! ## Runs that agree -/

def Agree (C : ω → Prop) (x y : Traced ω ε α) : Prop :=
  ∀ n, (∀ e ∈ (x n).1, C e) → y n = x n

namespace Agree

variable {C : ω → Prop} {x y : Traced ω ε α}

theorem refl (C : ω → Prop) (x : Traced ω ε α) : Agree C x x := fun _ _ => rfl

theorem bind {f g : α → Traced ω ε β} (hxy : Agree C x y) (hfg : ∀ a, Agree C (f a) (g a)) :
    Agree C (x >>= f) (y >>= g) := by
  intro n hC
  change ∀ e ∈ (Traced.bind x f n).1, C e at hC
  change Traced.bind y g n = Traced.bind x f n
  unfold Traced.bind at hC ⊢
  have hxn := hxy n
  cases hrun : x n with
  | mk l r =>
    rw [hrun] at hC hxn
    cases r with
    | error e => rw [hxn hC]
    | ok a =>
      simp only [List.mem_append] at hC
      rw [hxn fun e he => hC e (.inl he)]
      simp only [hfg a (n + l.length) fun e he => hC e (.inr he)]

/-- A report establishes the condition for what follows. -/
theorem report_bind {e : ω} {f g : Unit → Traced ω ε β} (h : C e → Agree C (f ()) (g ())) :
    Agree C (Traced.report e >>= f) (Traced.report e >>= g) := by
  intro n hC
  change ∀ a ∈ (Traced.bind (Traced.report e) f n).1, C a at hC
  change Traced.bind (Traced.report e) g n = Traced.bind (Traced.report e) f n
  simp only [Traced.bind, Traced.report, List.mem_append, List.mem_singleton] at hC ⊢
  rw [h (hC e (.inl rfl)) _ fun a ha => hC a (.inr ha)]

theorem dry {mark : ω → ω} (hmark : ∀ e, C (mark e) → C e) (h : Agree C x y) :
    Agree C (Traced.dry mark x) (Traced.dry mark y) := by
  intro n hC
  unfold Traced.dry at hC ⊢
  have hx : ∀ e ∈ (x n).1, C e := fun e he => hmark e (hC _ (List.mem_map_of_mem he))
  rw [h n hx]

theorem attempt {mark : ω → ω} (hmark : ∀ e, C (mark e) → C e) (h : Agree C x y) :
    Agree C (Traced.attempt mark x) (Traced.attempt mark y) := by
  intro n hC
  have hxn := h n
  unfold Traced.attempt at hC ⊢
  cases hrun : x n with
  | mk l r =>
    rw [hrun] at hC hxn
    cases r with
    | error e =>
      have hl : ∀ e ∈ l, C e := fun e he => hmark e (hC _ (List.mem_map_of_mem he))
      rw [hxn hl]
    | ok a => rw [hxn hC]

theorem mapBoth {ε' : Type} {f : ε → ε'} {g : α → β} (h : Agree C x y) :
    Agree C (Traced.mapBoth f g x) (Traced.mapBoth f g y) := by
  intro n hC
  have hxn := h n
  unfold Traced.mapBoth at hC ⊢
  cases hrun : x n with
  | mk l r =>
    rw [hrun] at hC hxn
    cases r with
    | error e => rw [hxn hC]
    | ok a => rw [hxn hC]

theorem foldlM {f g : σ → α → Traced ω ε σ} (l : List α)
    (hfg : ∀ s a, Agree C (f s a) (g s a)) (s : σ) :
    Agree C (l.foldlM f s) (l.foldlM g s) := by
  induction l generalizing s with
  | nil => exact refl C _
  | cons a l ih =>
    rw [List.foldlM_cons, List.foldlM_cons]
    exact bind (hfg s a) ih

end Agree

/-! ## Safe runs -/

def Safe (P : ω → Prop) (x : Traced ω ε α) (Q : α → Prop) : Prop :=
  ∀ n, (∀ e ∈ (x n).1, P e) ∧ ∀ a, (x n).2 = .ok a → Q a

namespace Safe

variable {P : ω → Prop} {x : Traced ω ε α} {Q R : α → Prop}

theorem mono (h : Safe P x Q) (hQR : ∀ a, Q a → R a) : Safe P x R :=
  fun n => ⟨(h n).1, fun a ha => hQR a ((h n).2 a ha)⟩

theorem and {P' : ω → Prop} (h : Safe P x Q) (h' : Safe P' x R) :
    Safe P x fun a => Q a ∧ R a :=
  fun n => ⟨(h n).1, fun a ha => ⟨(h n).2 a ha, (h' n).2 a ha⟩⟩

theorem pure {a : α} (h : Q a) : Safe P (Pure.pure a : Traced ω ε α) Q := by
  intro n
  refine ⟨fun e he => absurd he List.not_mem_nil, fun b hb => ?_⟩
  have heq : a = b := Except.ok.inj hb
  exact heq ▸ h

theorem lift {r : Except ε α} (h : ∀ a, r = .ok a → Q a) :
    Safe P (Traced.lift r : Traced ω ε α) Q :=
  fun _ => ⟨fun _ he => absurd he List.not_mem_nil, h⟩

theorem report {e : ω} (h : P e) : Safe P (Traced.report e : Traced ω ε Unit) fun _ => True :=
  fun _ => ⟨fun _ he => List.mem_singleton.1 he ▸ h, fun _ _ => trivial⟩

theorem tick : Safe P (Traced.tick : Traced ω ε Nat) fun _ => True :=
  fun _ => ⟨fun _ he => absurd he List.not_mem_nil, fun _ _ => trivial⟩

theorem bind {f : α → Traced ω ε β} {S : β → Prop} (hx : Safe P x Q)
    (hf : ∀ a, Q a → Safe P (f a) S) : Safe P (x >>= f) S := by
  intro n
  change (∀ e ∈ (Traced.bind x f n).1, P e) ∧ ∀ b, (Traced.bind x f n).2 = .ok b → S b
  unfold Traced.bind
  have hxn := hx n
  cases hrun : x n with
  | mk l r =>
    rw [hrun] at hxn
    cases r with
    | error e => exact ⟨hxn.1, fun b hb => nomatch hb⟩
    | ok a =>
      obtain ⟨hfe, hfb⟩ := hf a (hxn.2 a rfl) (n + l.length)
      refine ⟨fun e he => ?_, hfb⟩
      rcases List.mem_append.1 he with he | he
      · exact hxn.1 e he
      · exact hfe e he

theorem dry {mark : ω → ω} (hmark : ∀ e, P e → P (mark e)) (h : Safe P x Q) :
    Safe P (Traced.dry mark x) Q := by
  intro n
  refine ⟨fun e he => ?_, (h n).2⟩
  obtain ⟨e', he', rfl⟩ := List.mem_map.1 he
  exact hmark e' ((h n).1 e' he')

theorem attempt {mark : ω → ω} (hmark : ∀ e, P e → P (mark e)) (h : Safe P x Q) :
    Safe P (Traced.attempt mark x) fun r => ∀ a, r = .ok a → Q a := by
  intro n
  have hxn := h n
  unfold Traced.attempt
  cases hrun : x n with
  | mk l r =>
    rw [hrun] at hxn
    cases r with
    | error e =>
      refine ⟨fun e he => ?_, fun r hr a ha => ?_⟩
      · obtain ⟨e', he', rfl⟩ := List.mem_map.1 he
        exact hmark e' (hxn.1 e' he')
      · cases hr
        cases ha
    | ok b =>
      refine ⟨hxn.1, fun r hr a ha => ?_⟩
      cases hr
      exact hxn.2 a ha

theorem mapBoth {ε' : Type} {f : ε → ε'} {g : α → β} {S : β → Prop} (h : Safe P x Q)
    (hg : ∀ a, Q a → S (g a)) : Safe P (Traced.mapBoth f g x) S := by
  intro n
  have hxn := h n
  unfold Traced.mapBoth
  cases hrun : x n with
  | mk l r =>
    rw [hrun] at hxn
    cases r with
    | error e => exact ⟨hxn.1, fun b hb => nomatch hb⟩
    | ok a =>
      refine ⟨hxn.1, fun b hb => ?_⟩
      cases hb
      exact hg a (hxn.2 a rfl)

theorem foldlM (I : σ → Prop) (f : σ → α → Traced ω ε σ) (l : List α)
    (hstep : ∀ a ∈ l, ∀ s, I s → Safe P (f s a) I) (s : σ) (hs : I s) :
    Safe P (l.foldlM f s) I := by
  induction l generalizing s with
  | nil => exact pure hs
  | cons a l ih =>
    rw [List.foldlM_cons]
    refine bind (hstep a (by simp) s hs) fun t ht => ?_
    exact ih (fun b hb => hstep b (by simp [hb])) t ht

end Safe

/-! ## Both ways to end -/

def Settles (P : ω → Prop) (E : ε → Prop) (x : Traced ω ε α) (Q : α → Prop) : Prop :=
  ∀ n, (∀ e ∈ (x n).1, P e) ∧ Ends E Q (x n).2

namespace Settles

variable {P : ω → Prop} {E : ε → Prop} {x : Traced ω ε α} {Q : α → Prop}

theorem pure {a : α} (h : Q a) : Settles P E (Pure.pure a : Traced ω ε α) Q :=
  fun _ => ⟨fun _ he => absurd he List.not_mem_nil, h⟩

theorem lift {r : Except ε α} (h : Ends E Q r) : Settles P E (Traced.lift r : Traced ω ε α) Q :=
  fun _ => ⟨fun _ he => absurd he List.not_mem_nil, h⟩

theorem mono {E' : ε → Prop} {R : α → Prop} (h : Settles P E x Q) (hE : ∀ e, E e → E' e)
    (hQ : ∀ a, Q a → R a) : Settles P E' x R := fun n => ⟨(h n).1, (h n).2.mono hE hQ⟩

theorem report {e : ω} (h : P e) : Settles P E (Traced.report e : Traced ω ε Unit) fun _ => True :=
  fun _ => ⟨fun _ he => List.mem_singleton.1 he ▸ h, trivial⟩

theorem tick : Settles P E (Traced.tick : Traced ω ε Nat) fun _ => True :=
  fun _ => ⟨fun _ he => absurd he List.not_mem_nil, trivial⟩

theorem bind {f : α → Traced ω ε β} {S : β → Prop} (hx : Settles P E x Q)
    (hf : ∀ a, Q a → Settles P E (f a) S) : Settles P E (x >>= f) S := by
  intro n
  change (∀ e ∈ (Traced.bind x f n).1, P e) ∧ Ends E S (Traced.bind x f n).2
  unfold Traced.bind
  have hxn := hx n
  cases hrun : x n with
  | mk l r =>
    rw [hrun] at hxn
    cases r with
    | error e => exact hxn
    | ok a =>
      obtain ⟨hevents, hends⟩ := hf a hxn.2 (n + l.length)
      refine ⟨fun e he => ?_, hends⟩
      rcases List.mem_append.1 he with he | he
      · exact hxn.1 e he
      · exact hevents e he

/-- Where nothing is asked of the events and of the exception. -/
theorem of_ensures (h : Ensures (fun _ => True) x Q) :
    Settles (fun _ => True) (fun _ => True) x Q := by
  intro n
  refine ⟨fun _ _ => trivial, ?_⟩
  cases hr : (x n).2 with
  | error e => exact trivial
  | ok a => exact h n (fun _ _ => trivial) a hr

theorem mapBoth {ε' : Type} {f : ε → ε'} {g : α → β} {E' : ε' → Prop} {S : β → Prop}
    (h : Settles P E x Q) (hf : ∀ e, E e → E' (f e)) (hg : ∀ a, Q a → S (g a)) :
    Settles P E' (Traced.mapBoth f g x) S := by
  intro n
  have hxn := h n
  unfold Traced.mapBoth
  cases hrun : x n with
  | mk l r =>
    rw [hrun] at hxn
    cases r with
    | error e => exact ⟨hxn.1, hf e hxn.2⟩
    | ok a => exact ⟨hxn.1, hg a hxn.2⟩

theorem and {P' : ω → Prop} {R : α → Prop} (h : Settles P E x Q) (h' : Safe P' x R) :
    Settles P E x fun a => Q a ∧ R a := by
  intro n
  have hxn := (h n).2
  have hxn' := (h' n).2
  refine ⟨(h n).1, ?_⟩
  cases hr : (x n).2 with
  | error e => exact hxn.of_error hr
  | ok a => exact ⟨hxn.of_ok hr, hxn' a hr⟩

theorem dry {mark : ω → ω} (hmark : ∀ e, P e → P (mark e)) (h : Settles P E x Q) :
    Settles P E (Traced.dry mark x) Q := by
  intro n
  refine ⟨fun e he => ?_, (h n).2⟩
  obtain ⟨e', he', rfl⟩ := List.mem_map.1 he
  exact hmark e' ((h n).1 e' he')

/-- An attempt throws nothing, it returns how its part ended. -/
theorem attempt {E' : ε → Prop} {mark : ω → ω} (hmark : ∀ e, P e → P (mark e))
    (h : Settles P E x Q) : Settles P E' (Traced.attempt mark x) fun r => Ends E Q r := by
  intro n
  have hxn := h n
  unfold Traced.attempt
  cases hrun : x n with
  | mk l r =>
    rw [hrun] at hxn
    cases r with
    | error e =>
      refine ⟨fun e he => ?_, hxn.2⟩
      obtain ⟨e', he', rfl⟩ := List.mem_map.1 he
      exact hmark e' (hxn.1 e' he')
    | ok a => exact hxn

theorem foldlM (I : σ → Prop) (f : σ → α → Traced ω ε σ) (l : List α)
    (hstep : ∀ a ∈ l, ∀ s, I s → Settles P E (f s a) I) (s : σ) (hs : I s) :
    Settles P E (l.foldlM f s) I := by
  induction l generalizing s with
  | nil => exact pure hs
  | cons a l ih =>
    rw [List.foldlM_cons]
    refine bind (hstep a (by simp) s hs) fun t ht => ?_
    exact ih (fun b hb => hstep b (by simp [hb])) t ht

end Settles

/-! ## Runs that follow each other -/

def Simulates {ε' : Type} (x : Traced ω ε α) (y : Traced ω ε' β) (R : α → β → Prop) : Prop :=
  ∀ n a, (x n).2 = .ok a → ∃ b, (y n).2 = .ok b ∧ (y n).1 = (x n).1 ∧ R a b

namespace Simulates

variable {ε' α' β' τ : Type} {x : Traced ω ε α} {y : Traced ω ε' β} {R : α → β → Prop}

theorem pure {a : α} {b : β} (h : R a b) :
    Simulates (Pure.pure a : Traced ω ε α) (Pure.pure b : Traced ω ε' β) R := by
  intro n a' ha
  have heq : a = a' := Except.ok.inj ha
  exact ⟨b, rfl, rfl, heq ▸ h⟩

theorem lift {r : Except ε α} {q : Except ε' β} (h : ∀ a, r = .ok a → ∃ b, q = .ok b ∧ R a b) :
    Simulates (Traced.lift r : Traced ω ε α) (Traced.lift q : Traced ω ε' β) R := by
  intro n a ha
  obtain ⟨b, hb, hR⟩ := h a ha
  exact ⟨b, hb, rfl, hR⟩

theorem bind {f : α → Traced ω ε α'} {g : β → Traced ω ε' β'} {S : α' → β' → Prop}
    (hxy : Simulates x y R) (hfg : ∀ a b, R a b → Simulates (f a) (g b) S) :
    Simulates (x >>= f) (y >>= g) S := by
  intro n c hc
  obtain ⟨a, ha, hfa, htrace⟩ := bind_eq_ok hc
  obtain ⟨b, hb, hyx, hR⟩ := hxy n a ha
  obtain ⟨d, hd, hgf, hS⟩ := hfg a b hR _ c hfa
  have hrun : (y >>= g) n = ((y n).1 ++ (g b (n + (y n).1.length)).1,
      (g b (n + (y n).1.length)).2) := by
    change Traced.bind y g n = _
    unfold Traced.bind
    cases hy : y n with
    | mk l r =>
      rw [hy] at hb
      cases hb
      rfl
  refine ⟨d, ?_, ?_, hS⟩
  · rw [hrun, hyx]
    exact hd
  · rw [hrun, hyx, htrace, hgf]

/-- One run under two ways to carry its result. -/
theorem mapBoth {α₁ ε₁ : Type} {z : Traced ω ε₁ α₁} {f : ε₁ → ε} {f' : ε₁ → ε'} {g : α₁ → α}
    {g' : α₁ → β} (h : ∀ n c, (z n).2 = .ok c → R (g c) (g' c)) :
    Simulates (Traced.mapBoth f g z : Traced ω ε α) (Traced.mapBoth f' g' z) R := by
  intro n a ha
  have hz := h n
  unfold Traced.mapBoth at ha ⊢
  cases hrun : z n with
  | mk l r =>
    rw [hrun] at ha hz
    cases r with
    | error e => cases ha
    | ok c =>
      cases ha
      exact ⟨g' c, rfl, rfl, hz c rfl⟩

theorem foldlM {f : σ → α → Traced ω ε σ} {g : τ → α → Traced ω ε' τ} {P : σ → τ → Prop}
    (l : List α) (hfg : ∀ a ∈ l, ∀ s t, P s t → Simulates (f s a) (g t a) P) (s : σ) (t : τ)
    (hst : P s t) : Simulates (l.foldlM f s) (l.foldlM g t) P := by
  induction l generalizing s t with
  | nil => exact pure hst
  | cons a l ih =>
    rw [List.foldlM_cons, List.foldlM_cons]
    refine bind (hfg a (by simp) s t hst) fun s' t' hst' => ?_
    exact ih (fun b hb => hfg b (by simp [hb])) s' t' hst'

end Simulates

end Traced

end VizCore.Lib
