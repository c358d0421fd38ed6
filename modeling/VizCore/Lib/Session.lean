import VizCore.Lib.Except

/-!
# Exceptions and undo sessions

A computation on a mutable state that throws leaves behind what it has changed, as `EStateM` has
it.  A session takes the changes back.

* `Maintains`: a property of the state that a computation keeps, however it ends;
* `Untouched`: a view of the state that a computation does not change, however it ends;
* `session_cases`: what runs in a session is done completely or not at all.
-/

namespace VizCore.Lib

variable {ε σ κ α β : Type}

/-- The state after a computation, whether or not it throws. -/
def leaves (x : EStateM ε σ α) (s : σ) : σ :=
  match x s with
  | .ok _ t => t
  | .error _ t => t

/-- A computation that does not look at the state. -/
def ofResult (r : Except ε α) : EStateM ε σ α := fun s =>
  match r with
  | .ok a => .ok a s
  | .error e => .error e s

/-- An undo session: squashed at the end, undone when an exception leaves it.  The law assumed of
the store behind the state: a squash keeps the changes, and undoing takes all of them back. -/
def session (x : EStateM ε σ α) : EStateM ε σ α := fun s =>
  match x s with
  | .ok a t => .ok a t
  | .error e _ => .error e s

/-- Exceptions that `drop` selects are caught; their changes stay. -/
def catching (drop : ε → Bool) (x : EStateM ε σ Unit) : EStateM ε σ Unit := fun s =>
  match x s with
  | .ok a t => .ok a t
  | .error e t => if drop e then .ok () t else .error e t

theorem forM_eq_ok {f : α → Except ε Unit} {l : List α} {u : Unit} :
    l.forM f = .ok u ↔ ∀ a ∈ l, f a = .ok () := by
  induction l with
  | nil => simp [List.forM]
  | cons a l ih =>
    rw [List.forM_eq_forM, List.forM_cons, bind_eq_ok, List.forall_mem_cons]
    rw [List.forM_eq_forM] at ih
    rw [← ih]
    constructor
    · rintro ⟨_, ha, hl⟩
      exact ⟨ha, hl⟩
    · rintro ⟨ha, hl⟩
      exact ⟨(), ha, hl⟩

theorem bind_apply_eq_ok {x : EStateM ε σ α} {f : α → EStateM ε σ β} {s u : σ} {b : β} :
    (x >>= f) s = .ok b u ↔ ∃ a t, x s = .ok a t ∧ f a t = .ok b u := by
  show (match x s with | .ok a t => f a t | .error e t => .error e t) = _ ↔ _
  cases x s with
  | ok a t => simp
  | error e t => simp

theorem bind_apply_of_ok {x : EStateM ε σ α} {s t : σ} {a : α} (h : x s = .ok a t)
    (f : α → EStateM ε σ β) : (x >>= f) s = f a t := by
  show (match x s with | .ok a t => f a t | .error e t => .error e t) = _
  rw [h]

theorem bind_apply_of_error {x : EStateM ε σ α} {s t : σ} {e : ε} (h : x s = .error e t)
    (f : α → EStateM ε σ β) : (x >>= f) s = .error e t := by
  show (match x s with | .ok a t => f a t | .error e t => .error e t) = _
  rw [h]

theorem leaves_bind (x : EStateM ε σ α) (f : α → EStateM ε σ β) (s : σ) :
    leaves (x >>= f) s = leaves x s ∨ ∃ a, leaves (x >>= f) s = leaves (f a) (leaves x s) := by
  unfold leaves
  show (match (match x s with | .ok a t => f a t | .error e t => .error e t) with
    | .ok _ t => t | .error _ t => t) = _ ∨ ∃ a, (match (match x s with
    | .ok a t => f a t | .error e t => .error e t) with | .ok _ t => t | .error _ t => t) = _
  cases x s with
  | ok a t => exact .inr ⟨a, rfl⟩
  | error e t => exact .inl rfl

@[simp] theorem ofResult_eq_ok {r : Except ε α} {s t : σ} {a : α} :
    ofResult r s = .ok a t ↔ r = .ok a ∧ s = t := by
  cases r with
  | ok b => simp [ofResult]
  | error e => simp [ofResult]

theorem session_eq_ok {x : EStateM ε σ α} {s t : σ} {a : α} :
    session x s = .ok a t ↔ x s = .ok a t := by
  unfold session
  cases x s with
  | ok b u => rfl
  | error e u => simp

/-- **Sessions.**  The state is as before, or the computation has come to its end. -/
theorem session_cases (x : EStateM ε σ α) (s : σ) :
    leaves (session x) s = s ∨ ∃ a, x s = .ok a (leaves (session x) s) := by
  unfold leaves session
  cases x s with
  | ok a t => exact .inr ⟨a, rfl⟩
  | error e t => exact .inl rfl

/-- A session that throws has taken everything back. -/
theorem session_error {x : EStateM ε σ α} {s t : σ} {e : ε} (h : session x s = .error e t) :
    t = s := by
  unfold session at h
  cases hx : x s with
  | ok a u =>
    rw [hx] at h
    cases h
  | error e' u =>
    rw [hx] at h
    cases h
    rfl

@[simp] theorem leaves_catching (drop : ε → Bool) (x : EStateM ε σ Unit) (s : σ) :
    leaves (catching drop x) s = leaves x s := by
  unfold leaves catching
  cases x s with
  | ok a t => rfl
  | error e t =>
    dsimp only
    split
    · rename_i u heq
      split at heq
      · cases heq
        rfl
      · cases heq
    · rename_i e' u heq
      split at heq
      · cases heq
      · cases heq
        rfl

/-- Where every exception is caught, nothing is thrown. -/
theorem catching_eq_ok {drop : ε → Bool} (hdrop : ∀ e, drop e = true) (x : EStateM ε σ Unit)
    (s : σ) : catching drop x s = .ok () (leaves x s) := by
  unfold leaves catching
  cases x s with
  | ok a t => rfl
  | error e t => exact if_pos (hdrop e)

/-! ## What a computation keeps -/

/-- However the computation ends, what held before it holds after it. -/
def Maintains (I : σ → Prop) (x : EStateM ε σ α) : Prop := ∀ s, I s → I (leaves x s)

namespace Maintains

variable {I : σ → Prop}

theorem pure (a : α) : Maintains I (Pure.pure a : EStateM ε σ α) := fun _ h => h

theorem get : Maintains I (MonadState.get : EStateM ε σ σ) := fun _ h => h

theorem ofResult (r : Except ε α) : Maintains I (Lib.ofResult r : EStateM ε σ α) := by
  intro s h
  cases r with
  | ok a => exact h
  | error e => exact h

theorem modify {f : σ → σ} (h : ∀ s, I s → I (f s)) :
    Maintains I (MonadState.modifyGet fun s => ((), f s) : EStateM ε σ Unit) := h

theorem bind {x : EStateM ε σ α} {f : α → EStateM ε σ β} (hx : Maintains I x)
    (hf : ∀ a, Maintains I (f a)) : Maintains I (x >>= f) := by
  intro s h
  rcases leaves_bind x f s with heq | ⟨a, heq⟩
  · rw [heq]
    exact hx s h
  · rw [heq]
    exact hf a _ (hx s h)

theorem forM {f : α → EStateM ε σ Unit} (hf : ∀ a, Maintains I (f a)) (l : List α) :
    Maintains I (l.forM f) := by
  induction l with
  | nil => exact .pure _
  | cons a l ih => exact (hf a).bind fun _ => ih

theorem session {x : EStateM ε σ α} (hx : Maintains I x) : Maintains I (Lib.session x) := by
  intro s h
  rcases session_cases x s with heq | ⟨a, hrun⟩
  · rw [heq]
    exact h
  · have hleaves : leaves x s = leaves (Lib.session x) s := by
      conv_lhs => unfold leaves
      rw [hrun]
    rw [← hleaves]
    exact hx s h

theorem catching {x : EStateM ε σ Unit} (drop : ε → Bool) (hx : Maintains I x) :
    Maintains I (Lib.catching drop x) := by
  intro s h
  rw [leaves_catching]
  exact hx s h

end Maintains

/-! ## What a computation does not change -/

/-- However the computation ends, the view of the state is as before. -/
def Untouched (view : σ → κ) (x : EStateM ε σ α) : Prop := ∀ s, view (leaves x s) = view s

namespace Untouched

variable {view : σ → κ}

theorem pure (a : α) : Untouched view (Pure.pure a : EStateM ε σ α) := fun _ => rfl

theorem get : Untouched view (MonadState.get : EStateM ε σ σ) := fun _ => rfl

theorem iff_maintains {x : EStateM ε σ α} :
    Untouched view x ↔ ∀ k, Maintains (fun s => view s = k) x := by
  constructor
  · intro h k s hs
    exact (h s).trans hs
  · intro h s
    exact h (view s) s rfl

theorem ofResult (r : Except ε α) : Untouched view (Lib.ofResult r : EStateM ε σ α) :=
  iff_maintains.2 fun _ => .ofResult r

theorem modify {f : σ → σ} (h : ∀ s, view (f s) = view s) :
    Untouched view (MonadState.modifyGet fun s => ((), f s) : EStateM ε σ Unit) := h

theorem bind {x : EStateM ε σ α} {f : α → EStateM ε σ β} (hx : Untouched view x)
    (hf : ∀ a, Untouched view (f a)) : Untouched view (x >>= f) :=
  iff_maintains.2 fun k => (iff_maintains.1 hx k).bind fun a => iff_maintains.1 (hf a) k

theorem forM {f : α → EStateM ε σ Unit} (hf : ∀ a, Untouched view (f a)) (l : List α) :
    Untouched view (l.forM f) :=
  iff_maintains.2 fun k => .forM (fun a => iff_maintains.1 (hf a) k) l

end Untouched

end VizCore.Lib
