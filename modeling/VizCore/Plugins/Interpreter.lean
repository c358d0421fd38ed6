import VizCore.Lib.Session
import VizCore.Protocol.Operations

/-!
# Interpreters of custom operations

A plugin reads the text of a custom operation as operations of its own and applies them in an undo
session, provided that they require the authorities of the custom operation.

* `applyOperations_ok`: what has been checked when the operations have been applied;
* `interpret_cases`: the operations are applied completely or not at all.
-/

namespace VizCore.Plugins

open VizCore.Lib VizCore.Protocol

/-- More authorities for the sorted sets of a `RequiredAuthorities`. -/
def collect (r q : RequiredAuthorities) : RequiredAuthorities :=
  { active := q.active.foldl (fun s n => insertName n s) r.active
    master := q.master.foldl (fun s n => insertName n s) r.master
    regular := q.regular.foldl (fun s n => insertName n s) r.regular
    other := r.other ++ q.other }

/-- The operations `ω` of a plugin on the state `σ`, and how they are read from variants `V`. -/
structure CustomOperations (V ω σ : Type) where
  fromString : String → Result V
  /-- `is_array` and `get_array` -/
  getArray : V → Option (List V)
  fromVariant : V → Result ω
  validate : ω → Result Unit
  requiredAuthorities : ω → RequiredAuthorities
  apply : ω → EStateM Exception σ Unit

namespace CustomOperations

variable {V ω σ : Type} (P : CustomOperations V ω σ)

/-- The authorities that the inner operations require. -/
def inner (ops : List ω) : RequiredAuthorities :=
  ops.foldl (fun r op => collect r (P.requiredAuthorities op)) {}

/-- `apply_operations` -/
def applyOperations (ops : List ω) (outer : Operation) : EStateM Exception σ Unit := session do
  let required := RequiredAuthorities.add {} outer
  ofResult (ops.forM P.validate)
  ofResult (fcAssert ((P.inner ops).master = required.master) "inner_master == outer_master")
  ofResult (fcAssert ((P.inner ops).active = required.active) "inner_active == outer_active")
  ofResult (fcAssert ((P.inner ops).regular = required.regular) "inner_regular == outer_regular")
  ofResult (fcAssert ((P.inner ops).other = required.other) "inner_other == outer_other")
  ops.forM P.apply

/-- An array of arrays is a list of operations; everything else is one operation. -/
def readOperations (v : V) : Result (List ω) :=
  match P.getArray v with
  | some (first :: rest) =>
    if (P.getArray first).isSome then (first :: rest).mapM P.fromVariant
    else List.singleton <$> P.fromVariant v
  | _ => List.singleton <$> P.fromVariant v

/-- `generic_custom_operation_interpreter::apply` -/
def interpret (o : CustomOperation) : EStateM Exception σ Unit := do
  let v ← ofResult (P.fromString o.json)
  let ops ← ofResult (P.readOperations v)
  P.applyOperations ops (.custom o)

/-- The inner operations are valid and together require what the custom operation required. -/
structure Permitted (ops : List ω) (o : CustomOperation) : Prop where
  valid : ∀ op ∈ ops, P.validate op = .ok ()
  active : ∀ n, n ∈ o.requiredActiveAuths ↔ ∃ op ∈ ops, n ∈ (P.requiredAuthorities op).active
  master : ∀ op ∈ ops, (P.requiredAuthorities op).master = []
  regular : ∀ n, n ∈ o.requiredRegularAuths ↔ ∃ op ∈ ops, n ∈ (P.requiredAuthorities op).regular
  other : ∀ op ∈ ops, (P.requiredAuthorities op).other = []

/-- All of the operations that the text `json` stands for have been applied, one after another. -/
structure Applied (o : CustomOperation) (json : String) (s t : σ) : Prop where
  run : ∃ v ops, P.fromString json = .ok v ∧ P.readOperations v = .ok ops ∧ P.Permitted ops o ∧
    ops.forM P.apply s = .ok () t

end CustomOperations

/-! ## Sets of names -/

section Sets

variable {V ω σ : Type} {P : CustomOperations V ω σ}

theorem mem_foldl_collect {field : RequiredAuthorities → List AccountName}
    (hfield : ∀ r q n, n ∈ field (collect r q) ↔ n ∈ field q ∨ n ∈ field r)
    (hempty : field {} = []) (ops : List ω) (n : AccountName) :
    n ∈ field (P.inner ops) ↔ ∃ op ∈ ops, n ∈ field (P.requiredAuthorities op) := by
  have hfold : ∀ r, n ∈ field (ops.foldl (fun r op => collect r (P.requiredAuthorities op)) r) ↔
      (∃ op ∈ ops, n ∈ field (P.requiredAuthorities op)) ∨ n ∈ field r := by
    induction ops with
    | nil => simp
    | cons op ops ih =>
      intro r
      simp only [List.foldl_cons, ih, hfield, List.mem_cons, exists_eq_or_imp]
      rw [or_left_comm, or_assoc]
  unfold CustomOperations.inner
  rw [hfold, hempty]
  simp

theorem mem_inner_active (ops : List ω) (n : AccountName) :
    n ∈ (P.inner ops).active ↔ ∃ op ∈ ops, n ∈ (P.requiredAuthorities op).active :=
  mem_foldl_collect (fun r q _ => mem_foldl_insertName _ q.active r.active) rfl ops n

theorem mem_inner_master (ops : List ω) (n : AccountName) :
    n ∈ (P.inner ops).master ↔ ∃ op ∈ ops, n ∈ (P.requiredAuthorities op).master :=
  mem_foldl_collect (fun r q _ => mem_foldl_insertName _ q.master r.master) rfl ops n

theorem mem_inner_regular (ops : List ω) (n : AccountName) :
    n ∈ (P.inner ops).regular ↔ ∃ op ∈ ops, n ∈ (P.requiredAuthorities op).regular :=
  mem_foldl_collect (fun r q _ => mem_foldl_insertName _ q.regular r.regular) rfl ops n

theorem inner_other (ops : List ω) :
    (P.inner ops).other = ops.flatMap fun op => (P.requiredAuthorities op).other := by
  have hfold : ∀ r, (ops.foldl (fun r op => collect r (P.requiredAuthorities op)) r).other =
      r.other ++ ops.flatMap fun op => (P.requiredAuthorities op).other := by
    induction ops with
    | nil => simp
    | cons op ops ih =>
      intro r
      rw [List.foldl_cons, ih, List.flatMap_cons, ← List.append_assoc]
      rfl
  exact hfold {}

theorem mem_outer {o : CustomOperation} {n : AccountName} :
    (n ∈ (RequiredAuthorities.add {} (.custom o)).active ↔ n ∈ o.requiredActiveAuths) ∧
      (n ∈ (RequiredAuthorities.add {} (.custom o)).regular ↔ n ∈ o.requiredRegularAuths) := by
  constructor
  · refine (mem_foldl_insertName n o.requiredActiveAuths []).trans ?_
    simp
  · refine (mem_foldl_insertName n o.requiredRegularAuths []).trans ?_
    simp

end Sets

/-! ## Complete or not at all -/

namespace CustomOperations

variable {V ω σ : Type} {P : CustomOperations V ω σ} {o : CustomOperation} {s t : σ}

/-- What has been checked when the operations have been applied. -/
theorem applyOperations_ok {ops : List ω}
    (h : P.applyOperations ops (.custom o) s = .ok () t) :
    P.Permitted ops o ∧ ops.forM P.apply s = .ok () t := by
  rw [applyOperations, session_eq_ok] at h
  simp only [bind_apply_eq_ok, ofResult_eq_ok, fcAssert_eq_ok] at h
  obtain ⟨_, _, ⟨hvalid, rfl⟩, _, _, ⟨hmaster, rfl⟩, _, _, ⟨hactive, rfl⟩, _, _, ⟨hregular, rfl⟩,
    _, _, ⟨hother, rfl⟩, hrun⟩ := h
  refine ⟨⟨?_, fun n => ?_, fun op hop => ?_, fun n => ?_, fun op hop => ?_⟩, hrun⟩
  · exact forM_eq_ok.1 hvalid
  · rw [← mem_inner_active, hactive]
    exact mem_outer.1.symm
  · rw [List.eq_nil_iff_forall_not_mem]
    intro n hn
    have hmem := (mem_inner_master ops n).2 ⟨op, hop, hn⟩
    rw [hmaster] at hmem
    exact List.not_mem_nil hmem
  · rw [← mem_inner_regular, hregular]
    exact mem_outer.2.symm
  · rw [inner_other] at hother
    exact List.flatMap_eq_nil_iff.1 hother op hop

/-- A text that is read is interpreted by a session. -/
theorem interpret_of_read {v : V} {ops : List ω} (hv : P.fromString o.json = .ok v)
    (hops : P.readOperations v = .ok ops) (s : σ) :
    P.interpret o s = P.applyOperations ops (.custom o) s := by
  unfold interpret
  rw [hv]
  show (ofResult (P.readOperations v) >>= _) s = _
  rw [hops]
  rfl

/-- A text that is not read is refused. -/
theorem interpret_of_unread (hread : ∀ v ops, P.fromString o.json = .ok v →
    P.readOperations v ≠ .ok ops) (s : σ) : ∃ e, P.interpret o s = .error e s := by
  unfold interpret
  cases hv : P.fromString o.json with
  | error e => exact ⟨e, rfl⟩
  | ok v =>
    cases hops : P.readOperations v with
    | error e =>
      refine ⟨e, ?_⟩
      show (ofResult (P.readOperations v) >>= _) s = _
      rw [hops]
      rfl
    | ok ops => exact absurd hops (hread v ops hv)

theorem interpret_or (P : CustomOperations V ω σ) (o : CustomOperation) (s : σ) :
    leaves (P.interpret o) s = s ∨ ∃ v ops, P.fromString o.json = .ok v ∧
      P.readOperations v = .ok ops ∧
      leaves (P.interpret o) s = leaves (P.applyOperations ops (.custom o)) s := by
  by_cases hread : ∃ v ops, P.fromString o.json = .ok v ∧ P.readOperations v = .ok ops
  · obtain ⟨v, ops, hv, hops⟩ := hread
    refine .inr ⟨v, ops, hv, hops, ?_⟩
    unfold leaves
    rw [interpret_of_read hv hops]
  · obtain ⟨e, hrun⟩ := interpret_of_unread (P := P) (o := o)
      (fun v ops hv hops => hread ⟨v, ops, hv, hops⟩) s
    refine .inl ?_
    unfold leaves
    rw [hrun]

/-- What every operation keeps is kept by interpreting a text. -/
theorem interpret_maintains {I : σ → Prop} (hI : ∀ op, Maintains I (P.apply op))
    (o : CustomOperation) : Maintains I (P.interpret o) := by
  unfold interpret
  refine (Maintains.ofResult _).bind fun v => ?_
  refine (Maintains.ofResult _).bind fun ops => ?_
  refine Maintains.session ?_
  refine (Maintains.ofResult _).bind fun _ => ?_
  refine (Maintains.ofResult _).bind fun _ => ?_
  refine (Maintains.ofResult _).bind fun _ => ?_
  refine (Maintains.ofResult _).bind fun _ => ?_
  refine (Maintains.ofResult _).bind fun _ => ?_
  exact .forM hI ops

/-- **Interpreters** apply all operations of the text, or the state is as before. -/
theorem interpret_cases (P : CustomOperations V ω σ) (o : CustomOperation) (s : σ) :
    leaves (P.interpret o) s = s ∨ P.Applied o o.json s (leaves (P.interpret o) s) := by
  rcases interpret_or P o s with heq | ⟨v, ops, hv, hops, heq⟩
  · exact .inl heq
  · rw [heq]
    rcases session_cases _ s with hsame | ⟨u, hrun⟩
    · exact .inl hsame
    · have hok := session_eq_ok.2 hrun
      obtain ⟨hpermitted, happlied⟩ := applyOperations_ok hok
      exact .inr ⟨v, ops, hv, hops, hpermitted, happlied⟩

end CustomOperations

end VizCore.Plugins
