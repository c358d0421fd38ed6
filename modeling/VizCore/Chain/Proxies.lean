import VizCore.Chain.Invariant
import VizCore.Lib.Forest

/-!
# Proxies

An account may leave its votes to a proxy, which may have a proxy itself.  Every account counts
what the accounts own that reach it in one to four steps.

* `adjustProxiedWitnessVotes_carried`, `adjustProxiedWitnessVotesArray_carried`: a change of votes
  is carried up to the fourth proxy;
* `accountWitnessProxy_tallies`: a whole subtree changes its proxy;
* `proxy_tally_preserved`: everything that the chain does keeps the tallies, and no chain of
  proxies closes, as long as the system accounts have no proxy.
-/

namespace VizCore.Chain

open VizCore.Lib VizCore.Protocol

/-- What an account shows of its proxy and of the votes that it counts. -/
structure ProxyRow where
  name : AccountName
  shares : Int
  proxy : AccountName
  proxied : List Int
  deriving DecidableEq

/-- Level `0` are the own shares, the other levels the proxied votes. -/
def ProxyRow.level (r : ProxyRow) : Nat → Int
  | 0 => r.shares
  | n + 1 => r.proxied.getD n 0

/-- Rows hang below their proxies. -/
def proxyShape : Shape ProxyRow AccountName where
  key := (·.name)
  parent r := if r.proxy = "" then none else some r.proxy
  level := ProxyRow.level

def AccountObject.proxyRow (a : AccountObject) : ProxyRow :=
  ⟨a.name, a.vestingShares, a.proxy, a.proxiedVsfVotes⟩

def Db.proxies (db : Db) : Table ProxyRow := db.accounts.image AccountObject.proxyRow

/-- The accounts whose holdings are burnt or claimed in every block. -/
def systemAccounts : List AccountName := ["null", "anonymous", "committee"]

/-- The names are unique, a proxy is an account, no chain of proxies closes, and the system
accounts have no proxy. -/
structure Linked (t : Table ProxyRow) : Prop where
  names : t.Keyed (·.name)
  known : ∀ k p, proxyShape.parentOf t k = some p → t.get (·.name) p ≠ none
  acyclic : proxyShape.Acyclic t
  system : ∀ k ∈ systemAccounts, proxyShape.parentOf t k = none

/-- Every account counts the shares of the accounts that reach it in one to four steps. -/
structure Tallies (t : Table ProxyRow) : Prop extends Linked t where
  sized : t.All fun r => r.proxied.length = maxProxyRecursionDepth
  tally : proxyShape.Tallied maxProxyRecursionDepth t

/-- The same seen from the ballots. -/
def Aspect.View.proxies (v : Aspect.View .ballots) : Table ProxyRow :=
  Table.image (α := BallotRow) v.rows fun r => ⟨r.name, r.shares, r.proxy, r.proxied⟩

/-! ## Rows -/

namespace Db

variable {db db' : Db} {name : AccountName}

theorem proxies_view (db : Db) : (db.view .ballots).proxies = db.proxies := by
  have hcore := Table.image_image (β := AccountCore) (γ := BallotRow) db.accounts
    AccountObject.core (Aspect.row .ballots)
  have hrow := Table.image_image (β := BallotRow) db.accounts (fun a => Aspect.row .ballots a.core)
    fun r => ProxyRow.mk r.name r.shares r.proxy r.proxied
  exact (congrArg (Table.image · fun r : BallotRow =>
    ProxyRow.mk r.name r.shares r.proxy r.proxied) hcore).trans hrow

theorem proxies_of_core (h : db'.core = db.core) : db'.proxies = db.proxies := by
  rw [← proxies_view, ← proxies_view, view_of_core h]

theorem proxies_modifyAccount (db : Db) (name : AccountName) (f : AccountObject → AccountObject)
    (φ : ProxyRow → ProxyRow) (h : ∀ a, (f a).proxyRow = φ a.proxyRow) :
    (db.modifyAccount name f).proxies = db.proxies.update (·.name) name φ :=
  Table.image_update db.accounts AccountObject.proxyRow (·.name) name f φ h

theorem proxies_modifyAccount_of_same (db : Db) (name : AccountName)
    (f : AccountObject → AccountObject) (h : ∀ a, (f a).proxyRow = a.proxyRow) :
    (db.modifyAccount name f).proxies = db.proxies :=
  Table.image_update_of_same _ _ _ _ _ h

theorem proxies_modifyDgp (db : Db)
    (f : DynamicGlobalPropertyObject → DynamicGlobalPropertyObject) :
    (db.modifyDgp f).proxies = db.proxies := rfl

theorem proxies_find (db : Db) (name : AccountName) :
    db.proxies.get (·.name) name = (db.findAccount name).map AccountObject.proxyRow :=
  Table.get_image _ _ _ _

theorem proxies_find_of_found {a : AccountObject} (h : db.findAccount name = some a) :
    db.proxies.get proxyShape.key name = some a.proxyRow :=
  (proxies_find db name).trans (congrArg _ h)

theorem parentOf_of_found {a : AccountObject} (h : db.findAccount name = some a) :
    proxyShape.parentOf db.proxies name = if a.proxy = "" then none else some a.proxy :=
  Shape.parentOf_of_get (proxies_find_of_found h)

end Db

/-- The same accounts with the same proxies; the row `skip` is not touched. -/
structure SameLinks (skip : Option AccountName) (t t' : Table ProxyRow) : Prop where
  names : t'.rows.map (·.name) = t.rows.map (·.name)
  parents : ∀ k, proxyShape.parentOf t' k = proxyShape.parentOf t k
  skipped : ∀ k, skip = some k → t'.get (·.name) k = t.get (·.name) k

namespace SameLinks

variable {skip : Option AccountName} {t t' t'' : Table ProxyRow}

theorem refl (skip : Option AccountName) (t : Table ProxyRow) : SameLinks skip t t :=
  ⟨rfl, fun _ => rfl, fun _ _ => rfl⟩

theorem trans (h : SameLinks skip t t') (h' : SameLinks skip t' t'') : SameLinks skip t t'' :=
  ⟨h'.names.trans h.names, fun k => (h'.parents k).trans (h.parents k),
    fun k hk => (h'.skipped k hk).trans (h.skipped k hk)⟩

theorem step (h : SameLinks skip t t') {a b : AccountName} (hab : proxyShape.Step t' a b) :
    proxyShape.Step t a b := by
  unfold Shape.Step at hab ⊢
  rw [← h.parents]
  exact hab

theorem get_eq_none (h : SameLinks skip t t') (k : AccountName) :
    t'.get (·.name) k = none ↔ t.get (·.name) k = none := by
  have hnames (u : Table ProxyRow) : u.get (·.name) k = none ↔ k ∉ u.rows.map (·.name) := by
    simp [Table.get, List.find?_eq_none]
  rw [hnames, hnames, h.names]

end SameLinks

/-! ## Walking up -/

/-- A change that has climbed `j` steps. -/
def lag (j : Nat) (δ : Nat → Int) (n : Nat) : Int := if n < j then 0 else δ (n - j)

theorem lag_zero (δ : Nat → Int) : lag 0 δ = δ := by
  funext n
  simp [lag]

/-- The entries that the walk over all levels adds, seen from one entry. -/
theorem sum_range_lag {δ : Nat → Int} {levels n : Nat} (hlevels : levels + 1 ≤ 4)
    (hn : n < maxProxyRecursionDepth) :
    ((List.range (levels + 1)).map fun i =>
      if n = i + (maxProxyRecursionDepth - 1 - levels) then δ i else 0).sum =
      lag (maxProxyRecursionDepth - (levels + 1)) δ n := by
  unfold maxProxyRecursionDepth at *
  unfold lag
  have hlevels' : levels < 4 := by omega
  interval_cases levels <;> interval_cases n <;> simp [List.range_succ]

/-- A change `d` is on its way to the row `target`. -/
structure Climbing (skip target : Option AccountName) (d : Nat → Int) (t : Table ProxyRow) :
    Prop where
  sized : t.All fun r => r.proxied.length = maxProxyRecursionDepth
  pending : proxyShape.Pending maxProxyRecursionDepth t skip target d

/-- The change has been carried through, from `t` to `t'`. -/
structure Carried (skip : Option AccountName) (t t' : Table ProxyRow) : Prop where
  links : SameLinks skip t t'
  settled : Climbing skip none 0 t'

namespace Climbing

variable {skip target : Option AccountName} {d : Nat → Int} {t : Table ProxyRow}

theorem settle (h : Climbing skip target d t)
    (hd : ∀ n < maxProxyRecursionDepth, target = none ∨ d n = 0) : Climbing skip none 0 t :=
  ⟨h.sized, h.pending.settle hd⟩

/-- The proxy `p` counts what has reached it. -/
theorem lift {p : AccountName} {r : ProxyRow} {votes : List Int} {j : Nat} {δ : Nat → Int}
    (h : Climbing skip (some p) (lag j δ) t) (hp : t.get (·.name) p = some r) (hskip : some p ≠ skip)
    (hlength : votes.length = maxProxyRecursionDepth)
    (hvotes : ∀ n < maxProxyRecursionDepth, votes.getD n 0 = r.proxied.getD n 0 + lag j δ n) :
    let t' := t.update (·.name) p fun r => { r with proxied := votes }
    SameLinks skip t t' ∧ Climbing skip (proxyShape.parentOf t' p) (lag (j + 1) δ) t' := by
  intro t'
  have hparents (k : AccountName) : proxyShape.parentOf t' k = proxyShape.parentOf t k := by
    refine Shape.parentOf_update_of_same (S := proxyShape) (p := p)
      (f := fun r => { r with proxied := votes }) ?_ ?_ k
    · exact fun _ => rfl
    · exact fun _ => rfl
  refine ⟨⟨?_, hparents, ?_⟩, ?_, ?_⟩
  · refine Table.updateRows_map (·.name) p (fun r => { r with proxied := votes }) _ ?_ t.rows
    exact fun _ => rfl
  · intro k hk
    refine Table.get_update_ne t _ _ ?_ fun _ => rfl
    rintro rfl
    exact hskip hk.symm
  · exact Table.all_update h.sized fun _ _ _ => hlength
  · rw [hparents, Shape.parentOf_of_get (S := proxyShape) hp]
    refine h.pending.move hp hskip (fun q hq => (Option.some.inj hq).symm) (fun _ => rfl) rfl ?_ ?_
    · intro n hn
      cases n with
      | zero => exact (add_zero _).symm
      | succ n =>
        have hlag : lag (j + 1) δ (n + 1) = lag j δ n := by simp [lag]
        rw [hlag]
        exact hvotes n hn
    · intro n _
      simp [lag]

end Climbing

namespace Db

variable {db db' : Db} {name : AccountName} {skip : Option AccountName}

theorem adjustWitnessVotes_proxies {delta : Int} (h : db.adjustWitnessVotes name delta = .ok db') :
    db'.proxies = db.proxies := by
  simp only [adjustWitnessVotes, bind_eq_ok] at h
  obtain ⟨a, -, h⟩ := h
  split at h
  · simp only [bind_eq_ok] at h
    obtain ⟨_, -, weight, -, h⟩ := h
    refine foldlM_invariant (fun s => s.proxies = db.proxies) _ _ (fun v _ s s' hs hv => ?_) _ _ ?_ h
    · simp only [adjustWitnessVote, bind_eq_ok, pure_eq_ok] at hv
      obtain ⟨_, -, _, -, rfl⟩ := hv
      exact hs
    · exact proxies_modifyAccount_of_same db name _ fun _ => rfl
  · rw [pure_eq_ok] at h
    rw [h]

/-- A root has nobody to tell. -/
theorem carried_of_root {a : AccountObject} {d : Nat → Int} (ha : db.findAccount name = some a)
    (hroot : a.proxy = "") (hsame : db'.proxies = db.proxies)
    (h : Climbing skip (proxyShape.parentOf db.proxies name) d db.proxies) :
    Carried skip db.proxies db'.proxies := by
  rw [parentOf_of_found ha, if_pos hroot] at h
  rw [hsame]
  exact ⟨.refl _ _, h.settle fun _ _ => .inl rfl⟩

/-- After four steps nothing is left of a change. -/
theorem carried_of_far {target : Option AccountName} {δ : Nat → Int}
    (h : Climbing skip target (lag maxProxyRecursionDepth δ) db.proxies) :
    Carried skip db.proxies db.proxies :=
  ⟨.refl _ _, h.settle fun _ hn => .inr (if_pos hn)⟩

/-- The step that both walks make: the proxy of `a` counts the change, and the walk goes on from
there. -/
theorem carried_of_step {a proxy : AccountObject} {votes : List Int} {j : Nat} {δ : Nat → Int}
    (ha : db.findAccount name = some a) (hproxy : db.findAccount a.proxy = some proxy)
    (hne : a.proxy ≠ "") (hskip : ∀ p, Relation.TransGen (proxyShape.Step db.proxies) name p →
      some p ≠ skip)
    (hlength : votes.length = proxy.proxiedVsfVotes.length)
    (hvotes : ∀ n < maxProxyRecursionDepth,
      votes.getD n 0 = proxy.proxiedVsfVotes.getD n 0 + lag j δ n)
    (h : Climbing skip (proxyShape.parentOf db.proxies name) (lag j δ) db.proxies)
    (hrest : ∀ db₁ : Db, db₁ = db.modifyAccount a.proxy (fun p => { p with proxiedVsfVotes := votes }) →
      (∀ p, Relation.TransGen (proxyShape.Step db₁.proxies) a.proxy p → some p ≠ skip) →
      Climbing skip (proxyShape.parentOf db₁.proxies a.proxy) (lag (j + 1) δ) db₁.proxies →
      Carried skip db₁.proxies db'.proxies) :
    Carried skip db.proxies db'.proxies := by
  have hparent : proxyShape.parentOf db.proxies name = some a.proxy := by
    rw [parentOf_of_found ha, if_neg hne]
  have hrow := proxies_find_of_found hproxy
  have hsize : proxy.proxiedVsfVotes.length = maxProxyRecursionDepth :=
    h.sized _ (Table.get_mem hrow)
  rw [hparent] at h
  obtain ⟨hlinks, hclimb⟩ := h.lift hrow (hskip _ (.single hparent)) (hlength.trans hsize) hvotes
  have hdb : (db.modifyAccount a.proxy fun p => { p with proxiedVsfVotes := votes }).proxies =
      db.proxies.update (·.name) a.proxy fun r => { r with proxied := votes } :=
    proxies_modifyAccount db a.proxy _ _ fun _ => rfl
  rw [← hdb] at hlinks hclimb
  have hskip' (p : AccountName) (hp : Relation.TransGen (proxyShape.Step
      (db.modifyAccount a.proxy fun p => { p with proxiedVsfVotes := votes }).proxies) a.proxy p) :
      some p ≠ skip :=
    hskip p (Relation.TransGen.head hparent
      (Relation.TransGen.mono (fun _ _ => hlinks.step) _ _ hp))
  obtain ⟨hlinks', hsettled⟩ := hrest _ rfl hskip' hclimb
  exact ⟨hlinks.trans hlinks', hsettled⟩

/-- Adding to one entry of the proxied votes. -/
theorem addProxiedVotes_eq {votes votes' : List Int} {depth : Nat} {delta : Int}
    (hdepth : depth < votes.length) (h : addProxiedVotes votes depth delta = .ok votes') :
    votes'.length = votes.length ∧
      ∀ n, votes'.getD n 0 = votes.getD n 0 + if n = depth then delta else 0 := by
  simp only [addProxiedVotes, bind_eq_ok, safeAdd_eq_ok, pure_eq_ok] at h
  obtain ⟨_, ⟨-, rfl⟩, rfl⟩ := h
  refine ⟨List.length_set, fun n => ?_⟩
  by_cases hn : n = depth
  · subst hn
    simp [List.getD_eq_getElem?_getD, List.getElem?_set_self hdepth]
  · simp [List.getD_eq_getElem?_getD, List.getElem?_set_ne (Ne.symm hn), hn]

/-- Adding to several entries. -/
theorem addProxiedVotes_fold {votes votes' : List Int} {depth : Nat} {delta : List Int}
    {l : List Nat} (hl : ∀ i ∈ l, i + depth < votes.length)
    (h : l.foldlM (fun votes i => addProxiedVotes votes (i + depth) (delta.getD i 0)) votes =
      .ok votes') :
    votes'.length = votes.length ∧ ∀ n, votes'.getD n 0 = votes.getD n 0 +
      (l.map fun i => if n = i + depth then delta.getD i 0 else 0).sum := by
  induction l generalizing votes with
  | nil =>
    cases h
    simp
  | cons i rest ih =>
    rw [List.foldlM_cons, bind_eq_ok] at h
    obtain ⟨votes₁, hstep, hrest⟩ := h
    obtain ⟨hlength, hget⟩ := addProxiedVotes_eq (hl i List.mem_cons_self) hstep
    obtain ⟨hlength', hget'⟩ := ih (fun j hj => by
      rw [hlength]
      exact hl j (List.mem_cons_of_mem i hj)) hrest
    refine ⟨hlength'.trans hlength, fun n => ?_⟩
    rw [hget', hget, List.map_cons, List.sum_cons, add_assoc]

/-- **One amount** is carried up, as it is when shares are created or withdrawn. -/
theorem adjustProxiedWitnessVotes_carried {delta : Int} {levels : Nat}
    (hlevels : levels ≤ maxProxyRecursionDepth)
    (h : adjustProxiedWitnessVotes delta levels db name = .ok db')
    (hskip : ∀ p, Relation.TransGen (proxyShape.Step db.proxies) name p → some p ≠ skip)
    (hclimb : Climbing skip (proxyShape.parentOf db.proxies name)
      (lag (maxProxyRecursionDepth - levels) fun n => if n = 0 then delta else 0) db.proxies) :
    Carried skip db.proxies db'.proxies := by
  induction levels generalizing db name with
  | zero =>
    simp only [adjustProxiedWitnessVotes, getAccount, bind_eq_ok, getOrThrow_eq_ok] at h
    obtain ⟨a, ha, h⟩ := h
    split at h
    · rename_i hroot
      exact carried_of_root ha hroot (adjustWitnessVotes_proxies h) hclimb
    · rw [pure_eq_ok] at h
      exact h ▸ carried_of_far hclimb
  | succ levels ih =>
    simp only [adjustProxiedWitnessVotes, getAccount, bind_eq_ok, getOrThrow_eq_ok] at h
    obtain ⟨a, ha, h⟩ := h
    split at h
    · rename_i hroot
      exact carried_of_root ha hroot (adjustWitnessVotes_proxies h) hclimb
    · rename_i hne
      simp only [bind_eq_ok, getOrThrow_eq_ok] at h
      obtain ⟨proxy, hproxy, votes, hvotes, h⟩ := h
      have hsize : proxy.proxiedVsfVotes.length = maxProxyRecursionDepth :=
        hclimb.sized _ (Table.get_mem (proxies_find_of_found hproxy))
      unfold maxProxyRecursionDepth at hlevels hsize
      obtain ⟨hlength, hget⟩ := addProxiedVotes_eq
        (by rw [hsize]; unfold maxProxyRecursionDepth; omega) hvotes
      refine carried_of_step ha hproxy hne hskip hlength ?_ hclimb ?_
      · intro n hn
        rw [hget]
        congr 1
        simp only [lag, maxProxyRecursionDepth]
        split_ifs <;> omega
      · rintro db₁ rfl hskip' hclimb'
        refine ih (by unfold maxProxyRecursionDepth; omega) h hskip' ?_
        have hlag : maxProxyRecursionDepth - (levels + 1) + 1 = maxProxyRecursionDepth - levels := by
          unfold maxProxyRecursionDepth
          omega
        rw [hlag] at hclimb'
        exact hclimb'

/-- **All levels** of an account are carried up, as they are when its proxy changes. -/
theorem adjustProxiedWitnessVotesArray_carried {delta : List Int} {levels : Nat}
    (hlevels : levels ≤ maxProxyRecursionDepth)
    (h : adjustProxiedWitnessVotesArray delta levels db name = .ok db')
    (hskip : ∀ p, Relation.TransGen (proxyShape.Step db.proxies) name p → some p ≠ skip)
    (hclimb : Climbing skip (proxyShape.parentOf db.proxies name)
      (lag (maxProxyRecursionDepth - levels) fun n => delta.getD n 0) db.proxies) :
    Carried skip db.proxies db'.proxies := by
  induction levels generalizing db name with
  | zero =>
    simp only [adjustProxiedWitnessVotesArray, getAccount, bind_eq_ok, getOrThrow_eq_ok] at h
    obtain ⟨a, ha, h⟩ := h
    split at h
    · rename_i hroot
      exact carried_of_root ha hroot (adjustWitnessVotes_proxies h) hclimb
    · rw [pure_eq_ok] at h
      exact h ▸ carried_of_far hclimb
  | succ levels ih =>
    simp only [adjustProxiedWitnessVotesArray, getAccount, bind_eq_ok, getOrThrow_eq_ok] at h
    obtain ⟨a, ha, h⟩ := h
    split at h
    · rename_i hroot
      simp only [bind_eq_ok] at h
      obtain ⟨total, -, h⟩ := h
      exact carried_of_root ha hroot (adjustWitnessVotes_proxies h) hclimb
    · rename_i hne
      simp only [bind_eq_ok, getOrThrow_eq_ok] at h
      obtain ⟨proxy, hproxy, votes, hvotes, h⟩ := h
      have hsize : proxy.proxiedVsfVotes.length = maxProxyRecursionDepth :=
        hclimb.sized _ (Table.get_mem (proxies_find_of_found hproxy))
      unfold maxProxyRecursionDepth at hlevels hsize
      obtain ⟨hlength, hget⟩ := addProxiedVotes_fold (fun i hi => by
        rw [List.mem_reverse, List.mem_range] at hi
        rw [hsize]
        unfold maxProxyRecursionDepth
        omega) hvotes
      refine carried_of_step ha hproxy hne hskip hlength ?_ hclimb ?_
      · intro n hn
        rw [hget, List.map_reverse, List.sum_reverse]
        congr 1
        exact sum_range_lag hlevels hn
      · rintro db₁ rfl hskip' hclimb'
        refine ih (by unfold maxProxyRecursionDepth; omega) h hskip' ?_
        have hlag : maxProxyRecursionDepth - (levels + 1) + 1 = maxProxyRecursionDepth - levels := by
          unfold maxProxyRecursionDepth
          omega
        rw [hlag] at hclimb'
        exact hclimb'

end Db

/-! ## What keeps the tallies -/

theorem Linked.of_same {skip : Option AccountName} {t t' : Table ProxyRow} (h : Linked t)
    (hlinks : SameLinks skip t t') : Linked t' := by
  refine ⟨h.names.of_keys hlinks.names, ?_, h.acyclic.of_sub fun _ _ => hlinks.step, ?_⟩
  · intro k p hk
    rw [hlinks.parents] at hk
    exact fun hnone => h.known k p hk ((hlinks.get_eq_none p).1 hnone)
  · intro k hk
    rw [hlinks.parents]
    exact h.system k hk

namespace Tallies

variable {t t' : Table ProxyRow} {name : AccountName}

theorem settled (h : Tallies t) : Climbing none none 0 t :=
  ⟨h.sized, (Shape.tallied_iff h.names).1 h.tally⟩

/-- The same links with settled levels. -/
theorem of_links (h : Linked t) (hlinks : SameLinks none t t') (hsettled : Climbing none none 0 t') :
    Tallies t' := by
  have hlinked := h.of_same hlinks
  exact ⟨hlinked, hsettled.sized, (Shape.tallied_iff hlinked.names).2 hsettled.pending⟩

/-- A new account without a proxy. -/
theorem create (h : Tallies t) (hnew : t.get (·.name) name = none) :
    Tallies (t.create fun _ => ⟨name, 0, "", [0, 0, 0, 0]⟩) := by
  have hnames : (t.create fun _ => ⟨name, 0, "", [0, 0, 0, 0]⟩).Keyed ProxyRow.name :=
    h.names.create hnew rfl
  have hparents (k : AccountName) : proxyShape.parentOf
      (t.create fun _ => ⟨name, 0, "", [0, 0, 0, 0]⟩) k = proxyShape.parentOf t k := by
    unfold Shape.parentOf
    by_cases hk : k = name
    · subst hk
      have hrow : (t.create fun _ => ⟨k, 0, "", [0, 0, 0, 0]⟩).get proxyShape.key k =
        some ⟨k, 0, "", [0, 0, 0, 0]⟩ := Table.get_create_same hnew rfl
      have hnone : t.get proxyShape.key k = none := hnew
      rw [hrow, hnone]
      rfl
    · rw [Table.get_create_ne t proxyShape.key (Ne.symm hk)]
  have hfree (r : ProxyRow) (hr : r ∈ t.rows) : proxyShape.parent r ≠ some name := by
    intro hparent
    have hfound : t.get proxyShape.key r.name = some r := h.names.get hr
    exact h.known r.name name ((Shape.parentOf_of_get hfound).trans hparent) hnew
  have hlevel (n : Nat) : proxyShape.level ⟨name, 0, "", [0, 0, 0, 0]⟩ n = 0 := by
    match n with
    | 0 | 1 | 2 | 3 | 4 => rfl
    | n + 5 => rfl
  refine ⟨⟨hnames, ?_, h.acyclic.of_sub ?_, ?_⟩, Table.all_create h.sized rfl,
    (Shape.tallied_iff hnames).2 ?_⟩
  · intro k p hk
    rw [hparents] at hk
    have hne : p ≠ name := by
      rintro rfl
      exact h.known k p hk hnew
    rw [Table.get_create_ne t _ (Ne.symm hne)]
    exact h.known k p hk
  · intro a b hab
    exact (hparents a).symm.trans hab
  · intro k hk
    rw [hparents]
    exact h.system k hk
  · exact Shape.Consistent.create h.settled.pending hnew rfl rfl hlevel hfree

/-- At the start nobody has a proxy. -/
theorem of_unlinked (hnames : t.Keyed (·.name))
    (h : t.All fun r => r.proxy = "" ∧ r.proxied = [0, 0, 0, 0]) : Tallies t := by
  have hparent (r : ProxyRow) (hr : r ∈ t.rows) : proxyShape.parent r = none := if_pos (h r hr).1
  have hroot (k : AccountName) : proxyShape.parentOf t k = none := by
    cases hk : t.get proxyShape.key k with
    | none =>
      unfold Shape.parentOf
      rw [hk]
      rfl
    | some r => exact (Shape.parentOf_of_get hk).trans (hparent r (Table.get_mem hk))
  refine ⟨⟨hnames, ?_, ?_, fun k _ => hroot k⟩, ?_, (Shape.tallied_iff hnames).2 ?_⟩
  · intro k p hk
    rw [hroot] at hk
    cases hk
  · intro k hloop
    obtain ⟨b, hstep, -⟩ := Relation.TransGen.head'_iff.1 hloop
    exact absurd ((hroot k).symm.trans hstep) (by simp)
  · intro r hr
    rw [(h r hr).2]
    rfl
  · refine Shape.consistent_iff.2 fun k r hr n hn => ?_
    have hzero : proxyShape.children t none k n = t.sum fun _ => 0 :=
      Table.sum_congr fun y hy => if_neg fun hand => by
        rw [hparent y hy] at hand
        cases hand.1
    have hlevel : proxyShape.level r (n + 1) = r.proxied.getD n 0 := rfl
    rw [hzero, hlevel, (h r (Table.get_mem hr)).2]
    unfold maxProxyRecursionDepth at hn
    interval_cases n <;> simp [Table.sum]

/-- The own shares of an account change by `v`, and its proxy has to follow. -/
theorem addShares {r : ProxyRow} {v : Int} (h : Tallies t) (hr : t.get (·.name) name = some r) :
    let t' := t.update (·.name) name fun row => { row with shares := r.shares + v }
    SameLinks none t t' ∧
      Climbing none (proxyShape.parentOf t' name) (fun n => if n = 0 then v else 0) t' := by
  intro t'
  have hparents (k : AccountName) : proxyShape.parentOf t' k = proxyShape.parentOf t k := by
    refine Shape.parentOf_update_of_same (S := proxyShape) (p := name)
      (f := fun row => { row with shares := r.shares + v }) ?_ ?_ k
    · exact fun _ => rfl
    · exact fun _ => rfl
  refine ⟨⟨?_, hparents, fun _ hk => by cases hk⟩, ?_, ?_⟩
  · refine Table.updateRows_map (·.name) name (fun row => { row with shares := r.shares + v }) _ ?_
      t.rows
    exact fun _ => rfl
  · exact Table.all_update h.sized fun _ _ hrow => hrow
  · rw [hparents, Shape.parentOf_of_get (S := proxyShape) hr]
    refine h.settled.pending.move hr (by simp) (fun _ hq => by cases hq) (fun _ => rfl) rfl ?_ ?_
    · intro n _
      cases n with
      | zero => rfl
      | succ n => exact (add_zero _).symm
    · intro n _
      simp

end Tallies

namespace Db

variable {db db' : Db} {name : AccountName}

/-- The shares of an account change, and the change is carried up. -/
theorem tallies_of_shares {a : AccountObject} {v : Int} {db₁ : Db} (hdb : Tallies db.proxies)
    (ha : db.findAccount name = some a) (f : AccountObject → AccountObject)
    (hf : ∀ b, (f b).proxyRow = { b.proxyRow with shares := a.vestingShares + v })
    (hsame : db₁.proxies = (db.modifyAccount name f).proxies)
    (h : adjustProxiedWitnessVotes v maxProxyRecursionDepth db₁ name = .ok db' ∨
      (v = 0 ∨ proxyShape.parentOf db.proxies name = none) ∧ db' = db₁) :
    Tallies db'.proxies := by
  obtain ⟨hlinks, hclimb⟩ := hdb.addShares (v := v) (proxies_find_of_found ha)
  have hmodify : db₁.proxies = db.proxies.update (·.name) name fun row =>
      { row with shares := a.proxyRow.shares + v } :=
    hsame.trans (proxies_modifyAccount db name f _ hf)
  rw [← hmodify] at hlinks hclimb
  rcases h with h | ⟨hstill, rfl⟩
  · rw [← lag_zero fun n => if n = 0 then v else 0] at hclimb
    have hcarried := adjustProxiedWitnessVotes_carried le_rfl h (fun _ _ => by simp) hclimb
    exact .of_links hdb.toLinked (hlinks.trans hcarried.links) hcarried.settled
  · refine .of_links hdb.toLinked hlinks (hclimb.settle fun n _ => ?_)
    rcases hstill with hzero | hroot
    · rw [hzero]
      exact .inr (ite_self 0)
    · exact .inl ((hlinks.parents name).trans hroot)

theorem createVesting_tallies {tokens : Int} (hdb : Tallies db.proxies)
    (h : db.createVesting name tokens = .ok db') : Tallies db'.proxies := by
  simp only [createVesting, getAccount, bind_eq_ok, getOrThrow_eq_ok, safeAdd_eq_ok] at h
  obtain ⟨v, -, a, ha, _, ⟨-, rfl⟩, fund, -, total, -, hvotes⟩ := h
  refine tallies_of_shares hdb ha (fun b => { b with vestingShares := a.vestingShares + v }) ?_ ?_
    (.inl hvotes)
  · exact fun _ => rfl
  · exact proxies_modifyDgp _ _

end Db

/-! ## Changing a proxy -/

/-- The account `a` gets the proxy `q`. -/
def withProxy (t : Table ProxyRow) (a q : AccountName) : Table ProxyRow :=
  t.update (·.name) a fun r => { r with proxy := q }

theorem parentOf_withProxy {t : Table ProxyRow} {a : AccountName} {r : ProxyRow}
    (ha : t.get (·.name) a = some r) (q k : AccountName) :
    proxyShape.parentOf (withProxy t a q) k =
      if k = a then (if q = "" then none else some q) else proxyShape.parentOf t k := by
  unfold Shape.parentOf withProxy
  by_cases hk : k = a
  · subst hk
    have hrow : (t.update (·.name) k fun r => { r with proxy := q }).get proxyShape.key k =
        some { r with proxy := q } := by
      refine (Table.get_update_same t _ k _ ?_).trans ?_
      · exact fun _ => rfl
      · rw [ha]
        rfl
    rw [hrow, if_pos rfl]
    rfl
  · have hrow : (t.update (·.name) a fun r => { r with proxy := q }).get proxyShape.key k =
        t.get proxyShape.key k := by
      refine Table.get_update_ne t _ _ hk ?_
      exact fun _ => rfl
    rw [hrow, if_neg hk]

namespace Linked

variable {t : Table ProxyRow} {a q : AccountName} {r : ProxyRow}

theorem withProxy_names (h : Linked t) : (withProxy t a q).Keyed (·.name) := by
  refine h.names.of_keys (Table.updateRows_map (·.name) a (fun r => { r with proxy := q }) _ ?_
    t.rows)
  exact fun _ => rfl

theorem withProxy_found {k : AccountName} (hk : t.get (·.name) k ≠ none) :
    (withProxy t a q).get (·.name) k ≠ none := by
  intro hnone
  refine hk ((Table.get_update_eq_none t (·.name) a k (fun r => { r with proxy := q }) ?_).1 hnone)
  exact fun _ => rfl

/-- An account without a proxy closes no chain. -/
theorem cleared (h : Linked t) (ha : t.get (·.name) a = some r) : Linked (withProxy t a "") := by
  have hparents (k p : AccountName) (hk : proxyShape.parentOf (withProxy t a "") k = some p) :
      proxyShape.parentOf t k = some p := by
    rw [parentOf_withProxy ha] at hk
    split at hk
    · cases hk
    · exact hk
  refine ⟨h.withProxy_names, ?_, h.acyclic.of_sub hparents, ?_⟩
  · exact fun k p hk => withProxy_found (h.known k p (hparents k p hk))
  · intro k hk
    cases hparent : proxyShape.parentOf (withProxy t a "") k with
    | none => rfl
    | some p => exact absurd ((h.system k hk).symm.trans (hparents k p hparent)) (by simp)

/-- A new proxy whose own proxies do not lead back. -/
theorem relinked (h : Linked t) (ha : t.get (·.name) a = some r) (hq : t.get (·.name) q ≠ none)
    (hsystem : a ∉ systemAccounts)
    (hback : ¬ Relation.ReflTransGen (proxyShape.Step t) q a) : Linked (withProxy t a q) := by
  have hparents (k p : AccountName) (hk : proxyShape.parentOf (withProxy t a q) k = some p) :
      proxyShape.parentOf t k = some p ∨ k = a ∧ p = q := by
    rw [parentOf_withProxy ha] at hk
    split at hk
    · rename_i hka
      split at hk
      · cases hk
      · exact .inr ⟨hka, (Option.some.inj hk).symm⟩
    · exact .inl hk
  refine ⟨h.withProxy_names, ?_, h.acyclic.relink hparents hback, ?_⟩
  · intro k p hk
    refine withProxy_found ?_
    rcases hparents k p hk with hold | ⟨-, rfl⟩
    · exact h.known k p hold
    · exact hq
  · intro k hk
    rw [parentOf_withProxy ha, if_neg (by rintro rfl; exact hsystem hk)]
    exact h.system k hk

end Linked

/-- A row that has been cut off is hung below `q`: its levels are to be added there. -/
theorem Climbing.hang {t : Table ProxyRow} {a : AccountName} {r : ProxyRow}
    (h : Climbing (some a) none 0 t) (hnames : t.Keyed (·.name)) (ha : t.get (·.name) a = some r)
    (q : AccountName) :
    Climbing none (proxyShape.parentOf (withProxy t a q) a) r.level (withProxy t a q) := by
  refine ⟨Table.all_update h.sized fun _ _ hr => hr, ?_⟩
  rw [parentOf_withProxy ha, if_pos rfl]
  refine h.pending.hang (S := proxyShape) hnames ha (f := fun r => { r with proxy := q }) ?_ ?_
  · exact fun _ => rfl
  · intro n
    cases n <;> rfl

namespace Db

variable {db db' : Db} {name : AccountName}

theorem negDelta_getD {delta delta' : List Int} (h : negDelta delta = .ok delta') (n : Nat) :
    delta'.getD n 0 = -delta.getD n 0 := by
  unfold negDelta at h
  induction delta generalizing delta' n with
  | nil =>
    cases h
    simp
  | cons x rest ih =>
    simp only [List.mapM_cons, bind_eq_ok, safeSub_eq_ok, pure_eq_ok] at h
    obtain ⟨_, ⟨-, rfl⟩, rest', hrest, rfl⟩ := h
    cases n with
    | zero => simp
    | succ n => simpa using ih hrest n

theorem voteDelta_getD (a : AccountObject) (n : Nat) :
    (voteDelta a).getD n 0 = a.proxyRow.level n := by
  cases n <;> rfl

/-- **Cutting an account off**: its votes are taken from everybody above it. -/
theorem removeVotes_carried {a : AccountObject} {removed : List Int} (hdb : Tallies db.proxies)
    (ha : db.findAccount name = some a) (hremoved : negDelta (voteDelta a) = .ok removed)
    (h : adjustProxiedWitnessVotesArray removed maxProxyRecursionDepth db name = .ok db') :
    Carried (some name) db.proxies db'.proxies := by
  have hrow := proxies_find_of_found ha
  refine adjustProxiedWitnessVotesArray_carried le_rfl h ?_ ⟨hdb.sized, ?_⟩
  · intro p hp hloop
    rw [Option.some.inj hloop] at hp
    exact hdb.acyclic name hp
  · have hdelta : (fun n => removed.getD n 0) = fun n => -proxyShape.level a.proxyRow n := by
      funext n
      rw [negDelta_getD hremoved, voteDelta_getD]
      rfl
    rw [Nat.sub_self, lag_zero, hdelta, Shape.parentOf_of_get hrow]
    exact Shape.Consistent.detach hdb.settled.pending hdb.names hrow

theorem setProxy_proxies (db : Db) (name q : AccountName) :
    (db.setProxy name q).proxies = withProxy db.proxies name q :=
  proxies_modifyAccount db name _ _ fun _ => rfl

theorem clearWitnessVotes_proxies (h : db.clearWitnessVotes name = .ok db') :
    db'.proxies = db.proxies := by
  simp only [clearWitnessVotes, bind_eq_ok, pure_eq_ok] at h
  obtain ⟨a, -, rfl⟩ := h
  exact proxies_modifyAccount_of_same _ name _ fun _ => rfl

/-- The account ends up without a proxy. -/
theorem cutOff_tallies {a : AccountObject} {removed : List Int} (hdb : Tallies db.proxies)
    (ha : db.findAccount name = some a) (hremoved : negDelta (voteDelta a) = .ok removed)
    (h : adjustProxiedWitnessVotesArray removed maxProxyRecursionDepth db name = .ok db') :
    Tallies (db'.setProxy name "").proxies := by
  obtain ⟨hlinks, hsettled⟩ := removeVotes_carried hdb ha hremoved h
  have hrow : db'.proxies.get (·.name) name = some a.proxyRow :=
    (hlinks.skipped name rfl).trans (proxies_find_of_found ha)
  have hlinked := hdb.toLinked.of_same hlinks
  have hclimb := hsettled.hang hlinked.names hrow ""
  rw [parentOf_withProxy hrow, if_pos rfl, if_pos rfl] at hclimb
  rw [setProxy_proxies]
  exact .of_links (hlinked.cleared hrow) (.refl _ _) (hclimb.settle fun _ _ => .inl rfl)

theorem clearProxy_tallies (hdb : Tallies db.proxies) (h : db.clearProxy name = .ok db') :
    Tallies db'.proxies := by
  simp only [clearProxy, getAccount, bind_eq_ok, getOrThrow_eq_ok] at h
  obtain ⟨a, ha, h⟩ := h
  split at h
  · rw [pure_eq_ok] at h
    exact h ▸ hdb
  · simp only [bind_eq_ok, pure_eq_ok] at h
    obtain ⟨removed, hremoved, db₁, hremove, rfl⟩ := h
    exact cutOff_tallies hdb ha hremoved hremove

/-- The walk along the proxies of the new proxy does not meet the account. -/
theorem checkProxyChain_away {fuel : Nat} {cprox a : AccountObject} {chain : List Nat}
    (h : db.checkProxyChain fuel cprox chain = .ok ())
    (hcprox : db.findAccount cprox.name = some cprox) (ha : db.findAccount name = some a)
    (hchain : a.id ∈ chain) (hne : cprox.name ≠ name) :
    ¬ Relation.ReflTransGen (proxyShape.Step db.proxies) cprox.name name := by
  induction fuel generalizing cprox chain with
  | zero => cases h
  | succ fuel ih =>
    intro hreach
    rcases hreach.cases_head with heq | ⟨b, hstep, hrest⟩
    · exact hne heq
    · unfold Shape.Step at hstep
      rw [parentOf_of_found hcprox] at hstep
      split at hstep
      · cases hstep
      · rename_i hproxy
        cases hstep
        simp only [checkProxyChain, if_neg hproxy, getAccount, bind_eq_ok, getOrThrow_eq_ok,
          fcAssert_eq_ok] at h
        obtain ⟨next, hnext, _, hfresh, _, -, h⟩ := h
        have hname : next.name = cprox.proxy := Table.get_key hnext
        refine ih h (hname ▸ hnext) (List.mem_cons_of_mem _ hchain) ?_ (hname ▸ hrest)
        rintro rfl
        rw [hname, hnext, Option.some.injEq] at ha
        exact hfresh (ha ▸ hchain)

/-- Moving votes keeps what an account is apart from them. -/
theorem find_of_votesOnly {a : AccountObject} (h : VotesOnly db db')
    (ha : db.findAccount name = some a) :
    ∃ b, db'.findAccount name = some b ∧ b.withoutVotes = a.withoutVotes := by
  have hfind (d : Db) : (d.accounts.image AccountObject.withoutVotes).get (·.name) name =
      (d.findAccount name).map AccountObject.withoutVotes := Table.get_image _ _ _ _
  have hget := hfind db'
  rw [h.2.1, hfind, ha] at hget
  cases hb : db'.findAccount name with
  | none =>
    rw [hb] at hget
    cases hget
  | some b =>
    rw [hb] at hget
    exact ⟨b, rfl, (Option.some.inj hget).symm⟩

/-- **A whole subtree changes its proxy.** -/
theorem accountWitnessProxy_tallies {o : AccountWitnessProxyOperation}
    (hdb : Tallies db.proxies) (hself : o.proxy ≠ o.account) (hsystem : o.account ∉ systemAccounts)
    (h : db.accountWitnessProxy o = .ok db') : Tallies db'.proxies := by
  simp only [accountWitnessProxy, bind_eq_ok] at h
  obtain ⟨account, haccount, _, -, removed, hremoved, db₁, hremove, h⟩ := h
  have haccount' : db.findAccount o.account = some account := (getOrThrow_eq_ok _ _ _).1 haccount
  split at h
  · rename_i hempty
    rw [pure_eq_ok] at h
    rw [← h, hempty]
    exact cutOff_tallies hdb haccount' hremoved hremove
  · rename_i hproxy
    simp only [getAccount, bind_eq_ok, getOrThrow_eq_ok] at h
    obtain ⟨newProxy, hnew, _, hcheck, db₂, hclear, added, hadded, hadd⟩ := h
    obtain ⟨hlinks, hsettled⟩ := removeVotes_carried hdb haccount' hremoved hremove
    have hrow : db₁.proxies.get (·.name) o.account = some account.proxyRow :=
      (hlinks.skipped o.account rfl).trans (proxies_find_of_found haccount')
    have hlinked := hdb.toLinked.of_same hlinks
    -- the new proxy is an account, and its own proxies do not lead back
    have hfound : db₁.proxies.get (·.name) o.proxy ≠ none := by
      rw [proxies_find, hnew]
      simp
    have hname : newProxy.name = o.proxy := Table.get_key hnew
    obtain ⟨a₁, ha₁, hid⟩ := find_of_votesOnly (adjustProxiedWitnessVotesArray_votesOnly hremove)
      haccount'
    have hback : ¬ Relation.ReflTransGen (proxyShape.Step db₁.proxies) o.proxy o.account := by
      rw [← hname]
      refine checkProxyChain_away hcheck (hname ▸ hnew) ha₁ ?_ (hname ▸ hself)
      have hid' : a₁.withoutVotes.id = account.withoutVotes.id := congrArg AccountObject.id hid
      rw [show a₁.id = account.id from hid']
      simp
    have hrelinked := hlinked.relinked hrow hfound hsystem hback
    have hclimb := hsettled.hang hlinked.names hrow o.proxy
    have hsame : (db₂.setProxy o.account o.proxy).proxies =
        withProxy db₁.proxies o.account o.proxy := by
      rw [setProxy_proxies, clearWitnessVotes_proxies hclear]
    have hdelta : (fun n => added.getD n 0) = account.proxyRow.level := by
      funext n
      rw [negDelta_getD hadded, negDelta_getD hremoved, voteDelta_getD, neg_neg]
    rw [← hsame, ← hdelta, ← lag_zero fun n => added.getD n 0] at hclimb
    rw [← hsame] at hrelinked
    have hcarried := adjustProxiedWitnessVotesArray_carried le_rfl hadd (fun _ _ => by simp) hclimb
    exact .of_links hrelinked hcarried.links hcarried.settled

theorem adjustVotesOf_proxies {account : Nat} {delta : Int}
    (h : db.adjustVotesOf account delta = .ok db') : db'.proxies = db.proxies := by
  refine foldlM_invariant (fun s => s.proxies = db.proxies) _ _ (fun v _ s s' hs hv => ?_) db db'
    rfl h
  simp only [adjustWitnessVote, bind_eq_ok, pure_eq_ok] at hv
  obtain ⟨_, -, _, -, rfl⟩ := hv
  exact hs

theorem reweighVotes_proxies {count : Nat → Nat} (h : db.reweighVotes name count = .ok db') :
    db'.proxies = db.proxies := by
  simp only [reweighVotes, bind_eq_ok] at h
  obtain ⟨_, -, weight, -, h⟩ := h
  refine (adjustVotesOf_proxies h).trans ?_
  refine (proxies_modifyAccount_of_same _ name _ ?_).trans ?_
  · exact fun _ => rfl
  · exact proxies_modifyAccount_of_same db name _ fun _ => rfl

theorem accountWitnessVote_tallies {o : AccountWitnessVoteOperation} (hdb : Tallies db.proxies)
    (h : db.accountWitnessVote o = .ok db') : Tallies db'.proxies := by
  simp only [accountWitnessVote, bind_eq_ok] at h
  obtain ⟨db₁, hproxy, voter, -, witness, -, weight, -, h⟩ := h
  have hdb₁ := clearProxy_tallies hdb hproxy
  split at h
  · simp only [bind_eq_ok] at h
    obtain ⟨_, -, _, -, db₂, hvotes, h⟩ := h
    rw [reweighVotes_proxies h]
    exact (adjustVotesOf_proxies hvotes).symm ▸ hdb₁
  · simp only [bind_eq_ok] at h
    obtain ⟨_, -, db₂, hvotes, h⟩ := h
    rw [reweighVotes_proxies h]
    exact (adjustVotesOf_proxies hvotes).symm ▸ hdb₁

/-! ## Steps -/

theorem redeemVesting_proxies {tokens shares : Int} (h : db.redeemVesting tokens shares = .ok db') :
    db'.proxies = db.proxies := by
  simp only [redeemVesting, bind_eq_ok, pure_eq_ok] at h
  obtain ⟨_, -, _, -, rfl⟩ := h
  exact proxies_modifyDgp _ _

theorem depositShares_tallies {amount : Int} {s s' : Int × Db} {r : WithdrawVestingRouteObject}
    (hs : Tallies s.2.proxies) (h : depositShares amount s r = .ok s') : Tallies s'.2.proxies := by
  unfold depositShares at h
  split at h
  · simp only [bind_eq_ok] at h
    obtain ⟨deposit, -, total, -, h⟩ := h
    split at h
    · simp only [addVestingShares, getAccount, bind_eq_ok, getOrThrow_eq_ok, safeAdd_eq_ok,
        pure_eq_ok] at h
      obtain ⟨a, -, db₁, ⟨b, hb, _, ⟨-, rfl⟩, hvotes⟩, rfl⟩ := h
      exact tallies_of_shares hs hb (fun c => { c with vestingShares := b.vestingShares + deposit })
        (fun _ => rfl) rfl (.inl hvotes)
    · rw [pure_eq_ok] at h
      exact h ▸ hs
  · cases h
    exact hs

theorem depositTokens_proxies {amount : Int} {s s' : Int × Db} {r : WithdrawVestingRouteObject}
    (h : depositTokens amount s r = .ok s') : s'.2.proxies = s.2.proxies := by
  unfold depositTokens at h
  split at h
  · cases h
    rfl
  · simp only [bind_eq_ok] at h
    obtain ⟨a, -, deposit, -, total, -, tokens, -, h⟩ := h
    split at h
    · simp only [bind_eq_ok, pure_eq_ok] at h
      obtain ⟨db₁, hpay, db₂, hredeem, rfl⟩ := h
      exact (redeemVesting_proxies hredeem).trans (proxies_of_core (adjustBalance_core hpay))
    · rw [pure_eq_ok] at h
      rw [← h]

theorem afterWithdrawal_proxyRow (shares balance withdrawn : Int) (a : AccountObject) :
    (afterWithdrawal shares balance withdrawn a).proxyRow =
      { a.proxyRow with shares := shares } := by
  unfold afterWithdrawal
  split
  · rfl
  · rfl

theorem withdrawFrom_tallies {a : AccountObject} (hdb : Tallies db.proxies)
    (h : db.withdrawFrom a = .ok db') : Tallies db'.proxies := by
  simp only [withdrawFrom, bind_eq_ok] at h
  obtain ⟨amount, hamount, ⟨vested, db₁⟩, hvested, ⟨paid, db₂⟩, hpaid, _, -, _, -, tokens, -, _, -,
    db₃, henergy, db₄, hfinish, db₅, hredeem, h⟩ := h
  have hdb₁ : Tallies db₁.proxies :=
    foldlM_invariant (fun s : Int × Db => Tallies s.2.proxies) _ _
      (fun _ _ _ _ hs hstep => depositShares_tallies hs hstep) _ _ hdb hvested
  have hsame₂ : db₂.proxies = db₁.proxies :=
    foldlM_invariant (fun s : Int × Db => s.2.proxies = db₁.proxies) _ _
      (fun _ _ _ _ hs hstep => (depositTokens_proxies hstep).trans hs) _ _ rfl hpaid
  have hdb₃ : Tallies db₃.proxies := by
    rw [proxies_of_core (sharesSenderRecalcEnergy_core henergy), hsame₂]
    exact hdb₁
  simp only [finishWithdrawal, getAccount, bind_eq_ok, getOrThrow_eq_ok, safeSub_eq_ok,
    pure_eq_ok] at hfinish
  obtain ⟨b, hb, _, ⟨-, rfl⟩, balance, -, withdrawn, -, rfl⟩ := hfinish
  refine tallies_of_shares (v := -amount) hdb₃ hb (afterWithdrawal _ balance withdrawn)
    (afterWithdrawal_proxyRow _ balance withdrawn) (redeemVesting_proxies hredeem) ?_
  split at h
  · exact .inl h
  · rename_i hpos
    rw [pure_eq_ok] at h
    -- a withdrawal is never negative
    have hnonneg : 0 ≤ amount := by
      simp only [withdrawalAmount, bind_eq_ok] at hamount
      obtain ⟨_, -, hamount⟩ := hamount
      split at hamount
      · simp only [bind_eq_ok, pure_eq_ok] at hamount
        obtain ⟨_, -, rfl⟩ := hamount
        exact le_max_right _ _
      · rw [pure_eq_ok] at hamount
        exact hamount ▸ le_max_right _ _
    exact .inr ⟨.inl (by omega), h.symm⟩

theorem withdrawLoop_tallies {fuel : Nat} {next : Option AccountName} (hdb : Tallies db.proxies)
    (h : withdrawLoop fuel db next = .ok db') : Tallies db'.proxies := by
  induction fuel generalizing db next with
  | zero => cases h
  | succ fuel ih =>
    cases next with
    | none =>
      cases h
      exact hdb
    | some n =>
      simp only [withdrawLoop, bind_eq_ok] at h
      obtain ⟨a, -, h⟩ := h
      split at h
      · simp only [bind_eq_ok] at h
        obtain ⟨db₁, hstep, hrest⟩ := h
        exact ih (withdrawFrom_tallies hdb hstep) hrest
      · rw [pure_eq_ok] at h
        exact h ▸ hdb

/-- A system account loses its shares; nobody counts them. -/
theorem drainAccount_tallies {total : Int} (hdb : Tallies db.proxies) (hname : name ∈ systemAccounts)
    (h : db.drainAccount name = .ok (total, db')) : Tallies db'.proxies := by
  simp only [drainAccount, bind_eq_ok] at h
  obtain ⟨⟨balance, db₁⟩, hbalance, ⟨tokens, db₂⟩, hshares, h⟩ := h
  simp only [pure_eq_ok, Prod.mk.injEq] at h
  obtain ⟨_, -, -, rfl⟩ := h
  have hdb₁ : Tallies db₁.proxies := by
    simp only [drainBalance, bind_eq_ok] at hbalance
    obtain ⟨a, -, h⟩ := hbalance
    split at h
    · simp only [bind_eq_ok, pure_eq_ok, Prod.mk.injEq] at h
      obtain ⟨db₃, hpay, -, rfl⟩ := h
      rw [proxies_of_core (adjustBalance_core hpay)]
      exact hdb
    · simp only [pure_eq_ok, Prod.mk.injEq] at h
      exact h.2 ▸ hdb
  simp only [drainShares, getAccount, bind_eq_ok, getOrThrow_eq_ok] at hshares
  obtain ⟨a, ha, h⟩ := hshares
  split at h
  · simp only [bind_eq_ok, pure_eq_ok, Prod.mk.injEq] at h
    obtain ⟨_, -, db₃, hredeem, -, rfl⟩ := h
    have hsame := redeemVesting_proxies hredeem
    have hfound : db₃.findAccount name = some a := by
      simp only [redeemVesting, bind_eq_ok, pure_eq_ok] at hredeem
      obtain ⟨_, -, _, -, rfl⟩ := hredeem
      exact ha
    rw [← hsame] at hdb₁
    refine tallies_of_shares (v := -a.vestingShares) hdb₁ hfound
      (fun b => { b with vestingShares := 0 }) (fun b => ?_) rfl
      (.inr ⟨.inr (hdb₁.system name hname), rfl⟩)
    rw [add_neg_cancel]
    rfl
  · simp only [pure_eq_ok, Prod.mk.injEq] at h
    exact h.2 ▸ hdb₁

theorem burnBalance_tallies (hdb : Tallies db.proxies) (hname : name ∈ systemAccounts)
    (h : db.burnBalance name = .ok db') : Tallies db'.proxies := by
  simp only [burnBalance, bind_eq_ok] at h
  obtain ⟨⟨total, db₁⟩, hdrain, h⟩ := h
  have hdb₁ := drainAccount_tallies hdb hname hdrain
  split at h
  · rw [proxies_of_core (burnAsset_core h)]
    exact hdb₁
  · rw [pure_eq_ok] at h
    exact h ▸ hdb₁

theorem claimCommitteeAccountBalance_tallies (hdb : Tallies db.proxies)
    (h : db.claimCommitteeAccountBalance = .ok db') : Tallies db'.proxies := by
  simp only [claimCommitteeAccountBalance, bind_eq_ok] at h
  obtain ⟨⟨total, db₁⟩, hdrain, h⟩ := h
  have hdb₁ := drainAccount_tallies hdb (by decide) hdrain
  split at h
  · rw [proxies_of_core (addCommitteeFund_core h)]
    exact hdb₁
  · rw [pure_eq_ok] at h
    exact h ▸ hdb₁

theorem tallies_steady : Steady .ballots fun v => Tallies v.proxies := by
  intro g db db' hglide hdb
  cases hglide with
  | same h => exact h ▸ hdb
  | register name recovery memo auth hauth hnew h =>
    have hrows : ((db.core.register name recovery memo auth).view .ballots).proxies =
        db.proxies.create fun _ => ⟨name, 0, "", [0, 0, 0, 0]⟩ := by
      rw [← proxies_view]
      have hballots : (db.core.accounts.create fun id => .fresh id name recovery memo).image
          (Aspect.row .ballots) = (db.core.accounts.image (Aspect.row .ballots)).create fun id =>
            Aspect.row .ballots (.fresh id name recovery memo) := Table.image_create _ _ _
      exact (congrArg (Table.image (α := BallotRow) · _) hballots).trans
        (Table.image_create (α := BallotRow) _ _ _)
    have hfree : db.proxies.get (·.name) name = none := by
      rw [proxies_find, hnew]
      rfl
    rw [h, hrows]
    rw [proxies_view] at hdb
    exact hdb.create hfree
  | declare owner hnew h => exact h ▸ hdb
  | vest name tokens ok h =>
    rw [proxies_view] at hdb ⊢
    exact createVesting_tallies hdb h

end Db

/-- The accounts whose proxy the operation sets. -/
def Operation.setsProxyOf : Operation → List AccountName
  | .accountWitnessProxy o => [o.account]
  | _ => []

/-- Nobody acts for a system account: no proxy is set for it. -/
def Event.SystemStill : Event → Prop
  | .operation _ op kept => kept = true → ∀ a ∈ Operation.setsProxyOf op, a ∉ systemAccounts
  | .step _ _ _ _ => True

instance (e : Event) : Decidable e.SystemStill :=
  match e with
  | .operation _ op kept => inferInstanceAs
      (Decidable (kept = true → ∀ a ∈ Operation.setsProxyOf op, a ∉ systemAccounts))
  | .step _ _ _ _ => inferInstanceAs (Decidable True)

theorem tallies_keepsBlock (env : Env) :
    KeepsBlock env Event.SystemStill fun db => db.Stored env.fc ∧ Tallies db.proxies := by
  have hkeeps := (stored_keepsBlock env Event.SystemStill).aspect (x := .ballots)
    (P := fun v => Tallies v.proxies) (by decide) (by decide) (by decide) Db.tallies_steady ?_ ?_
  · simpa only [Db.proxies_view] using hkeeps
  · intro clock db op db' htouch _ hv hC h hdb
    rw [Db.proxies_view] at hdb ⊢
    cases op with
    | accountWitnessVote o => exact Db.accountWitnessVote_tallies hdb h
    | accountWitnessProxy o =>
      have hself : o.proxy ≠ o.account := by
        simp only [Operation.validate, bind_eq_ok] at hv
        obtain ⟨_, -, hv⟩ := hv
        split at hv
        · simp only [bind_eq_ok, fcAssert_eq_ok] at hv
          obtain ⟨_, -, hv⟩ := hv
          exact hv
        · simp only [fcAssert_eq_ok] at hv
          exact hv
      exact Db.accountWitnessProxy_tallies hdb hself (hC rfl _ List.mem_cons_self) h
    | _ => cases htouch
  · intro skip b db st db' htouch _ _ h hdb
    rw [Db.proxies_view] at hdb ⊢
    cases st with
    | processVestingWithdrawals => exact Db.withdrawLoop_tallies hdb h
    | clearNullAccountBalance => exact Db.burnBalance_tallies hdb (by decide) h
    | clearAnonymousAccountBalance => exact Db.burnBalance_tallies hdb (by decide) h
    | claimCommitteeAccountBalance => exact Db.claimCommitteeAccountBalance_tallies hdb h
    | _ => cases htouch

/-- **The proxy tally.**  Everything that the chain does keeps what every account counts equal to
the shares of the accounts that reach it in one to four steps, and no chain of proxies closes, as
long as no proxy is set for a system account. -/
theorem proxy_tally_preserved (env : Env) :
    Preserved env Event.SystemStill fun db => db.Stored env.fc ∧ Tallies db.proxies :=
  (tallies_keepsBlock env).preserved

/-- alice takes bob as her proxy and vests 500 tokens. -/
def proxyOps : List Operation :=
  [.accountWitnessProxy { account := "alice", proxy := "bob" },
    .transferToVesting { fromAccount := "alice", toAccount := "alice", amount := ⟨500, tokenSymbol⟩ }]

theorem smallStore_tallies : Tallies (smallStore [{ id := 4, name := "bob" }]).db.proxies := by
  refine .of_unlinked ?_ ?_
  · unfold Table.Keyed
    decide +kernel
  · decide +kernel

theorem proxy_tally_preserved_block :
    ∃ s', ((smallStore [{ id := 4, name := "bob" }]).applyBlocks smallEnv 2 { merkleCheck := true }
      [smallBlock proxyOps] 0).2 = .ok s' ∧ Tallies s'.db.proxies ∧
      proxyShape.reach s'.db.proxies 1 "bob" = 1500000 := by
  have hrun : returns ((smallStore [{ id := 4, name := "bob" }]).applyBlocks smallEnv 2
      { merkleCheck := true } [smallBlock proxyOps] 0).2
      (fun s => proxyShape.reach s.db.proxies 1 "bob" = 1500000) = true := by
    decide +kernel
  have hevents : ∀ e ∈ ((smallStore [{ id := 4, name := "bob" }]).applyBlocks smallEnv 2
      { merkleCheck := true } [smallBlock proxyOps] 0).1, e.SystemStill := by
    decide +kernel
  obtain ⟨s', hs', hreach⟩ := returns_eq_true hrun
  have hstored : (smallStore [{ id := 4, name := "bob" }]).db.Stored smallEnv.fc :=
    fun _ hp => (nomatch hp)
  refine ⟨s', hs', ?_, by simpa using hreach⟩
  exact ((proxy_tally_preserved smallEnv).blocks 2 _ _ _ 0 s' rfl ⟨hstored, smallStore_tallies⟩
    hevents hs').2

/-- Block 3705111 gives the null account shares and, in a transaction that nobody has signed, a
proxy; the shares are burnt while the proxy still counts them. -/
def nullProxyBlock : SignedBlock :=
  lenientBlock
    [.transferToVesting { fromAccount := "alice", toAccount := "null", amount := ⟨500, tokenSymbol⟩ }]
    [.accountWitnessProxy { account := "null", proxy := "bob" }]

theorem null_proxy_left_behind :
    ∃ s', ((lenientStore [{ id := 4, name := "bob" }]).applyBlocks smallEnv 2
      { merkleCheck := true, blockLog := true } [nullProxyBlock] 0).2 = .ok s' ∧
      Tallies (lenientStore [{ id := 4, name := "bob" }]).db.proxies ∧
      ¬ proxyShape.Tallied maxProxyRecursionDepth s'.db.proxies := by
  have hrun : returns ((lenientStore [{ id := 4, name := "bob" }]).applyBlocks smallEnv 2
      { merkleCheck := true, blockLog := true } [nullProxyBlock] 0).2
      (fun s => (s.db.proxies.get (·.name) "bob").any fun r =>
        r.level 1 ≠ proxyShape.reach s.db.proxies 1 "bob") = true := by
    decide +kernel
  obtain ⟨s', hs', hbob⟩ := returns_eq_true hrun
  refine ⟨s', hs', smallStore_tallies, fun htally => ?_⟩
  obtain ⟨r, hr, hne⟩ := (Option.any_eq_true _ _).1 hbob
  have hlevel : r.level 1 = proxyShape.reach s'.db.proxies 1 "bob" :=
    htally "bob" r hr 0 (by decide)
  exact absurd hlevel (by simpa using hne)

end VizCore.Chain
