import VizCore.Chain.Invariant

/-!
# Conservation of tokens and shares, and nonnegative balances

The tokens in accounts, escrows, invites and funds add up to the supply, the shares of the
accounts add up to the total, and no balance becomes negative.

* `tokens_conserved`: operations, block steps and runs of blocks keep the tokens equal to
  the supply;
* `balances_nonneg_of_covered`: along a run in which every bid is covered no balance and no
  reserve is negative.
-/

namespace VizCore.Chain

open VizCore.Lib VizCore.Protocol

/-! ## Tokens -/

/-- The supply is what accounts, escrows, invites and funds hold. -/
def Db.TokensConserved (db : Db) : Prop :=
  db.dgp.currentSupply =
    db.accounts.sum (·.balance) + db.accounts.sum (·.reservedBalance) +
      db.escrows.sum (fun e => e.tokenBalance + e.pendingFee) + db.invites.sum (·.balance) +
      db.dgp.totalVestingFund + db.dgp.totalRewardFund + db.dgp.committeeFund

instance (db : Db) : Decidable db.TokensConserved := inferInstanceAs (Decidable (_ = _))

theorem Db.tokensConserved_iff (db : Db) : db.TokensConserved ↔ db.ledger.surplus = 0 := by
  have hbalance : db.ledger.purses.sum (·.balance) = db.accounts.sum (·.balance) :=
    Table.sum_image db.accounts AccountObject.purse (·.balance)
  have hreserved : db.ledger.purses.sum (·.reserved) = db.accounts.sum (·.reservedBalance) :=
    Table.sum_image db.accounts AccountObject.purse (·.reserved)
  unfold TokensConserved Ledger.surplus Ledger.holdings
  rw [hbalance, hreserved]
  constructor
  · intro h
    exact sub_eq_zero.2 h.symm
  · intro h
    exact (sub_eq_zero.1 h).symm

/-- The state keeps the books: the tokens are conserved, approved escrows have paid their fee,
claimed invites are empty and proposals carry validated operations. -/
structure Db.Books (fc : Fc) (db : Db) : Prop where
  conserved : db.TokensConserved
  settled : db.ledger.Settled fc

/-- The events that change no total of tokens: a fixed award pays out what it takes, and a
system account that is cleared holds a part of the shares. -/
def Event.Neutral : Event → Prop
  | .operation db op kept => kept = true → db.minted op = 0
  | .step db _ st _ => st.Fits db

theorem Db.Books.of_flow {fc : Fc} {g : Prop} {t v : Int} {db db' : Db} (hdb : db.Books fc)
    (h : Flow fc g t v db db') (ht : t = 0) : db'.Books fc := by
  have hsurplus := h.surplus
  rw [ht, add_zero] at hsurplus
  constructor
  · rw [Db.tokensConserved_iff, hsurplus]
    exact (Db.tokensConserved_iff db).1 hdb.conserved
  · exact h.settled hdb.settled

theorem Db.Books.of_ledger_eq {fc : Fc} {db db' : Db} (hdb : db.Books fc)
    (h : db'.ledger = db.ledger) : db'.Books fc :=
  hdb.of_flow (g := True) (.of_ledger_eq h) rfl

theorem evaluate_books {fc : Fc} {producing : Bool} {clock : TimePointSec} {db db' : Db}
    {op : Operation} (hdb : db.Books fc) (hv : op.validate fc = .ok ()) (hm : db.minted op = 0)
    (h : Db.evaluate fc producing clock db op = .ok db') : db'.Books fc :=
  hdb.of_flow (Db.evaluate_flow hv hdb.settled h) hm

theorem run_books {fc : Fc} {env : Env} {skip : Skip} {b : SignedBlock} {db db' : Db}
    {st : BlockStep} (hdb : db.Books fc) (hfit : st.Fits db)
    (h : st.run env skip b db = .ok db') : db'.Books fc := by
  obtain ⟨t, v, hflow, ht, -⟩ := BlockStep.run_flow hdb.settled h
  exact hdb.of_flow hflow (ht hfit)

theorem books_keepsBlock (env : Env) : KeepsBlock env Event.Neutral (Db.Books env.fc) where
  validated db hdb := hdb.settled.proposals
  evaluate clock db op db' hdb hv hC h := evaluate_books hdb hv (hC rfl) h
  proposals db t r hdb ht := by
    have hflow : Flow env.fc True 0 0 db { db with proposals := t, requiredApprovals := r } :=
      .of_move (.proposals db.ledger t fun _ => ht)
    exact hdb.of_flow hflow rfl
  opened skip db trx db' hdb h := hdb.of_ledger_eq (Db.openTransaction_ledger h)
  step skip b db st db' hdb hC h := run_books hdb hC h
  irreversible db num id hdb := hdb.of_ledger_eq rfl
  postValidations db t hdb := hdb.of_ledger_eq rfl

/-- **Conservation of tokens.**  Operations with all that they apply, steps, and runs of
blocks keep the books. -/
theorem tokens_conserved (env : Env) :
    (∀ fuel depth db op n db', db.Books env.fc → op.validate env.fc = .ok () →
        (∀ e ∈ (Db.applyOperation env fuel depth db op n).1, e.Neutral) →
        (Db.applyOperation env fuel depth db op n).2 = .ok db' → db'.Books env.fc) ∧
      (∀ skip b db (st : BlockStep) db', db.Books env.fc → st.Fits db →
        st.run env skip b db = .ok db' → db'.Books env.fc) ∧
      ∀ fuel skip (s : Store) bs n s', skip.validateOperations = false → s.db.Books env.fc →
        (∀ e ∈ (s.applyBlocks env fuel skip bs n).1, e.Neutral) →
        (s.applyBlocks env fuel skip bs n).2 = .ok s' → s'.db.Books env.fc := by
  refine ⟨?_, ?_, ?_⟩
  · intro fuel depth db op n db' hdb hv hC h
    have hens := Db.applyOperation_ensures (books_keepsBlock env).toKeeps fuel depth db op hdb hv
    exact hens n hC db' h
  · intro skip b db st db' hdb hfit h
    exact run_books hdb hfit h
  · intro fuel skip s bs n s' hskip hdb hC h
    exact Store.applyBlocks_ensures (books_keepsBlock env) fuel hskip bs hdb n hC s' h

instance (db : Db) (name : AccountName) : Decidable (db.Clearable name) :=
  inferInstanceAs (Decidable (∀ a ∈ db.findAccount name, 0 < a.vestingShares →
    ∀ t, db.sharesToTokens a.vestingShares = .ok t → 0 ≤ max 0 a.balance + t))

instance (db : Db) (st : BlockStep) : Decidable (st.Fits db) :=
  match st with
  | .clearNullAccountBalance => inferInstanceAs (Decidable (db.Clearable "null"))
  | .clearAnonymousAccountBalance => inferInstanceAs (Decidable (db.Clearable "anonymous"))
  | .claimCommitteeAccountBalance => inferInstanceAs (Decidable (db.Clearable "committee"))
  | .openBlock | .updateGlobalDynamicData | .updateSigningWitness | .createBlockSummary
  | .clearExpiredTransactions | .clearExpiredDelegations | .clearUsedInvites
  | .clearClosedCommitteeRequests | .updateBandwidthReserveCandidates | .updateWitnessSchedule
  | .processInflationRecalc | .expireAwardSharesProcessing | .processFunds
  | .processVestingWithdrawals | .accountRecoveryProcessing | .expireEscrowRatification
  | .accountOnAuctionExpiration | .committeeProcessing | .paidSubscribeProcessing
  | .processHardforks => .isTrue trivial

instance (e : Event) : Decidable e.Neutral :=
  match e with
  | .operation db op kept => inferInstanceAs (Decidable (kept = true → db.minted op = 0))
  | .step db _ st _ => inferInstanceAs (Decidable (st.Fits db))

/-- alice sends bob five tokens. -/
def smallTransfer : Operation :=
  .transfer { fromAccount := "alice", toAccount := "bob", amount := ⟨5, tokenSymbol⟩, memo := "" }

theorem smallStore_settled (others : List AccountObject) (fc : Fc) :
    (smallStore others).db.ledger.Settled fc :=
  ⟨fun _ h => (nomatch h), fun _ h => (nomatch h), fun _ h => (nomatch h)⟩

/-- alice pays bob, and the null account in tokens and in shares, which the block burns. -/
def burningBlock : SignedBlock :=
  smallBlock [smallTransfer,
    .transfer { fromAccount := "alice", toAccount := "null", amount := ⟨7, tokenSymbol⟩, memo := "" },
    .transferToVesting { fromAccount := "alice", toAccount := "null", amount := ⟨11, tokenSymbol⟩ }]

theorem tokens_conserved_block :
    ∃ s', ((smallStore [{ id := 4, name := "bob" }]).applyBlocks smallEnv 2
      { merkleCheck := true } [burningBlock] 0).2 = .ok s' ∧ s'.db.Books smallEnv.fc ∧
      (s'.db.findAccount "null").map (fun a => (a.balance, a.vestingShares)) = some (0, 0) := by
  have hrun : returns ((smallStore [{ id := 4, name := "bob" }]).applyBlocks smallEnv 2
      { merkleCheck := true } [burningBlock] 0).2 (fun s' => decide ((s'.db.findAccount "null").map
        (fun a => (a.balance, a.vestingShares)) = some (0, 0))) = true := by
    decide +kernel
  obtain ⟨s', hs', hburnt⟩ := returns_eq_true hrun
  refine ⟨s', hs', ?_, of_decide_eq_true hburnt⟩
  exact (tokens_conserved smallEnv).2.2 2 _ _ _ 0 s' rfl
    ⟨by decide +kernel, smallStore_settled _ _⟩ (by decide +kernel) hs'

/-- An escrow that is approved although its fee is still pending. -/
def feePending : Db :=
  { dgp := { currentSupply := 15 }
    accounts := ⟨[{ id := 0, name := "alice" }, { id := 1, name := "bob" },
      { id := 2, name := "carol" }], 3⟩
    escrows := ⟨[{ id := 0, escrowId := 0, fromAccount := "alice", toAccount := "bob"
                   agent := "carol", ratificationDeadline := 5, escrowExpiration := 9
                   tokenBalance := 10, pendingFee := 5, toApproved := true
                   agentApproved := true }], 1⟩ }

def releaseAll : Operation :=
  .escrowRelease { fromAccount := "alice", toAccount := "bob", agent := "carol", who := "alice"
                   receiver := "bob", escrowId := 0, tokenAmount := ⟨10, tokenSymbol⟩ }

/-- The null account holds more than all shares, and they are worth `2 ^ 63 + 2 ^ 62` tokens. -/
def overvalued : Db :=
  { dgp := { currentSupply := 2, totalVestingFund := 2, totalVestingShares := 1 }
    accounts := ⟨[{ id := 0, name := "null", vestingShares := 2 ^ 62 + 2 ^ 61 }], 1⟩ }

/-- Where the fee of an approved escrow is still pending, the release of the escrow drops it; and
where the shares of the null account are worth a negative number of tokens as `int64_t`, the fund
gets them and nothing is burnt. -/
theorem tokens_unbalanced :
    (feePending.TokensConserved ∧ releaseAll.validate smallEnv.fc = .ok () ∧
      ∃ db', Db.evaluate smallEnv.fc false 0 feePending releaseAll = .ok db' ∧
        ¬ db'.TokensConserved) ∧
      overvalued.Books smallEnv.fc ∧
      ∃ db', overvalued.clearNullAccountBalance = .ok db' ∧ ¬ db'.TokensConserved := by
  refine ⟨⟨by decide +kernel, by decide +kernel, ?_⟩, ⟨by decide +kernel, ?_⟩, ?_⟩
  · have hrun : (fun db' : Db => decide db'.TokensConserved) <$>
        Db.evaluate smallEnv.fc false 0 feePending releaseAll = .ok false := by decide +kernel
    obtain ⟨db', h, hfalse⟩ := (map_eq_ok _ _ _).1 hrun
    exact ⟨db', h, of_decide_eq_false hfalse⟩
  · exact ⟨fun _ h => (nomatch h), fun _ h => (nomatch h), fun _ h => (nomatch h)⟩
  · have hrun : (fun db' : Db => decide db'.TokensConserved) <$>
        overvalued.clearNullAccountBalance = .ok false := by decide +kernel
    obtain ⟨db', h, hfalse⟩ := (map_eq_ok _ _ _).1 hrun
    exact ⟨db', h, of_decide_eq_false hfalse⟩

/-! ## Nonnegative balances -/

/-- Nothing is negative or uncovered, and the shares add up. -/
structure Db.Solvent (fc : Fc) (db : Db) : Prop where
  settled : db.ledger.Settled fc
  sound : db.ledger.Sound
  shares : db.ledger.shareGap = 0

/-- An operation that is kept is covered: only a bid is not covered by its evaluator's own
checks.  The tokens in the state are few enough to be vested without overflow. -/
def Event.Covered : Event → Prop
  | .operation db op kept => (kept = true → db.Covered op) ∧ db.ledger.holdings ≤ Db.maxVest
  | .step db _ _ _ => db.ledger.holdings ≤ Db.maxVest

theorem Db.Solvent.ready {fc : Fc} {db : Db} (h : db.Solvent fc)
    (hsmall : db.ledger.holdings ≤ Db.maxVest) : db.Ready :=
  ⟨h.sound, h.shares, hsmall⟩

theorem Db.Solvent.of_flow {fc : Fc} {g : Prop} {t v : Int} {db db' : Db} (hdb : db.Solvent fc)
    (h : Flow fc g t v db db') (hg : g) (hv : v = 0) : db'.Solvent fc := by
  refine ⟨h.settled hdb.settled, h.sound hg hdb.sound, ?_⟩
  rw [h.shareGap, hdb.shares, hv]
  rfl

theorem Db.Solvent.of_ledger_eq {fc : Fc} {db db' : Db} (hdb : db.Solvent fc)
    (h : db'.ledger = db.ledger) : db'.Solvent fc :=
  hdb.of_flow (g := True) (.of_ledger_eq h) trivial rfl

theorem solvent_keepsBlock (env : Env) :
    KeepsBlock env Event.Covered (Db.Solvent env.fc) where
  validated db hdb := hdb.settled.proposals
  evaluate clock db op db' hdb hv hC h :=
    hdb.of_flow (Db.evaluate_flow hv hdb.settled h) ⟨hdb.ready hC.2, hC.1 rfl⟩ rfl
  proposals db t r hdb ht := by
    have hflow : Flow env.fc True 0 0 db { db with proposals := t, requiredApprovals := r } :=
      .of_move (.proposals db.ledger t fun _ => ht)
    exact hdb.of_flow hflow trivial rfl
  opened skip db trx db' hdb h := hdb.of_ledger_eq (Db.openTransaction_ledger h)
  step skip b db st db' hdb hC h := by
    have hready := hdb.ready hC
    obtain ⟨t, v, hflow, -, hv⟩ := BlockStep.run_flow hdb.settled h
    exact hdb.of_flow hflow hready (hv hready)
  irreversible db num id hdb := hdb.of_ledger_eq rfl
  postValidations db t hdb := hdb.of_ledger_eq rfl

/-- The funds of the chain are not overdrawn and the reward fund fits its type. -/
structure Db.Endowed (fc : Fc) (db : Db) : Prop where
  settled : db.ledger.Settled fc
  fair : db.ledger.Fair
  fits : db.dgp.totalRewardFund < 2 ^ 63

theorem Db.Endowed.of_flow {fc : Fc} {g : Prop} {t v : Int} {db db' : Db} (hdb : db.Endowed fc)
    (h : Flow fc g t v db db') : db'.Endowed fc :=
  ⟨h.settled hdb.settled, h.fair hdb.fair, h.rewardFund_lt hdb.fits⟩

theorem endowed_keepsBlock (env : Env) (C : Event → Prop) :
    KeepsBlock env C (Db.Endowed env.fc) where
  validated db hdb := hdb.settled.proposals
  evaluate clock db op db' hdb hv hC h := hdb.of_flow (Db.evaluate_flow hv hdb.settled h)
  proposals db t r hdb ht := by
    have hflow : Flow env.fc True 0 0 db { db with proposals := t, requiredApprovals := r } :=
      .of_move (.proposals db.ledger t fun _ => ht)
    exact hdb.of_flow hflow
  opened skip db trx db' hdb h :=
    hdb.of_flow (g := True) (.of_ledger_eq (Db.openTransaction_ledger h))
  step skip b db st db' hdb hC h := by
    obtain ⟨t, v, hflow, -, -⟩ := BlockStep.run_flow hdb.settled h
    exact hdb.of_flow hflow
  irreversible db num id hdb := hdb.of_flow (g := True) (.of_ledger_eq rfl)
  postValidations db t hdb := hdb.of_flow (g := True) (.of_ledger_eq rfl)

/-- No balance and no reserve is negative. -/
def Db.BalancesNonneg (db : Db) : Prop :=
  db.accounts.All fun a => 0 ≤ a.balance ∧ 0 ≤ a.reservedBalance

theorem Db.Solvent.balancesNonneg {fc : Fc} {db : Db} (h : db.Solvent fc) :
    db.BalancesNonneg := by
  intro a ha
  have hpurse := h.sound.purses a.purse (List.mem_map_of_mem ha)
  exact ⟨hpurse.1, hpurse.2.1⟩

/-- **No negative balance.**  When every bid that is kept is covered, an operation with all that it
applies, a transaction, a step and a run of blocks keep what forbids negative balances. -/
theorem balances_nonneg_of_covered (env : Env) :
    Preserved env Event.Covered (Db.Solvent env.fc) ∧
      ∀ db : Db, db.Solvent env.fc → db.BalancesNonneg :=
  ⟨(solvent_keepsBlock env).preserved, fun _ hdb => hdb.balancesNonneg⟩

/-- Operations other than a purchase are always covered. -/
def Event.plain : Event → Bool
  | .operation _ (.buyAccount _) _ => false
  | .operation db _ _ => decide (db.ledger.holdings ≤ Db.maxVest)
  | .step db _ _ _ => decide (db.ledger.holdings ≤ Db.maxVest)

theorem Event.covered_of_plain {e : Event} (h : e.plain = true) : e.Covered := by
  cases e with
  | step db b st kept =>
    have hsmall : db.ledger.holdings ≤ Db.maxVest := of_decide_eq_true h
    exact hsmall
  | operation db op kept =>
    cases op with
    | buyAccount o => cases h
    | _ => exact ⟨fun _ => trivial, of_decide_eq_true h⟩

/-- A state without bids, escrows, invites and proposals, in which no amount is negative. -/
theorem Db.solvent_of_quiet {db : Db} (fc : Fc) (hescrows : db.escrows.rows = [])
    (hinvites : db.invites.rows = []) (hproposals : db.proposals.rows = [])
    (haccounts : db.accounts.All fun a =>
      0 ≤ a.balance ∧ 0 ≤ a.reservedBalance ∧ 0 ≤ a.vestingShares ∧ a.currentBid = 0)
    (hprice : db.ledger.Convertible) (hreward : 0 ≤ db.dgp.totalRewardFund)
    (hcommittee : 0 ≤ db.dgp.committeeFund) (hshares : db.ledger.shareGap = 0)
    (hterms : db.terms.Sound) : db.Solvent fc := by
  have hempty {α : Type} {t : Table α} {P : α → Prop} (ht : t.rows = []) : t.All P := by
    intro x hx
    rw [ht] at hx
    exact absurd hx List.not_mem_nil
  have hpurses : db.ledger.purses.All fun p =>
      0 ≤ p.balance ∧ 0 ≤ p.reserved ∧ 0 ≤ p.shares ∧ p.bid = 0 := by
    intro p hp
    obtain ⟨a, ha, rfl⟩ := List.mem_map.1 hp
    exact haccounts a ha
  refine ⟨⟨hempty hescrows, hempty hinvites, hempty hproposals⟩, ?_, hshares⟩
  refine ⟨fun p hp => ?_, fun name _ => ?_, hempty hescrows, hempty hinvites, hreward, hcommittee,
    hprice.vestingFund, hprice.vestingShares, hprice.price, hterms⟩
  · obtain ⟨hbal, hres, hsh, hbid⟩ := hpurses p hp
    exact ⟨hbal, hres, hsh, hbid.ge⟩
  · have hbids : db.ledger.bidsOf name = 0 := by
      refine List.sum_eq_zero fun x hx => ?_
      obtain ⟨p, hp, rfl⟩ := List.mem_map.1 hx
      simp only [(hpurses p hp).2.2.2, ite_self]
    rw [hbids]
    unfold Ledger.reservedOf Ledger.find
    cases hp : db.ledger.purses.get (·.name) name with
    | none => exact le_rfl
    | some p => exact (hpurses p (Table.get_mem hp)).2.1

theorem smallStore_terms (others : List AccountObject) : (smallStore others).db.terms.Sound where
  median := Db.propsSound_default
  witnesses := by
    intro p hp
    cases hp with
    | head => exact Db.propsSound_default
    | tail _ hp => cases hp
  inflation := by
    show (0 : Int) ≤ 0 ∧ (0 : Int) ≤ 10000
    decide
  ratio := by
    show (0 : Int) ≤ 0 ∧ (0 : Int) ≤ 10000
    decide
  subscriptions := fun _ h => (nomatch h)
  requests := fun _ h => (nomatch h)
  routes := fun _ => Nat.zero_le _

theorem smallStore_solvent (fc : Fc) :
    (smallStore [{ id := 4, name := "bob" }]).db.Solvent fc :=
  Db.solvent_of_quiet fc rfl rfl rfl (by decide +kernel) ⟨by decide, by decide, by decide⟩
    le_rfl le_rfl rfl (smallStore_terms _)

theorem balances_nonneg_block :
    ∃ s', ((smallStore [{ id := 4, name := "bob" }]).applyBlocks smallEnv 2
      { merkleCheck := true } [smallBlock [smallTransfer]] 0).2 = .ok s' ∧
        s'.db.BalancesNonneg := by
  have hrun : returns ((smallStore [{ id := 4, name := "bob" }]).applyBlocks smallEnv 2
      { merkleCheck := true } [smallBlock [smallTransfer]] 0).2 (fun _ => true) = true := by
    decide +kernel
  have hplain : ∀ e ∈ ((smallStore [{ id := 4, name := "bob" }]).applyBlocks smallEnv 2
      { merkleCheck := true } [smallBlock [smallTransfer]] 0).1, e.plain = true := by
    decide +kernel
  obtain ⟨s', hs', -⟩ := returns_eq_true hrun
  refine ⟨s', hs', ?_⟩
  obtain ⟨hpreserved, hnonneg⟩ := balances_nonneg_of_covered smallEnv
  exact hnonneg _ (hpreserved.blocks 2 _ _ _ 0 s' rfl (smallStore_solvent _)
    (fun e he => Event.covered_of_plain (hplain e he)) hs')

/-- A bid is accepted although the bidder has nothing. -/
theorem uncovered_bid_accepted :
    auctionStore.db.BalancesNonneg ∧
      ∃ s', (auctionStore.applyBlocks smallEnv 2 { merkleCheck := true }
        [smallBlock [uncoveredBid]] 0).2 = .ok s' ∧ ¬ s'.db.BalancesNonneg := by
  constructor
  · unfold Db.BalancesNonneg
    decide +kernel
  · have hrun : returns (auctionStore.applyBlocks smallEnv 2 { merkleCheck := true }
        [smallBlock [uncoveredBid]] 0).2
        (fun s => s.db.accounts.rows.any fun a => decide (a.balance < 0)) = true := by
      decide +kernel
    obtain ⟨s', hs', hneg⟩ := returns_eq_true hrun
    refine ⟨s', hs', fun hall => ?_⟩
    obtain ⟨a, ha, hlt⟩ := List.any_eq_true.1 hneg
    have hpos := (hall a ha).1
    have hlt' := of_decide_eq_true hlt
    omega

end VizCore.Chain
