import VizCore.Lib.Median
import VizCore.Chain.Block.Schedule

/-!
# The medians of the witnesses' properties

`update_median_witness_props` selects the median of every property by `nth_element`, one property
after the other on the list that the selections before have left.

* `calcMedians_computes`: whatever order the selections leave, the medians are those of the
  schedule;
* `medianProps_valid_iff`: medians of valid properties are valid once the median of the greatest
  curation percentage is taken too.
-/

namespace VizCore.Chain

open VizCore.Lib VizCore.Protocol

/-- `std::nth_element` -/
abbrev Selection := (WitnessObject → WitnessObject → Bool) → Nat → List WitnessObject →
  List WitnessObject

/-- What the standard promises of `nth_element`. -/
def Selection.Documented (nthElement : Selection) : Prop :=
  ∀ less k l, StrictWeakOrder less → k < l.length → NthElement less k l (nthElement less k l)

/-- The list of witnesses and the medians found so far. -/
structure MedianState where
  active : List WitnessObject
  medianProps : ChainPropertiesHf9 := {}

namespace Db

variable (nthElement : Selection) (hasHardfork : Nat → Bool) (median : Nat)

/-- `calc_median` -/
def calcMedian {β : Type} (lt : β → β → Bool) (param : ChainPropertiesHf9 → β)
    (assign : β → ChainPropertiesHf9 → ChainPropertiesHf9) (s : MedianState) :
    Result MedianState := do
  let active := nthElement (fun a b => lt (param a.props) (param b.props)) median s.active
  let w ← getOrThrow active[median]? (.unknownKey "active")
  return { active, medianProps := assign (param w.props) s.medianProps }

/-- The medians of the properties that came with hardfork 4. -/
def calcMediansHf4 (s : MedianState) : Result MedianState := do
  let s ← calcMedian nthElement median intLt (·.inflationWitnessPercent)
    (fun x p => { p with inflationWitnessPercent := x }) s
  let s ← calcMedian nthElement median intLt (·.inflationRatioCommitteeVsRewardFund)
    (fun x p => { p with inflationRatioCommitteeVsRewardFund := x }) s
  calcMedian nthElement median natLt (·.inflationRecalcPeriod)
    (fun x p => { p with inflationRecalcPeriod := x }) s

/-- The medians of the properties that came with hardfork 6. -/
def calcMediansHf6 (s : MedianState) : Result MedianState := do
  let s ← calcMedian nthElement median natLt (·.dataOperationsCostAdditionalBandwidth)
    (fun x p => { p with dataOperationsCostAdditionalBandwidth := x }) s
  let s ← calcMedian nthElement median intLt (·.witnessMissPenaltyPercent)
    (fun x p => { p with witnessMissPenaltyPercent := x }) s
  calcMedian nthElement median natLt (·.witnessMissPenaltyDuration)
    (fun x p => { p with witnessMissPenaltyDuration := x }) s

/-- The medians of the properties that came with hardfork 9. -/
def calcMediansHf9 (s : MedianState) : Result MedianState := do
  let s ← calcMedian nthElement median assetLt (·.createInviteMinBalance)
    (fun x p => { p with createInviteMinBalance := x }) s
  let s ← calcMedian nthElement median assetLt (·.committeeCreateRequestFee)
    (fun x p => { p with committeeCreateRequestFee := x }) s
  let s ← calcMedian nthElement median assetLt (·.createPaidSubscriptionFee)
    (fun x p => { p with createPaidSubscriptionFee := x }) s
  let s ← calcMedian nthElement median assetLt (·.accountOnSaleFee)
    (fun x p => { p with accountOnSaleFee := x }) s
  let s ← calcMedian nthElement median assetLt (·.subaccountOnSaleFee)
    (fun x p => { p with subaccountOnSaleFee := x }) s
  let s ← calcMedian nthElement median assetLt (·.witnessDeclarationFee)
    (fun x p => { p with witnessDeclarationFee := x }) s
  calcMedian nthElement median natLt (·.withdrawIntervals)
    (fun x p => { p with withdrawIntervals := x }) s

/-- A part of the calculation that waits for a hardfork. -/
def sinceHardfork (hardfork : Nat) (run : MedianState → Result MedianState) (s : MedianState) :
    Result MedianState :=
  if hasHardfork hardfork then run s else return s

/-- The medians before the first property that waits for a hardfork. -/
def calcMediansInit (s : MedianState) : Result MedianState := do
  let s ← calcMedian nthElement median assetLt (·.accountCreationFee)
    (fun x p => { p with accountCreationFee := x }) s
  let s ← calcMedian nthElement median natLt (·.maximumBlockSize)
    (fun x p => { p with maximumBlockSize := x }) s
  let s ← calcMedian nthElement median natLt (·.createAccountDelegationRatio)
    (fun x p => { p with createAccountDelegationRatio := x }) s
  let s ← calcMedian nthElement median natLt (·.createAccountDelegationTime)
    (fun x p => { p with createAccountDelegationTime := x }) s
  let s ← calcMedian nthElement median assetLt (·.minDelegation)
    (fun x p => { p with minDelegation := x }) s
  calcMedian nthElement median intLt (·.minCurationPercent)
    (fun x p => { p with minCurationPercent := x }) s

/-- The other medians that wait for no hardfork. -/
def calcMediansReserve (s : MedianState) : Result MedianState := do
  let s ← calcMedian nthElement median intLt (·.bandwidthReservePercent)
    (fun x p => { p with bandwidthReservePercent := x }) s
  let s ← calcMedian nthElement median assetLt (·.bandwidthReserveBelow)
    (fun x p => { p with bandwidthReserveBelow := x }) s
  let s ← calcMedian nthElement median intLt (·.flagEnergyAdditionalCost)
    (fun x p => { p with flagEnergyAdditionalCost := x }) s
  let s ← calcMedian nthElement median natLt (·.voteAccountingMinRshares)
    (fun x p => { p with voteAccountingMinRshares := x }) s
  calcMedian nthElement median intLt (·.committeeRequestApproveMinPercent)
    (fun x p => { p with committeeRequestApproveMinPercent := x }) s

/-- The calculation of `median_props`. -/
def calcMedians (s : MedianState) : Result MedianState := do
  let s ← calcMediansInit nthElement median s
  let s ← sinceHardfork hasHardfork 1 (calcMedian nthElement median intLt (·.maxCurationPercent)
    (fun x p => { p with maxCurationPercent := x })) s
  let s ← calcMediansReserve nthElement median s
  let s ← sinceHardfork hasHardfork 4 (calcMediansHf4 nthElement median) s
  let s ← sinceHardfork hasHardfork 6 (calcMediansHf6 nthElement median) s
  sinceHardfork hasHardfork 9 (calcMediansHf9 nthElement median) s

/-- `update_median_witness_props` over an implementation of `nth_element`, with the hardforks
that are applied. -/
def updateMedianWitnessPropsBy (db : Db) : Result Db := do
  let active ← db.scheduledNames.mapM db.getWitness
  let s ← calcMedians nthElement hasHardfork (active.length / 2) { active }
  let db := { db with
    witnessSchedule := { db.witnessSchedule with medianProps := s.medianProps } }
  return db.modifyDgp fun p => { p with maximumBlockSize := s.medianProps.maximumBlockSize }

/-! ## The medians of a schedule -/

variable {nthElement hasHardfork median}
variable {scheduled : List WitnessObject} {β κ : Type} [LinearOrder κ]

/-- The median has the key of the middle rank. -/
theorem medianOf_isRank {key : β → κ} {field : ChainPropertiesHf9 → β} (h : scheduled ≠ []) :
    IsRank (fun w => key (field w.props)) scheduled (scheduled.length / 2)
      (key (medianOf (fun a b => decide (key a < key b)) field scheduled)) := by
  have hpos : 0 < scheduled.length := List.length_pos_of_ne_nil h
  have hlt : scheduled.length / 2 < (scheduled.map fun w => field w.props).length := by
    rw [List.length_map]
    omega
  have hselect := nthElement_orderBy (StrictWeakOrder.key key) (scheduled.length / 2)
    (scheduled.map fun w => field w.props)
  obtain ⟨x, -, hx, hrank⟩ := hselect.isRank (f := key) hlt
  have hmedian : medianOf (fun a b => decide (key a < key b)) field scheduled = x := by
    simp only [medianOf]
    rw [List.getD_eq_getElem?_getD, hx]
    rfl
  rw [hmedian]
  exact hrank.of_map

/-- **Medians keep a relation** that every witness keeps. -/
theorem medianOf_mono {f g : ChainPropertiesHf9 → Int} (hne : scheduled ≠ [])
    (h : ∀ w ∈ scheduled, f w.props ≤ g w.props) :
    medianOf intLt f scheduled ≤ medianOf intLt g scheduled := by
  have hrank (field : ChainPropertiesHf9 → Int) :
      IsRank (fun w => id (field w.props)) scheduled (scheduled.length / 2)
        (id (medianOf intLt field scheduled)) := medianOf_isRank hne
  exact (hrank f).mono (hrank g) h

/-! ## What a selection finds -/

/-- The run keeps the witnesses of the schedule and takes the medians to `f` of them. -/
def Computes (scheduled : List WitnessObject) (run : MedianState → Result MedianState)
    (f : ChainPropertiesHf9 → ChainPropertiesHf9) : Prop :=
  ∀ s, s.active.Perm scheduled →
    ∃ active, active.Perm scheduled ∧ run s = .ok ⟨active, f s.medianProps⟩

theorem Computes.bind {run run' : MedianState → Result MedianState}
    {f f' : ChainPropertiesHf9 → ChainPropertiesHf9} (h : Computes scheduled run f)
    (h' : Computes scheduled run' f') :
    Computes scheduled (fun s => run s >>= run') fun p => f' (f p) := by
  intro s hs
  obtain ⟨active, hperm, hrun⟩ := h s hs
  obtain ⟨active', hperm', hrun'⟩ := h' ⟨active, f s.medianProps⟩ hperm
  refine ⟨active', hperm', ?_⟩
  show run s >>= run' = _
  rw [hrun]
  exact hrun'

theorem sinceHardfork_computes {run : MedianState → Result MedianState}
    {f : ChainPropertiesHf9 → ChainPropertiesHf9} (hardfork : Nat) (h : Computes scheduled run f) :
    Computes scheduled (sinceHardfork hasHardfork hardfork run)
      fun p => if hasHardfork hardfork then f p else p := by
  intro s hs
  unfold sinceHardfork
  split
  · exact h s hs
  · exact ⟨s.active, hs, rfl⟩

variable {param : ChainPropertiesHf9 → β} {assign : β → ChainPropertiesHf9 → ChainPropertiesHf9}

/-- **One median**: on any permutation of the schedule the selection finds its median. -/
theorem calcMedian_computes (hnth : nthElement.Documented) (hne : scheduled ≠ []) (key : β → κ)
    (hkey : ∀ w ∈ scheduled, ∀ w' ∈ scheduled,
      key (param w.props) = key (param w'.props) → param w.props = param w'.props) :
    Computes scheduled
      (calcMedian nthElement (scheduled.length / 2) (fun a b => decide (key a < key b)) param assign)
      (assign (medianOf (fun a b => decide (key a < key b)) param scheduled)) := by
  intro s hs
  have hpos : 0 < scheduled.length := List.length_pos_of_ne_nil hne
  have hlt : scheduled.length / 2 < s.active.length := by
    rw [hs.length_eq]
    omega
  have hselect := hnth _ _ s.active (StrictWeakOrder.key fun w => key (param w.props)) hlt
  obtain ⟨w, hw, hget, hrank⟩ := hselect.isRank hlt
  obtain ⟨w', hw', hmedian⟩ := medianOf_mem (fun a b => decide (key a < key b)) param hne
  have hsame : key (param w.props) = key (param w'.props) := by
    rw [← hmedian]
    exact (hrank.perm hs.symm).unique (medianOf_isRank hne)
  refine ⟨_, hselect.perm.trans hs, ?_⟩
  simp only [calcMedian]
  rw [hget, hmedian, ← hkey w (hs.mem_iff.1 hw) w' hw' hsame]
  rfl

/-! ## Valid properties -/

/-- `0 <= x` and `x <= CHAIN_100_PERCENT` -/
def InPercent (x : Int) : Prop := 0 ≤ x ∧ x ≤ 10000

/-- A positive amount of tokens. -/
def IsFee (a : Asset) : Prop := 0 < a.amount ∧ a.symbol = tokenSymbol

/-- What `chain_properties_hf9::validate` asks of each property alone. -/
structure ValidFields (p : ChainPropertiesHf9) : Prop where
  accountCreationFee : 1000 ≤ p.accountCreationFee.amount ∧
    p.accountCreationFee.symbol = tokenSymbol
  maximumBlockSize : 1024 * 64 ≤ p.maximumBlockSize ∧ p.maximumBlockSize ≤ 2 * 1024 * 1024
  delegationRatio : 0 < p.createAccountDelegationRatio
  delegationTime : 5 * 60 * 60 * 24 ≤ p.createAccountDelegationTime
  minDelegation : IsFee p.minDelegation
  minCuration : 0 ≤ p.minCurationPercent
  maxCuration : p.maxCurationPercent ≤ 10000
  reservePercent : InPercent p.bandwidthReservePercent
  reserveBelow : 0 ≤ p.bandwidthReserveBelow.amount ∧
    p.bandwidthReserveBelow.symbol = sharesSymbol
  flagEnergy : InPercent p.flagEnergyAdditionalCost
  approvePercent : InPercent p.committeeRequestApproveMinPercent
  inflation : InPercent p.inflationWitnessPercent
  ratio : InPercent p.inflationRatioCommitteeVsRewardFund
  recalcPeriod : p.inflationRecalcPeriod ≤ 10512000
  missPenalty : InPercent p.witnessMissPenaltyPercent
  missDuration : p.witnessMissPenaltyDuration ≤ 10512000 * 3
  invite : IsFee p.createInviteMinBalance
  request : IsFee p.committeeCreateRequestFee
  subscription : IsFee p.createPaidSubscriptionFee
  sale : IsFee p.accountOnSaleFee
  subaccountSale : IsFee p.subaccountOnSaleFee
  declaration : IsFee p.witnessDeclarationFee
  intervals : 0 < p.withdrawIntervals

theorem validatePercent_bind (x : Int) (name : String) (f : Unit → Result β) (b : β) :
    (validatePercent x name >>= f) = .ok b ↔ InPercent x ∧ f () = .ok b := by
  simp only [validatePercent, InPercent, bind_assoc, fcAssert_bind_eq_ok, and_assoc]

theorem validateFee_bind (a : Asset) (name : String) (f : Unit → Result β) (b : β) :
    (validateFee a name >>= f) = .ok b ↔ IsFee a ∧ f () = .ok b := by
  simp only [validateFee, IsFee, bind_assoc, fcAssert_bind_eq_ok, and_assoc]

/-- `validate` checks each property, and one relation between two of them. -/
theorem validate_iff (p : ChainPropertiesHf9) :
    p.validate = .ok () ↔ ValidFields p ∧ p.minCurationPercent ≤ p.maxCurationPercent := by
  simp only [ChainPropertiesHf9.validate, ChainPropertiesHf6.validate, ChainPropertiesHf4.validate,
    ChainPropertiesInit.validate, bind_assoc, validatePercent_bind, validateFee_bind,
    fcAssert_bind_eq_ok, fcAssert_eq_ok]
  constructor
  · rintro ⟨hfee, hsymbol, hmin, hmax, hratio, htime, hdelegation, hlow, hhigh, hcuration, hreserve,
      hbelow, hshares, hflag, happrove, hinflation, hcommittee, hrecalc, hpenalty, hduration,
      hinvite, hrequest, hsubscription, hsale, hsubaccount, hdeclaration, hintervals⟩
    exact ⟨⟨⟨hfee, hsymbol⟩, ⟨hmin, hmax⟩, hratio, htime, hdelegation, hlow, hhigh, hreserve,
      ⟨hbelow, hshares⟩, hflag, happrove, hinflation, hcommittee, hrecalc, hpenalty, hduration,
      hinvite, hrequest, hsubscription, hsale, hsubaccount, hdeclaration, hintervals⟩, hcuration⟩
  · rintro ⟨⟨⟨hfee, hsymbol⟩, ⟨hmin, hmax⟩, hratio, htime, hdelegation, hlow, hhigh, hreserve,
      ⟨hbelow, hshares⟩, hflag, happrove, hinflation, hcommittee, hrecalc, hpenalty, hduration,
      hinvite, hrequest, hsubscription, hsale, hsubaccount, hdeclaration, hintervals⟩, hcuration⟩
    exact ⟨hfee, hsymbol, hmin, hmax, hratio, htime, hdelegation, hlow, hhigh, hcuration, hreserve,
      hbelow, hshares, hflag, happrove, hinflation, hcommittee, hrecalc, hpenalty, hduration,
      hinvite, hrequest, hsubscription, hsale, hsubaccount, hdeclaration, hintervals⟩

/-! ## The medians of valid properties -/

section Parts

variable (scheduled : List WitnessObject) (p : ChainPropertiesHf9)

def withInit : ChainPropertiesHf9 :=
  { p with
    accountCreationFee := medianOf assetLt (·.accountCreationFee) scheduled
    maximumBlockSize := medianOf natLt (·.maximumBlockSize) scheduled
    createAccountDelegationRatio := medianOf natLt (·.createAccountDelegationRatio) scheduled
    createAccountDelegationTime := medianOf natLt (·.createAccountDelegationTime) scheduled
    minDelegation := medianOf assetLt (·.minDelegation) scheduled
    minCurationPercent := medianOf intLt (·.minCurationPercent) scheduled }

def withHf1 : ChainPropertiesHf9 :=
  { p with maxCurationPercent := medianOf intLt (·.maxCurationPercent) scheduled }

def withReserve : ChainPropertiesHf9 :=
  { p with
    bandwidthReservePercent := medianOf intLt (·.bandwidthReservePercent) scheduled
    bandwidthReserveBelow := medianOf assetLt (·.bandwidthReserveBelow) scheduled
    flagEnergyAdditionalCost := medianOf intLt (·.flagEnergyAdditionalCost) scheduled
    voteAccountingMinRshares := medianOf natLt (·.voteAccountingMinRshares) scheduled
    committeeRequestApproveMinPercent :=
      medianOf intLt (·.committeeRequestApproveMinPercent) scheduled }

def withHf4 : ChainPropertiesHf9 :=
  { p with
    inflationWitnessPercent := medianOf intLt (·.inflationWitnessPercent) scheduled
    inflationRatioCommitteeVsRewardFund :=
      medianOf intLt (·.inflationRatioCommitteeVsRewardFund) scheduled
    inflationRecalcPeriod := medianOf natLt (·.inflationRecalcPeriod) scheduled }

def withHf6 : ChainPropertiesHf9 :=
  { p with
    dataOperationsCostAdditionalBandwidth :=
      medianOf natLt (·.dataOperationsCostAdditionalBandwidth) scheduled
    witnessMissPenaltyPercent := medianOf intLt (·.witnessMissPenaltyPercent) scheduled
    witnessMissPenaltyDuration := medianOf natLt (·.witnessMissPenaltyDuration) scheduled }

def withHf9 : ChainPropertiesHf9 :=
  { p with
    createInviteMinBalance := medianOf assetLt (·.createInviteMinBalance) scheduled
    committeeCreateRequestFee := medianOf assetLt (·.committeeCreateRequestFee) scheduled
    createPaidSubscriptionFee := medianOf assetLt (·.createPaidSubscriptionFee) scheduled
    accountOnSaleFee := medianOf assetLt (·.accountOnSaleFee) scheduled
    subaccountOnSaleFee := medianOf assetLt (·.subaccountOnSaleFee) scheduled
    witnessDeclarationFee := medianOf assetLt (·.witnessDeclarationFee) scheduled
    withdrawIntervals := medianOf natLt (·.withdrawIntervals) scheduled }

/-- The medians under the hardforks that are applied; other properties stay as they are. -/
def mediansUnder (hasHardfork : Nat → Bool) : ChainPropertiesHf9 :=
  let p := withInit scheduled p
  let p := if hasHardfork 1 then withHf1 scheduled p else p
  let p := withReserve scheduled p
  let p := if hasHardfork 4 then withHf4 scheduled p else p
  let p := if hasHardfork 6 then withHf6 scheduled p else p
  if hasHardfork 9 then withHf9 scheduled p else p

end Parts

/-- With all hardforks applied every property is a median. -/
theorem mediansUnder_all (scheduled : List WitnessObject) (p : ChainPropertiesHf9) :
    mediansUnder scheduled p (fun _ => true) = medianPropsOf scheduled := rfl

theorem mediansUnder_minCuration (p : ChainPropertiesHf9) :
    (mediansUnder scheduled p hasHardfork).minCurationPercent =
      medianOf intLt (·.minCurationPercent) scheduled := by
  unfold mediansUnder
  cases hasHardfork 1 <;> cases hasHardfork 4 <;> cases hasHardfork 6 <;> cases hasHardfork 9 <;>
    rfl

theorem mediansUnder_maxCuration (p : ChainPropertiesHf9) :
    (mediansUnder scheduled p hasHardfork).maxCurationPercent =
      if hasHardfork 1 then medianOf intLt (·.maxCurationPercent) scheduled
      else p.maxCurationPercent := by
  unfold mediansUnder
  cases hasHardfork 1 <;> cases hasHardfork 4 <;> cases hasHardfork 6 <;> cases hasHardfork 9 <;>
    rfl

theorem default_valid : ValidFields {} := ((validate_iff {}).1 (by decide)).1

/-- **Medians** of valid fields are valid. -/
theorem medianPropsOf_validFields (hne : scheduled ≠ [])
    (h : ∀ w ∈ scheduled, ValidFields w.props) : ValidFields (medianPropsOf scheduled) := by
  have hmedian {β : Type} (lt : β → β → Bool) (field : ChainPropertiesHf9 → β) (P : β → Prop)
      (hP : ∀ p, ValidFields p → P (field p)) : P (medianOf lt field scheduled) := by
    obtain ⟨w, hw, heq⟩ := medianOf_mem lt field hne
    rw [heq]
    exact hP w.props (h w hw)
  constructor
  · exact hmedian _ _ (fun a : Asset => 1000 ≤ a.amount ∧ a.symbol = tokenSymbol)
      fun p hp => hp.accountCreationFee
  · exact hmedian _ _ (fun n => 1024 * 64 ≤ n ∧ n ≤ 2 * 1024 * 1024) fun p hp => hp.maximumBlockSize
  · exact hmedian _ _ (0 < ·) fun p hp => hp.delegationRatio
  · exact hmedian _ _ (5 * 60 * 60 * 24 ≤ ·) fun p hp => hp.delegationTime
  · exact hmedian _ _ IsFee fun p hp => hp.minDelegation
  · exact hmedian _ _ (0 ≤ ·) fun p hp => hp.minCuration
  · exact hmedian _ _ (· ≤ 10000) fun p hp => hp.maxCuration
  · exact hmedian _ _ InPercent fun p hp => hp.reservePercent
  · exact hmedian _ _ (fun a : Asset => 0 ≤ a.amount ∧ a.symbol = sharesSymbol)
      fun p hp => hp.reserveBelow
  · exact hmedian _ _ InPercent fun p hp => hp.flagEnergy
  · exact hmedian _ _ InPercent fun p hp => hp.approvePercent
  · exact hmedian _ _ InPercent fun p hp => hp.inflation
  · exact hmedian _ _ InPercent fun p hp => hp.ratio
  · exact hmedian _ _ (· ≤ 10512000) fun p hp => hp.recalcPeriod
  · exact hmedian _ _ InPercent fun p hp => hp.missPenalty
  · exact hmedian _ _ (· ≤ 10512000 * 3) fun p hp => hp.missDuration
  · exact hmedian _ _ IsFee fun p hp => hp.invite
  · exact hmedian _ _ IsFee fun p hp => hp.request
  · exact hmedian _ _ IsFee fun p hp => hp.subscription
  · exact hmedian _ _ IsFee fun p hp => hp.sale
  · exact hmedian _ _ IsFee fun p hp => hp.subaccountSale
  · exact hmedian _ _ IsFee fun p hp => hp.declaration
  · exact hmedian _ _ (0 < ·) fun p hp => hp.intervals

theorem mediansUnder_validFields (hne : scheduled ≠ [])
    (h : ∀ w ∈ scheduled, ValidFields w.props) {p : ChainPropertiesHf9} (hp : ValidFields p) :
    ValidFields (mediansUnder scheduled p hasHardfork) := by
  have hall := medianPropsOf_validFields hne h
  have hif (hardfork : Nat) {p q : ChainPropertiesHf9} (hp : ValidFields p) (hq : ValidFields q) :
      ValidFields (if hasHardfork hardfork then q else p) := by
    split
    · exact hq
    · exact hp
  have hinit : ValidFields (withInit scheduled p) :=
    { hp with
      accountCreationFee := hall.accountCreationFee
      maximumBlockSize := hall.maximumBlockSize
      delegationRatio := hall.delegationRatio
      delegationTime := hall.delegationTime
      minDelegation := hall.minDelegation
      minCuration := hall.minCuration }
  have hhf1 {p : ChainPropertiesHf9} (hp : ValidFields p) : ValidFields (withHf1 scheduled p) :=
    { hp with maxCuration := hall.maxCuration }
  have hreserve {p : ChainPropertiesHf9} (hp : ValidFields p) :
      ValidFields (withReserve scheduled p) :=
    { hp with
      reservePercent := hall.reservePercent
      reserveBelow := hall.reserveBelow
      flagEnergy := hall.flagEnergy
      approvePercent := hall.approvePercent }
  have hhf4 {p : ChainPropertiesHf9} (hp : ValidFields p) : ValidFields (withHf4 scheduled p) :=
    { hp with
      inflation := hall.inflation
      ratio := hall.ratio
      recalcPeriod := hall.recalcPeriod }
  have hhf6 {p : ChainPropertiesHf9} (hp : ValidFields p) : ValidFields (withHf6 scheduled p) :=
    { hp with
      missPenalty := hall.missPenalty
      missDuration := hall.missDuration }
  have hhf9 {p : ChainPropertiesHf9} (hp : ValidFields p) : ValidFields (withHf9 scheduled p) :=
    { hp with
      invite := hall.invite
      request := hall.request
      subscription := hall.subscription
      sale := hall.sale
      subaccountSale := hall.subaccountSale
      declaration := hall.declaration
      intervals := hall.intervals }
  have hcuration := hreserve (hif 1 hinit (hhf1 hinit))
  have hinflation := hif 4 hcuration (hhf4 hcuration)
  have hpenalty := hif 6 hinflation (hhf6 hinflation)
  exact hif 9 hpenalty (hhf9 hpenalty)

/-! ## The run over all properties -/

section Run

variable (hnth : nthElement.Documented) (hne : scheduled ≠ [])
include hnth hne

theorem natMedian_computes (param : ChainPropertiesHf9 → Nat)
    (assign : Nat → ChainPropertiesHf9 → ChainPropertiesHf9) :
    Computes scheduled (calcMedian nthElement (scheduled.length / 2) natLt param assign)
      (assign (medianOf natLt param scheduled)) :=
  calcMedian_computes hnth hne id fun _ _ _ _ h => h

theorem intMedian_computes (param : ChainPropertiesHf9 → Int)
    (assign : Int → ChainPropertiesHf9 → ChainPropertiesHf9) :
    Computes scheduled (calcMedian nthElement (scheduled.length / 2) intLt param assign)
      (assign (medianOf intLt param scheduled)) :=
  calcMedian_computes hnth hne id fun _ _ _ _ h => h

/-- Amounts of one symbol have one median. -/
theorem assetMedian_computes {param : ChainPropertiesHf9 → Asset}
    (assign : Asset → ChainPropertiesHf9 → ChainPropertiesHf9) (symbol : Nat)
    (h : ∀ w ∈ scheduled, (param w.props).symbol = symbol) :
    Computes scheduled (calcMedian nthElement (scheduled.length / 2) assetLt param assign)
      (assign (medianOf assetLt param scheduled)) := by
  refine calcMedian_computes hnth hne Asset.amount ?_
  intro w hw w' hw' hamount
  have hw := h w hw
  have hw' := h w' hw'
  cases ha : param w.props with
  | mk amount symbol₁ =>
    cases hb : param w'.props with
    | mk amount' symbol₂ =>
      rw [ha, hb] at hamount
      rw [ha] at hw
      rw [hb] at hw'
      simp only at hamount hw hw'
      rw [hamount, hw, hw']

theorem calcMediansHf4_computes :
    Computes scheduled (calcMediansHf4 nthElement (scheduled.length / 2)) (withHf4 scheduled) :=
  (intMedian_computes hnth hne _ _).bind <| (intMedian_computes hnth hne _ _).bind <|
    natMedian_computes hnth hne _ _

theorem calcMediansHf6_computes :
    Computes scheduled (calcMediansHf6 nthElement (scheduled.length / 2)) (withHf6 scheduled) :=
  (natMedian_computes hnth hne _ _).bind <| (intMedian_computes hnth hne _ _).bind <|
    natMedian_computes hnth hne _ _

variable (hvalid : ∀ w ∈ scheduled, ValidFields w.props)
include hvalid

theorem feeMedian_computes {param : ChainPropertiesHf9 → Asset}
    (assign : Asset → ChainPropertiesHf9 → ChainPropertiesHf9)
    (h : ∀ p, ValidFields p → IsFee (param p)) :
    Computes scheduled (calcMedian nthElement (scheduled.length / 2) assetLt param assign)
      (assign (medianOf assetLt param scheduled)) :=
  assetMedian_computes hnth hne assign tokenSymbol fun w hw => (h w.props (hvalid w hw)).2

theorem calcMediansHf9_computes :
    Computes scheduled (calcMediansHf9 nthElement (scheduled.length / 2)) (withHf9 scheduled) :=
  (feeMedian_computes hnth hne hvalid _ fun p hp => hp.invite).bind <|
    (feeMedian_computes hnth hne hvalid _ fun p hp => hp.request).bind <|
    (feeMedian_computes hnth hne hvalid _ fun p hp => hp.subscription).bind <|
    (feeMedian_computes hnth hne hvalid _ fun p hp => hp.sale).bind <|
    (feeMedian_computes hnth hne hvalid _ fun p hp => hp.subaccountSale).bind <|
    (feeMedian_computes hnth hne hvalid _ fun p hp => hp.declaration).bind <|
    natMedian_computes hnth hne _ _

theorem calcMediansInit_computes :
    Computes scheduled (calcMediansInit nthElement (scheduled.length / 2)) (withInit scheduled) :=
  (assetMedian_computes hnth hne _ tokenSymbol
    fun w hw => (hvalid w hw).accountCreationFee.2).bind <|
    (natMedian_computes hnth hne _ _).bind <| (natMedian_computes hnth hne _ _).bind <|
    (natMedian_computes hnth hne _ _).bind <|
    (feeMedian_computes hnth hne hvalid _ fun p hp => hp.minDelegation).bind <|
    intMedian_computes hnth hne _ _

theorem calcMediansReserve_computes :
    Computes scheduled (calcMediansReserve nthElement (scheduled.length / 2))
      (withReserve scheduled) :=
  (intMedian_computes hnth hne _ _).bind <|
    (assetMedian_computes hnth hne _ sharesSymbol fun w hw => (hvalid w hw).reserveBelow.2).bind <|
    (intMedian_computes hnth hne _ _).bind <| (natMedian_computes hnth hne _ _).bind <|
    intMedian_computes hnth hne _ _

/-- **The run over all properties** finds the medians of the schedule, whatever order each
selection leaves to the next one. -/
theorem calcMedians_computes :
    Computes scheduled (calcMedians nthElement hasHardfork (scheduled.length / 2))
      fun p => mediansUnder scheduled p hasHardfork :=
  (calcMediansInit_computes hnth hne hvalid).bind <|
    (sinceHardfork_computes 1 (intMedian_computes hnth hne _ _)).bind <|
    (calcMediansReserve_computes hnth hne hvalid).bind <|
    (sinceHardfork_computes 4 (calcMediansHf4_computes hnth hne)).bind <|
    (sinceHardfork_computes 6 (calcMediansHf6_computes hnth hne)).bind <|
    sinceHardfork_computes 9 (calcMediansHf9_computes hnth hne hvalid)

end Run

/-! ## The step of the database -/

variable {db : Db}

/-- `update_median_witness_props` succeeds on a schedule of valid properties. -/
theorem updateMedianWitnessPropsBy_eq (hnth : nthElement.Documented)
    (hne : db.scheduledNames ≠ []) (hscheduled : db.scheduledNames.mapM db.getWitness = .ok scheduled)
    (hvalid : ∀ w ∈ scheduled, ValidFields w.props) :
    ∃ db', db.updateMedianWitnessPropsBy nthElement hasHardfork = .ok db' ∧
      db'.medianProps = mediansUnder scheduled {} hasHardfork := by
  have hsome : scheduled ≠ [] := scheduled_ne_nil hne hscheduled
  have hall : Computes scheduled (calcMedians nthElement hasHardfork (scheduled.length / 2))
      fun p => mediansUnder scheduled p hasHardfork := calcMedians_computes hnth hsome hvalid
  obtain ⟨active, -, hrun⟩ := hall { active := scheduled } (List.Perm.refl scheduled)
  unfold updateMedianWitnessPropsBy
  rw [hscheduled]
  show ∃ db', (calcMedians nthElement hasHardfork (scheduled.length / 2)
    { active := scheduled } >>= _) = .ok db' ∧ _
  rw [hrun]
  exact ⟨_, rfl, rfl⟩

/-- With all hardforks applied the selections give what sorting gives. -/
theorem updateMedianWitnessPropsBy_all (hnth : nthElement.Documented)
    (hne : db.scheduledNames ≠ []) (hscheduled : db.scheduledNames.mapM db.getWitness = .ok scheduled)
    (hvalid : ∀ w ∈ scheduled, ValidFields w.props) :
    db.updateMedianWitnessPropsBy nthElement (fun _ => true) = db.updateMedianWitnessProps := by
  have hsome : scheduled ≠ [] := scheduled_ne_nil hne hscheduled
  have hall : Computes scheduled (calcMedians nthElement (fun _ => true) (scheduled.length / 2))
      fun p => mediansUnder scheduled p fun _ => true := calcMedians_computes hnth hsome hvalid
  obtain ⟨active, -, hrun⟩ := hall { active := scheduled } (List.Perm.refl scheduled)
  unfold updateMedianWitnessPropsBy updateMedianWitnessProps
  rw [hscheduled]
  show (calcMedians nthElement (fun _ => true) (scheduled.length / 2)
    { active := scheduled } >>= _) = _
  rw [hrun]
  rfl

/-- **Valid medians**: valid properties of the scheduled witnesses have valid medians exactly when
the greatest curation percentage has its median taken too or its default bounds the least. -/
theorem medianProps_valid_iff (hnth : nthElement.Documented) (hne : db.scheduledNames ≠ [])
    (hscheduled : db.scheduledNames.mapM db.getWitness = .ok scheduled)
    (hvalid : ∀ w ∈ scheduled, w.props.validate = .ok ()) :
    ∃ db', db.updateMedianWitnessPropsBy nthElement hasHardfork = .ok db' ∧
      (db'.medianProps.validate = .ok () ↔
        hasHardfork 1 = true ∨ medianOf intLt (·.minCurationPercent) scheduled ≤ 1600) := by
  have hsome : scheduled ≠ [] := scheduled_ne_nil hne hscheduled
  have hfields : ∀ w ∈ scheduled, ValidFields w.props :=
    fun w hw => ((validate_iff w.props).1 (hvalid w hw)).1
  have hcomputed : ∃ db', db.updateMedianWitnessPropsBy nthElement hasHardfork = .ok db' ∧
      db'.medianProps = mediansUnder scheduled {} hasHardfork :=
    updateMedianWitnessPropsBy_eq hnth hne hscheduled hfields
  obtain ⟨db', hrun, hprops⟩ := hcomputed
  refine ⟨db', hrun, ?_⟩
  have hmedians : ValidFields (mediansUnder scheduled {} hasHardfork) :=
    mediansUnder_validFields hsome hfields default_valid
  have hmono : medianOf intLt (·.minCurationPercent) scheduled
      ≤ medianOf intLt (·.maxCurationPercent) scheduled :=
    medianOf_mono hsome fun w hw => ((validate_iff w.props).1 (hvalid w hw)).2
  rw [hprops, validate_iff, and_iff_right hmedians, mediansUnder_minCuration,
    mediansUnder_maxCuration]
  cases hasHardfork 1 with
  | false =>
    constructor
    · intro hle
      exact Or.inr hle
    · intro h
      rcases h with h | h
      · cases h
      · exact h
  | true =>
    constructor
    · intro _
      exact Or.inl rfl
    · intro _
      exact hmono

/-- Three witnesses with three ranges of curation percentages. -/
def ranges : Db where
  witnesses := ⟨[
    { id := 0, owner := "alice", props := { minCurationPercent := 5000, maxCurationPercent := 9000 } },
    { id := 1, owner := "bob", props := { minCurationPercent := 6000, maxCurationPercent := 6000 } },
    { id := 2, owner := "carol", props := { minCurationPercent := 0, maxCurationPercent := 8000 } }],
    3⟩
  witnessSchedule :=
    { currentShuffledWitnesses := ["alice", "bob", "carol"], numScheduledWitnesses := 3 }

theorem orderBy_documented : Selection.Documented fun less _ l => orderBy less l :=
  fun _ k l hless _ => nthElement_orderBy hless k l

/-- The medians of the three are those of different witnesses. -/
theorem ranges_valid :
    ∃ db', ranges.updateMedianWitnessPropsBy (fun less _ l => orderBy less l) (fun _ => true) =
        .ok db' ∧
      (db'.medianProps.validate = .ok () ↔
        true = true ∨ medianOf intLt (·.minCurationPercent) ranges.witnesses.rows ≤ 1600) :=
  medianProps_valid_iff orderBy_documented (by decide) rfl (by decide)

/-- Before hardfork 1 the greatest curation percentage stays at its default, whatever the
witnesses vote for. -/
theorem ranges_unbounded :
    (∀ w ∈ ranges.witnesses.rows, w.props.validate = .ok ()) ∧
      ∃ db', ranges.updateMedianWitnessPropsBy (fun less _ l => orderBy less l) (fun _ => false) =
          .ok db' ∧
        db'.medianProps.validate ≠ .ok () := by
  refine ⟨by decide, ?_⟩
  have hrun : returns (ranges.updateMedianWitnessPropsBy (fun less _ l => orderBy less l)
      fun _ => false) (fun db => decide (db.medianProps.validate ≠ .ok ())) = true := by
    decide +kernel
  obtain ⟨db', hdb', hinvalid⟩ := returns_eq_true hrun
  exact ⟨db', hdb', of_decide_eq_true hinvalid⟩

end Db

end VizCore.Chain
