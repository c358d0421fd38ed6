import VizCore.Network.Relay

/-!
# Answers to a request for items

`on_fetch_items_message`: every hash of the request is looked up in the message cache and then
asked of the delegate, and the replies are queued when all of them are there.

* `answers_spec`: the loop answers all hashes, or it throws at one of them;
* `fetchItems_answered_iff`: a request is answered as it should be exactly where every item of it
  is there.  The delegate has no answer for an item that it does not have.
-/

namespace VizCore.Network

open VizCore.Lib VizCore.Protocol VizCore.Chain

/-- `as<block_message>` -/
def Packet.asBlock : Packet → Except ExceptionClass BlockMessage
  | .block m => .ok m
  | _ => .error .assertException

/-- The messages that nodes pass on. -/
def Packet.IsItem : Packet → Prop
  | .block _ | .trx _ | .postValidation _ => True
  | _ => False

namespace Relay

variable (client : Client)

/-- The reply to one hash, and whether it is the item. -/
def answer (s : Relay) (n : Chain.Node) (itemType : Nat) (hash : ItemHash) :
    Except ExceptionClass (Packet × Bool) :=
  match s.getMessage hash with
  | some p => .ok (p, true)
  | none =>
    match client.getItem n ⟨itemType, hash⟩ with
    | .ok p => .ok (p, true)
    | .error e =>
      if e.caughtBy .keyNotFound then .ok (.itemNotAvailable ⟨itemType, hash⟩, false) else .error e

/-- The loop over the hashes. -/
def answers (s : Relay) (n : Chain.Node) (itemType : Nat) :
    List ItemHash → Except ExceptionClass (List (Packet × Bool))
  | [] => .ok []
  | hash :: rest => do
    let reply ← s.answer client n itemType hash
    let replies ← answers s n itemType rest
    return reply :: replies

/-- The last block that the peer is going to have. -/
def noteLastBlock (c : ConnId) (n : Chain.Node) (last : Option (Packet × Bool)) (s : Relay) :
    Except (ExceptionClass × Relay) Relay :=
  match last with
  | none => .ok s
  | some (p, _) =>
    match p.asBlock with
    | .error e => .error (e, s)
    | .ok m =>
      let seen := Function.update s.lastBlockDelegateHasSeen c m.blockId
      let time := client.getBlockTime n m.blockId
      let times := Function.update s.lastBlockTimeDelegateHasSeen c time
      .ok { s with lastBlockDelegateHasSeen := seen, lastBlockTimeDelegateHasSeen := times }

/-- `send_queueable_message` -/
def queueMessage (c : ConnId) (q : QueuedMessage) (s : Relay) : Relay :=
  { s with queuedMessages := Function.update s.queuedMessages c (s.queuedMessages c ++ [q]) }

def sendReply (c : ConnId) (s : Relay) (reply : Packet × Bool) :
    Except (ExceptionClass × Relay) Relay :=
  if reply.1.msgType = blockMessageType then
    match reply.1.asBlock with
    | .error e => .error (e, s)
    | .ok m => .ok (s.queueMessage c (.item m.blockId))
  else .ok (s.queueMessage c (.message reply.1))

/-- `on_fetch_items_message` -/
def onFetchItemsMessage (c : ConnId) (itemType : Nat) (hashes : List ItemHash) (s : Relay)
    (n : Chain.Node) : Except (ExceptionClass × Relay) Relay :=
  match s.answers client n itemType hashes with
  | .error e => .error (e, s)
  | .ok replies => do
    let last := if itemType = blockMessageType then (replies.filter (·.2)).getLast? else none
    let s ← s.noteLastBlock client c n last
    replies.foldlM (sendReply c) s

/-! ## What a request should bring -/

/-- The chain's item of the type and the hash. -/
def chainItem (n : Chain.Node) (itemType : Nat) (hash : ItemHash) : Option Packet :=
  if itemType = blockMessageType then
    (n.fetchBlockById client.env (asBlockId hash)).map fun b => .block ⟨b, Db.blockId client.env b⟩
  else if itemType = trxMessageType then
    (n.db.transactions.get (·.trxId) hash).map fun row => .trx (client.packedTrx row)
  else none

/-- The item of the type and the hash, from the cache or from the chain. -/
def itemOf (s : Relay) (n : Chain.Node) (itemType : Nat) (hash : ItemHash) : Option Packet :=
  ((s.getMessage hash).filter fun p => decide (p.msgType = itemType)).or
    (chainItem client n itemType hash)

/-- How a message is queued: a block is looked up again when it is sent. -/
def toQueue : Packet → QueuedMessage
  | .block m => .item m.blockId
  | p => .message p

/-- What should be queued for a hash. -/
def expected (s : Relay) (n : Chain.Node) (itemType : Nat) (hash : ItemHash) : Packet :=
  (s.itemOf client n itemType hash).getD (.itemNotAvailable ⟨itemType, hash⟩)

/-- The request is answered: one reply for every hash, in their order, and no exception. -/
def Answered (c : ConnId) (itemType : Nat) (hashes : List ItemHash) (s : Relay)
    (n : Chain.Node) : Prop :=
  ∃ s', s.onFetchItemsMessage client c itemType hashes n = .ok s' ∧
    s'.queuedMessages c =
      s.queuedMessages c ++ hashes.map fun hash => toQueue (s.expected client n itemType hash)

/-- The cache has the message under the type, or it does not have it and the chain has the item. -/
def Available (s : Relay) (n : Chain.Node) (itemType : Nat) (hash : ItemHash) : Prop :=
  match s.getMessage hash with
  | some p => p.msgType = itemType
  | none => (chainItem client n itemType hash).isSome = true

/-- The cache holds messages that nodes pass on. -/
def CacheHolds (s : Relay) : Prop := ∀ i ∈ s.messageCache, i.messageBody.IsItem

variable {client} {packetHash : Packet → ItemHash} {s s' : Relay} {n : Chain.Node} {c : ConnId}
  {itemType : Nat} {hash : ItemHash} {p : Packet}

/-! ## The cache -/

theorem CacheHolds.getMessage (h : s.CacheHolds) (hp : s.getMessage hash = some p) : p.IsItem := by
  unfold Relay.getMessage at hp
  obtain ⟨i, hi, rfl⟩ := Option.map_eq_some_iff.mp hp
  exact h i (List.mem_of_find?_eq_some hi)

theorem CacheHolds.announce (h : s.CacheHolds) (hp : p.IsItem) :
    (s.announce packetHash p).CacheHolds := by
  intro i hi
  have hcase : i ∈ s.messageCache ∨ i = ⟨packetHash p, p, s.blockClock⟩ := by
    have hmem : i ∈ if (s.getMessage (packetHash p)).isSome then s.messageCache
        else s.messageCache ++ [⟨packetHash p, p, s.blockClock⟩] := hi
    split at hmem
    · exact .inl hmem
    · exact (List.mem_append.mp hmem).imp_right List.mem_singleton.mp
  cases hcase with
  | inl hold => exact h i hold
  | inr hnew =>
    rw [hnew]
    exact hp

theorem CacheHolds.blockAccepted (h : s.CacheHolds) : s.blockAccepted.CacheHolds := by
  intro i hi
  unfold Relay.blockAccepted at hi
  dsimp only at hi
  split at hi
  · exact h i (List.mem_of_mem_filter hi)
  · exact h i hi

theorem CacheHolds.processBlock (h : s.CacheHolds) (m : BlockMessage) :
    (s.processBlockDuringNormalOperation packetHash c m).CacheHolds := by
  unfold processBlockDuringNormalOperation
  dsimp only
  split
  · apply CacheHolds.blockAccepted
    exact CacheHolds.announce (s := { s with
      toIntake := s.toIntake.processBlockDuringNormalOperation c m }) h trivial
  · exact h

theorem CacheHolds.endNormalCall (h : s.CacheHolds) (i : Nat) (thrown : Option ExceptionClass) :
    (s.endNormalCall packetHash i thrown).CacheHolds := by
  unfold Relay.endNormalCall
  split
  · exact h
  · cases thrown with
    | none =>
      apply CacheHolds.blockAccepted
      refine CacheHolds.announce (p := .block _) ?_ trivial
      exact h
    | some e =>
      dsimp only
      split
      · exact h
      · split
        · exact h
        · exact h

/-- The delegate takes transactions and post-validation messages, and nothing else. -/
theorem CacheHolds.processOrdinaryMessage (h : s.CacheHolds) :
    (s.processOrdinaryMessage packetHash client c p n).1.CacheHolds := by
  have herased : (s.eraseRequest c ⟨p.msgType, packetHash p⟩).CacheHolds := h
  unfold Relay.processOrdinaryMessage
  dsimp only
  split
  · exact h
  · cases p with
    | trx t =>
      split
      · exact herased.announce trivial
      · split <;> exact h
    | postValidation v =>
      split
      · exact herased.announce trivial
      · split <;> exact h
    | block m =>
      dsimp only [Client.handleMessage]
      split <;> exact h
    | itemNotAvailable item =>
      dsimp only [Client.handleMessage]
      split <;> exact h
    | other t data =>
      dsimp only [Client.handleMessage]
      split <;> exact h

/-! ## The loop -/

theorem msgType_ne {p q : Packet} (h : p.msgType ≠ q.msgType) (hp : p.IsItem) (hq : q.IsItem) :
    toQueue p ≠ toQueue q := by
  intro heq
  cases p <;> cases q <;> simp_all [toQueue, Packet.msgType, Packet.IsItem]

theorem chainItem_spec (h : chainItem client n itemType hash = some p) :
    p.msgType = itemType ∧ p.IsItem := by
  unfold chainItem at h
  split at h
  · rename_i htype
    obtain ⟨b, -, rfl⟩ := Option.map_eq_some_iff.mp h
    exact ⟨htype.symm, trivial⟩
  · split at h
    · rename_i htype
      obtain ⟨row, -, rfl⟩ := Option.map_eq_some_iff.mp h
      exact ⟨htype.symm, trivial⟩
    · cases h

/-- What the delegate hands out is the chain's item, unless another message than a transaction was
asked for. -/
theorem getItem_eq_ok (h : client.getItem n ⟨itemType, hash⟩ = .ok p) :
    chainItem client n itemType hash = some p ∨
      itemType ≠ trxMessageType ∧ chainItem client n itemType hash = none ∧
        ∃ t, p = .trx t := by
  unfold Client.getItem at h
  unfold chainItem
  split at h
  · rename_i htype
    have htype' : itemType = blockMessageType := htype
    rw [if_pos htype']
    split at h
    · rename_i b hb
      cases h
      exact .inl (by rw [show n.fetchBlockById client.env (asBlockId hash) = some b from hb]; rfl)
    · cases h
  · rename_i htype
    have htype' : itemType ≠ blockMessageType := htype
    rw [if_neg htype']
    split at h
    · rename_i row hrow
      cases h
      by_cases htrx : itemType = trxMessageType
      · rw [if_pos htrx]
        exact .inl (by rw [show n.db.transactions.get (·.trxId) hash = some row from hrow]; rfl)
      · rw [if_neg htrx]
        exact .inr ⟨htrx, rfl, _, rfl⟩
    · cases h

theorem getItem_error {e : ExceptionClass} (h : client.getItem n ⟨itemType, hash⟩ = .error e) :
    e = .assertException ∧ chainItem client n itemType hash = none := by
  unfold Client.getItem at h
  unfold chainItem
  split at h
  · rename_i htype
    have htype' : itemType = blockMessageType := htype
    rw [if_pos htype']
    split at h
    · cases h
    · rename_i hnone
      cases h
      exact ⟨rfl, Option.map_eq_none_iff.mpr hnone⟩
  · rename_i htype
    have htype' : itemType ≠ blockMessageType := htype
    rw [if_neg htype']
    split at h
    · cases h
    · rename_i hnone
      cases h
      refine ⟨rfl, ?_⟩
      split
      · exact Option.map_eq_none_iff.mpr hnone
      · rfl

/-- A hash whose item is there gets it. -/
theorem answer_available (h : s.Available client n itemType hash) :
    s.answer client n itemType hash = .ok (s.expected client n itemType hash, true) ∧
      (s.expected client n itemType hash).msgType = itemType ∧
      (s.CacheHolds → (s.expected client n itemType hash).IsItem) := by
  unfold Available at h
  unfold answer expected itemOf
  cases hget : s.getMessage hash with
  | some p =>
    rw [hget] at h
    have hfilter : (some p).filter (fun p => decide (p.msgType = itemType)) = some p := by
      rw [Option.filter_some, if_pos (decide_eq_true h)]
    rw [hfilter]
    exact ⟨rfl, h, fun hcache => hcache.getMessage hget⟩
  | none =>
    rw [hget] at h
    obtain ⟨p, hp⟩ := Option.isSome_iff_exists.mp h
    obtain ⟨htype, hitem⟩ := chainItem_spec hp
    rw [Option.filter_none, Option.none_or, hp]
    refine ⟨?_, htype, fun _ => hitem⟩
    cases hanswer : client.getItem n ⟨itemType, hash⟩ with
    | error e =>
      rw [(getItem_error hanswer).2] at hp
      cases hp
    | ok q =>
      rcases getItem_eq_ok hanswer with hq | ⟨-, hnone, -⟩
      · rw [hp] at hq
        cases hq
        rfl
      · rw [hnone] at hp
        cases hp

/-- A hash whose item is not there gets a wrong reply, or an exception. -/
theorem answer_unavailable {reply : Packet × Bool} (hcache : s.CacheHolds)
    (h : ¬ s.Available client n itemType hash)
    (hreply : s.answer client n itemType hash = .ok reply) :
    toQueue reply.1 ≠ toQueue (s.expected client n itemType hash) := by
  unfold Available at h
  unfold answer at hreply
  unfold expected itemOf
  cases hget : s.getMessage hash with
  | some p =>
    rw [hget] at h hreply
    cases hreply
    have hitem := hcache.getMessage hget
    have hfilter : (some p).filter (fun p => decide (p.msgType = itemType)) = none := by
      rw [Option.filter_some, if_neg (fun hsame => h (of_decide_eq_true hsame))]
    rw [hfilter, Option.none_or]
    cases hchain : chainItem client n itemType hash with
    | some q =>
      obtain ⟨htype, hitem'⟩ := chainItem_spec hchain
      exact msgType_ne (fun hsame => h (hsame.trans htype)) hitem hitem'
    | none =>
      intro heq
      cases p <;> simp_all [toQueue, Packet.IsItem]
  | none =>
    rw [hget] at h hreply
    have hchain : chainItem client n itemType hash = none := Option.not_isSome_iff_eq_none.mp h
    rw [Option.filter_none, Option.none_or, hchain]
    dsimp only at hreply
    cases hanswer : client.getItem n ⟨itemType, hash⟩ with
    | error e =>
      rw [hanswer, (getItem_error hanswer).1] at hreply
      cases hreply
    | ok q =>
      rw [hanswer] at hreply
      cases hreply
      rcases getItem_eq_ok hanswer with hq | ⟨-, -, t, rfl⟩
      · rw [hchain] at hq
        cases hq
      · intro heq
        cases heq

theorem answers_available {hashes : List ItemHash}
    (h : ∀ hash ∈ hashes, s.Available client n itemType hash) :
    s.answers client n itemType hashes =
      .ok (hashes.map fun hash => (s.expected client n itemType hash, true)) := by
  induction hashes with
  | nil => rfl
  | cons hash rest ih =>
    have hone := (answer_available (h hash List.mem_cons_self)).1
    have hrest := ih fun hash' hmem => h hash' (List.mem_cons_of_mem hash hmem)
    unfold answers
    rw [hone, hrest]
    rfl

/-- The loop has answered every hash. -/
theorem answers_spec {hashes : List ItemHash} {replies : List (Packet × Bool)}
    (h : s.answers client n itemType hashes = .ok replies) :
    List.Forall₂ (fun hash reply => s.answer client n itemType hash = .ok reply) hashes replies := by
  induction hashes generalizing replies with
  | nil =>
    cases h
    exact .nil
  | cons hash rest ih =>
    unfold answers at h
    simp only [bind_eq_ok, pure_eq_ok] at h
    obtain ⟨reply, hreply, others, hothers, rfl⟩ := h
    exact .cons hreply (ih hothers)

/-! ## The queue -/

theorem asBlock_eq_ok {m : BlockMessage} (h : p.asBlock = .ok m) : p = .block m := by
  cases p <;> simp_all [Packet.asBlock]

theorem sendReply_spec {reply : Packet × Bool} (h : s.sendReply c reply = .ok s') :
    s'.queuedMessages c = s.queuedMessages c ++ [toQueue reply.1] := by
  unfold sendReply at h
  split at h
  · split at h
    · cases h
    · rename_i m hm
      rw [asBlock_eq_ok hm]
      cases h
      exact Function.update_self _ _ _
  · rename_i htype
    have hqueue : toQueue reply.1 = .message reply.1 := by
      cases hp : reply.1 with
      | block m =>
        rw [hp] at htype
        exact absurd rfl htype
      | trx t => rfl
      | postValidation v => rfl
      | itemNotAvailable item => rfl
      | other t data => rfl
    rw [hqueue]
    cases h
    exact Function.update_self _ _ _

theorem sendReplies_spec {replies : List (Packet × Bool)}
    (h : replies.foldlM (sendReply c) s = .ok s') :
    s'.queuedMessages c = s.queuedMessages c ++ replies.map fun reply => toQueue reply.1 := by
  induction replies generalizing s with
  | nil =>
    cases h
    exact (List.append_nil _).symm
  | cons reply rest ih =>
    rw [List.foldlM_cons, bind_eq_ok] at h
    obtain ⟨s₁, hone, hrest⟩ := h
    rw [ih hrest, sendReply_spec hone, List.map_cons, List.append_assoc]
    rfl

theorem sendReplies_items {replies : List (Packet × Bool)} (h : ∀ reply ∈ replies, reply.1.IsItem)
    (s : Relay) : ∃ s', replies.foldlM (sendReply c) s = .ok s' := by
  induction replies generalizing s with
  | nil => exact ⟨s, rfl⟩
  | cons reply rest ih =>
    have hitem := h reply List.mem_cons_self
    have hone : ∃ s₁, s.sendReply c reply = .ok s₁ := by
      unfold sendReply
      cases hp : reply.1 with
      | block m => exact ⟨_, rfl⟩
      | trx t => exact ⟨_, rfl⟩
      | postValidation v => exact ⟨_, rfl⟩
      | itemNotAvailable item =>
        rw [hp] at hitem
        exact hitem.elim
      | other t data =>
        rw [hp] at hitem
        exact hitem.elim
    obtain ⟨s₁, hs₁⟩ := hone
    obtain ⟨s', hs'⟩ := ih (fun r hr => h r (List.mem_cons_of_mem reply hr)) s₁
    refine ⟨s', ?_⟩
    rw [List.foldlM_cons, hs₁]
    exact hs'

theorem noteLastBlock_queue {last : Option (Packet × Bool)}
    (h : s.noteLastBlock client c n last = .ok s') :
    s'.queuedMessages = s.queuedMessages := by
  unfold noteLastBlock at h
  split at h
  · cases h
    rfl
  · split at h
    · cases h
    · cases h
      rfl

theorem noteLastBlock_ok {last : Option (Packet × Bool)} (s : Relay)
    (h : ∀ reply ∈ last, reply.1.msgType = blockMessageType ∧ reply.1.IsItem) :
    ∃ s', s.noteLastBlock client c n last = .ok s' := by
  unfold noteLastBlock
  cases last with
  | none => exact ⟨s, rfl⟩
  | some reply =>
    obtain ⟨htype, hitem⟩ := h reply rfl
    cases hp : reply.1 with
    | block m =>
      dsimp only
      rw [hp]
      exact ⟨_, rfl⟩
    | trx t =>
      rw [hp] at htype
      exact absurd htype (show trxMessageType ≠ blockMessageType by decide)
    | postValidation v =>
      rw [hp] at htype
      exact absurd htype (show blockPostValidationMessageType ≠ blockMessageType by decide)
    | itemNotAvailable item =>
      rw [hp] at hitem
      exact hitem.elim
    | other t data =>
      rw [hp] at hitem
      exact hitem.elim

/-- **Requests for items.**  A request is answered with every item in its place exactly where every
item is in the cache under the type that is asked for, or only in the chain. -/
theorem fetchItems_answered_iff {hashes : List ItemHash} (hcache : s.CacheHolds) :
    s.Answered client c itemType hashes n ↔
      ∀ hash ∈ hashes, s.Available client n itemType hash := by
  constructor
  · rintro ⟨s', hrun, hqueue⟩
    unfold onFetchItemsMessage at hrun
    split at hrun
    · cases hrun
    · rename_i replies hreplies
      simp only [bind_eq_ok] at hrun
      obtain ⟨s₁, hlast, hsent⟩ := hrun
      rw [sendReplies_spec hsent, noteLastBlock_queue hlast] at hqueue
      have hsame := List.append_cancel_left hqueue
      have hall := answers_spec hreplies
      clear hlast hsent hqueue hreplies
      induction hall with
      | nil =>
        intro hash hmem
        cases hmem
      | cons hone _ ih =>
        rw [List.map_cons, List.map_cons] at hsame
        obtain ⟨hhead, htail⟩ := List.cons.inj hsame
        intro hash' hmem
        rcases List.mem_cons.mp hmem with rfl | hrest
        · by_contra hmissing
          exact answer_unavailable hcache hmissing hone hhead
        · exact ih htail hash' hrest
  · intro hall
    have hreplies := answers_available hall
    have hitems : ∀ reply ∈ hashes.map fun hash => (s.expected client n itemType hash, true),
        reply.1.msgType = itemType ∧ reply.1.IsItem := by
      intro reply hmem
      obtain ⟨hash, hhash, rfl⟩ := List.mem_map.mp hmem
      obtain ⟨-, htype, hitem⟩ := answer_available (hall hash hhash)
      exact ⟨htype, hitem hcache⟩
    unfold Answered onFetchItemsMessage
    rw [hreplies]
    dsimp only
    generalize hlist : (hashes.map fun hash => (s.expected client n itemType hash, true)) = replies
      at hitems ⊢
    have hlast : ∀ reply ∈ if itemType = blockMessageType then (replies.filter (·.2)).getLast?
        else none, reply.1.msgType = blockMessageType ∧ reply.1.IsItem := by
      intro reply hmem
      split at hmem
      · rename_i htype
        have hin := List.mem_of_mem_filter (List.mem_of_getLast? hmem)
        obtain ⟨htype', hitem⟩ := hitems reply hin
        exact ⟨htype'.trans htype, hitem⟩
      · cases hmem
    have hnoted : ∃ s₁, s.noteLastBlock client c n (if itemType = blockMessageType then
        (replies.filter (·.2)).getLast? else none) = .ok s₁ := noteLastBlock_ok s hlast
    obtain ⟨s₁, hs₁⟩ := hnoted
    obtain ⟨s', hs'⟩ := sendReplies_items (c := c) (fun reply hmem => (hitems reply hmem).2) s₁
    refine ⟨s', ?_, ?_⟩
    · rw [hs₁]
      exact hs'
    · rw [sendReplies_spec hs', noteLastBlock_queue hs₁, ← hlist, List.map_map]
      rfl

/-! ## Two requests -/

/-- A block has been passed on. -/
def cachedRelay : Relay := announce oneHash (.block oneBlockMessage) {}

theorem cachedRelay_holds : cachedRelay.CacheHolds :=
  CacheHolds.announce (fun _ hmem => (nomatch hmem)) trivial

theorem fetchItems_answered_iff_cached :
    cachedRelay.Answered smallClient 0 blockMessageType [7, 7] orphanChain := by
  refine (fetchItems_answered_iff cachedRelay_holds).mpr fun hash hmem => ?_
  have hseven : hash = 7 := by
    rcases List.mem_cons.mp hmem with h | h
    · exact h
    · exact List.mem_singleton.mp h
  rw [hseven]
  show blockMessageType = blockMessageType
  rfl

/-- The same block and an unknown one: the request has no reply at all. -/
theorem fetchItems_unknown :
    cachedRelay.onFetchItemsMessage smallClient 0 blockMessageType [7, 8] orphanChain =
        .error (.assertException, cachedRelay) ∧
      ¬ cachedRelay.Answered smallClient 0 blockMessageType [7, 8] orphanChain := by
  have hrun : cachedRelay.onFetchItemsMessage smallClient 0 blockMessageType [7, 8] orphanChain =
      .error (.assertException, cachedRelay) := rfl
  refine ⟨hrun, ?_⟩
  rintro ⟨s', hs', -⟩
  rw [hrun] at hs'
  cases hs'

end Relay

end VizCore.Network
