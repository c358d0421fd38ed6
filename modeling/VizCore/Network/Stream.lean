import VizCore.Network.Framing

/-!
# Encrypted streams

Below the messages of a connection: what `stcp_socket` writes to TCP, and how it puts together
what TCP brings in pieces.

* `write_eq`: the pieces that are encoded one by one are the encoded whole;
* `read_of_long`: however TCP cuts the stream, a read returns the decoded bytes that are due;
* `readLoop_refines`: the loop does with the pieces what it would do with the decoded stream;
* `framing_roundTrip`: what is sent is delivered, and no message or buffer is too large.
-/

namespace VizCore.Network.Wire

open VizCore.Lib VizCore.Protocol VizCore.Chain

/-! ## The cipher -/

/-- `aes_encoder` and `aes_decoder`, which go on from where they stopped. -/
structure Aes (σ : Type) where
  sendStart : σ
  recvStart : σ
  encode : σ → Bytes → Bytes × σ
  decode : σ → Bytes → Bytes × σ

/-- Both work on multiples of 16 bytes, piece by piece as on the whole, and the second inverts the
first. -/
structure Aes.Documented {σ : Type} (aes : Aes σ) : Prop where
  encode_nil : ∀ s, aes.encode s [] = ([], s)
  encode_append : ∀ s x y, 16 ∣ x.length → 16 ∣ y.length →
    aes.encode s (x ++ y) = ((aes.encode s x).1 ++ (aes.encode (aes.encode s x).2 y).1,
      (aes.encode (aes.encode s x).2 y).2)
  length_encode : ∀ s x, 16 ∣ x.length → (aes.encode s x).1.length = x.length
  decode_nil : ∀ s, aes.decode s [] = ([], s)
  decode_append : ∀ s x y, 16 ∣ x.length → 16 ∣ y.length →
    aes.decode s (x ++ y) = ((aes.decode s x).1 ++ (aes.decode (aes.decode s x).2 y).1,
      (aes.decode (aes.decode s x).2 y).2)
  length_decode : ∀ s x, 16 ∣ x.length → (aes.decode s x).1.length = x.length
  decode_encode : ∀ x, 16 ∣ x.length →
    (aes.decode aes.recvStart (aes.encode aes.sendStart x).1).1 = x

/-- `read_buffer_length` and `write_buffer_length` -/
def bufferLength : Nat := 4096

variable {σ : Type}

/-! ## Writing -/

/-- `ostream::write`, in the pieces that `stcp_socket::writesome` encodes. -/
def write (aes : Aes σ) (state : σ) (buffer : Bytes) : Bytes × σ :=
  if buffer = [] then ([], state)
  else
    let len := min bufferLength buffer.length
    let (piece, state) := aes.encode state (buffer.take len)
    let (rest, state) := write aes state (buffer.drop len)
    (piece ++ rest, state)
termination_by buffer.length
decreasing_by
  rename_i hne
  have hpos : 0 < buffer.length := List.length_pos_iff.2 hne
  rw [List.length_drop, bufferLength]
  omega

/-- The pieces are the whole. -/
theorem write_eq {aes : Aes σ} (haes : aes.Documented) (state : σ) {buffer : Bytes}
    (h : 16 ∣ buffer.length) : write aes state buffer = aes.encode state buffer := by
  induction hn : buffer.length using Nat.strong_induction_on generalizing state buffer with
  | _ n ih =>
    subst hn
    rw [write]
    by_cases hempty : buffer = []
    · rw [if_pos hempty, hempty, haes.encode_nil]
    · rw [if_neg hempty]
      have hpos : 0 < buffer.length := List.length_pos_iff.2 hempty
      have htake : 16 ∣ (buffer.take (min bufferLength buffer.length)).length := by
        rw [List.length_take, bufferLength]
        omega
      have hdrop : 16 ∣ (buffer.drop (min bufferLength buffer.length)).length := by
        rw [List.length_drop, bufferLength]
        omega
      have hlt : (buffer.drop (min bufferLength buffer.length)).length < buffer.length := by
        rw [List.length_drop, bufferLength]
        omega
      have hwhole := haes.encode_append state _ _ htake hdrop
      rw [List.take_append_drop] at hwhole
      dsimp only
      rw [ih _ hlt _ hdrop rfl, hwhole]

/-- The messages that are sent, with what the buffers held before. -/
def sendMessages (aes : Aes σ) : List (Message × (Nat → UInt8)) → σ → Bytes × σ
  | [], state => ([], state)
  | (m, fill) :: sent, state =>
    let (bytes, state) := write aes state (sendMessage fill m)
    let (rest, state) := sendMessages aes sent state
    (bytes ++ rest, state)

/-! ## Reading -/

/-- The receiving end: the bytes that TCP brings, and the number of calls so far. -/
structure Socket (σ : Type) where
  incoming : Bytes
  recvAes : σ
  calls : Nat := 0

namespace Socket

/-- The receiving end of a new connection, and the bytes that TCP is going to bring. -/
def start (aes : Aes σ) (incoming : Bytes) : Socket σ where
  incoming := incoming
  recvAes := aes.recvStart

/-- What `_sock.readsome` leaves to read up to the next multiple of 16. -/
def roundUp (s : Nat) : Nat := if s % 16 = 0 then s else s + (16 - s % 16)

/-- `stcp_socket::readsome`: `cuts` tells how many bytes TCP has at each call.  Nothing is returned
while bytes are missing. -/
def readsome (aes : Aes σ) (cuts : Nat → Nat) (len : Nat) (sock : Socket σ) :
    Option (Nat × Bytes × Socket σ) :=
  let len := min bufferLength len
  if sock.incoming = [] then none
  else
    let s := roundUp (max 1 (min (cuts sock.calls) (min len sock.incoming.length)))
    if sock.incoming.length < s then none
    else
      let (plain, state) := aes.decode sock.recvAes (sock.incoming.take s)
      some (s, plain, ⟨sock.incoming.drop s, state, sock.calls + 1⟩)

theorem readsome_pos {aes : Aes σ} {cuts : Nat → Nat} {len n : Nat} {sock sock' : Socket σ}
    {plain : Bytes} (h : readsome aes cuts len sock = some (n, plain, sock')) :
    0 < n ∧ sock'.incoming.length + n = sock.incoming.length := by
  unfold readsome at h
  dsimp only at h
  split at h
  · cases h
  · split at h
    · cases h
    · rename_i hlong
      cases h
      have hpos : 0 < roundUp (max 1 (min (cuts sock.calls)
          (min (min bufferLength len) sock.incoming.length))) := by
        unfold roundUp
        split <;> omega
      refine ⟨hpos, ?_⟩
      show (sock.incoming.drop _).length + _ = _
      rw [List.length_drop]
      omega

/-- `istream::read` -/
def read (aes : Aes σ) (cuts : Nat → Nat) (len : Nat) (sock : Socket σ) :
    Option (Bytes × Socket σ) :=
  if len = 0 then some ([], sock)
  else
    match h : readsome aes cuts len sock with
    | none => none
    | some (n, plain, sock') =>
      (read aes cuts (len - n) sock').map fun r => (plain ++ r.1, r.2)
termination_by len
decreasing_by
  have hpos := (readsome_pos h).1
  omega

variable {aes : Aes σ} {cuts : Nat → Nat} {sock : Socket σ} {len : Nat}

/-- The socket after `n` bytes have been decoded. -/
def after (aes : Aes σ) (sock : Socket σ) (n calls : Nat) : Socket σ where
  incoming := sock.incoming.drop n
  recvAes := (aes.decode sock.recvAes (sock.incoming.take n)).2
  calls := calls

/-- A call waits for bytes that are due, or returns some of them in blocks of 16. -/
theorem readsome_cases (hlen : 16 ∣ len) (hpos : len ≠ 0) :
    (readsome aes cuts len sock = none ∧ sock.incoming.length < len) ∨
      ∃ n, 16 ∣ n ∧ 0 < n ∧ n ≤ len ∧ n ≤ sock.incoming.length ∧
        readsome aes cuts len sock =
          some (n, (aes.decode sock.recvAes (sock.incoming.take n)).1,
            sock.after aes n (sock.calls + 1)) := by
  unfold readsome
  dsimp only
  by_cases hempty : sock.incoming = []
  · rw [if_pos hempty, hempty]
    exact Or.inl ⟨rfl, Nat.pos_of_ne_zero hpos⟩
  · rw [if_neg hempty]
    have hsome : 0 < sock.incoming.length := List.length_pos_iff.2 hempty
    generalize hs : max 1 (min (cuts sock.calls) (min (min bufferLength len) sock.incoming.length))
      = s
    have hbounds : 0 < s ∧ s ≤ min bufferLength len := by
      rw [← hs, bufferLength]
      omega
    rw [bufferLength] at hbounds
    have hround : 16 ∣ roundUp s ∧ 0 < roundUp s ∧ roundUp s ≤ len := by
      unfold roundUp
      split <;> omega
    obtain ⟨hdvd, hpositive, hle⟩ := hround
    by_cases hshort : sock.incoming.length < roundUp s
    · rw [if_pos hshort]
      exact Or.inl ⟨rfl, Nat.lt_of_lt_of_le hshort hle⟩
    · rw [if_neg hshort]
      exact Or.inr ⟨roundUp s, hdvd, hpositive, hle, Nat.le_of_not_lt hshort, rfl⟩

/-- A read that bytes are missing for waits. -/
theorem read_of_short (hlen : 16 ∣ len) (h : sock.incoming.length < len) :
    read aes cuts len sock = none := by
  induction hn : len using Nat.strong_induction_on generalizing len sock with
  | _ n ih =>
    subst hn
    have hpos : len ≠ 0 := Nat.ne_of_gt (Nat.lt_of_le_of_lt (Nat.zero_le _) h)
    rw [read, if_neg hpos]
    split
    · rfl
    · rename_i k plain sock' hcall
      rcases @readsome_cases σ aes cuts sock len hlen hpos with ⟨hnone, -⟩ |
        ⟨j, hdvd, hj, hle, hin, hsome⟩
      · rw [hnone] at hcall
        cases hcall
      · rw [hsome] at hcall
        cases hcall
        have hrest : (sock.after aes k (sock.calls + 1)).incoming.length < len - k := by
          show (sock.incoming.drop k).length < _
          rw [List.length_drop]
          omega
        rw [ih (len - k) (by omega) (Nat.dvd_sub hlen hdvd) hrest rfl]
        rfl

/-- **A read**, however TCP cuts the stream. -/
theorem read_of_long (haes : aes.Documented) (hlen : 16 ∣ len)
    (h : len ≤ sock.incoming.length) :
    ∃ calls, read aes cuts len sock =
      some ((aes.decode sock.recvAes (sock.incoming.take len)).1, sock.after aes len calls) := by
  induction hn : len using Nat.strong_induction_on generalizing len sock with
  | _ n ih =>
    subst hn
    by_cases hpos : len = 0
    · subst hpos
      refine ⟨sock.calls, ?_⟩
      rw [read, if_pos rfl, after, List.take_zero, List.drop_zero, haes.decode_nil]
    · rcases @readsome_cases σ aes cuts sock len hlen hpos with ⟨-, hshort⟩ |
        ⟨j, hdvd, hj, hle, hin, hsome⟩
      · omega
      · have hrest : len - j ≤ (sock.after aes j (sock.calls + 1)).incoming.length := by
          show _ ≤ (sock.incoming.drop j).length
          rw [List.length_drop]
          omega
        have hdvd' : 16 ∣ len - j := Nat.dvd_sub hlen hdvd
        obtain ⟨calls, hread⟩ := ih (len - j) (by omega) hdvd' hrest rfl
        have htake : 16 ∣ (sock.incoming.take j).length := by
          rw [List.length_take, Nat.min_eq_left hin]
          exact hdvd
        have hmiddle : 16 ∣ ((sock.incoming.drop j).take (len - j)).length := by
          have hle' : len - j ≤ (sock.incoming.drop j).length := hrest
          rw [List.length_take, Nat.min_eq_left hle']
          exact hdvd'
        have hsplit : sock.incoming.take len =
            sock.incoming.take j ++ (sock.incoming.drop j).take (len - j) := by
          rw [← List.take_add, Nat.add_sub_cancel' hle]
        have hdecode := haes.decode_append sock.recvAes _ _ htake hmiddle
        refine ⟨calls, ?_⟩
        rw [read, if_neg hpos]
        split
        · rename_i hcall
          rw [hsome] at hcall
          cases hcall
        · rename_i k plain sock' hcall
          rw [hsome] at hcall
          cases hcall
          rw [hread]
          have hdrop : (sock.incoming.drop j).drop (len - j) = sock.incoming.drop len := by
            rw [List.drop_drop, Nat.add_sub_cancel' hle]
          rw [Option.map_some, hsplit, hdecode]
          unfold after
          rw [hsplit, hdecode, hdrop]

theorem read_length {plain : Bytes} {sock' : Socket σ}
    (h : read aes cuts len sock = some (plain, sock')) :
    sock'.incoming.length ≤ sock.incoming.length ∧
      (0 < len → sock'.incoming.length < sock.incoming.length) := by
  induction hn : len using Nat.strong_induction_on generalizing len sock plain with
  | _ n ih =>
    subst hn
    rw [read] at h
    split at h
    · rename_i hzero
      cases h
      exact ⟨le_rfl, fun hpos => absurd hzero hpos.ne'⟩
    · split at h
      · cases h
      · rename_i k piece sock₁ hcall
        obtain ⟨r, hr, heq⟩ := Option.map_eq_some_iff.1 h
        cases heq
        obtain ⟨hk, hlength⟩ := readsome_pos hcall
        have hrest := (ih (len - k) (by omega) hr rfl).1
        exact ⟨by omega, fun _ => by omega⟩

end Socket

/-! ## The loop -/

/-- `16 * ((m.size - LEFTOVER + 15) / 16)`, in 32 bits. -/
def paddedRest (size : Nat) : Nat :=
  16 * (((size + 2 ^ 32 - 8) % 2 ^ 32 + 15) % 2 ^ 32 / 16) % 2 ^ 32

/-- The receiver's length is the sender's. -/
theorem paddedRest_eq {size : Nat} (h : size ≤ maxMessageSize) :
    paddedRest size = 16 * ((size + 7) / 16) := by
  unfold maxMessageSize at h
  unfold paddedRest
  omega

namespace Socket

/-- How a turn of the loop ends. -/
inductive Outcome (σ : Type)
  | waiting
  | failed
  | message (m : Message) (sock : Socket σ)

/-- A turn of `read_loop` up to the delegate, with the sizes that the data are resized to. -/
def readMessage (aes : Aes σ) (cuts : Nat → Nat) (sock : Socket σ) : List Nat × Outcome σ :=
  match read aes cuts 16 sock with
  | none => ([], .waiting)
  | some (buffer, sock) =>
    let size := leNat (buffer.take 4)
    let msgType := leNat ((buffer.drop 4).take 4)
    if maxMessageSize < size then ([], .failed)
    else
      match read aes cuts (paddedRest size) sock with
      | none => ([8 + paddedRest size], .waiting)
      | some (rest, sock) =>
        ([8 + paddedRest size, size],
          .message ⟨size, msgType, resize (buffer.drop 8 ++ rest) size⟩ sock)

variable {aes : Aes σ} {cuts : Nat → Nat} {sock sock' : Socket σ} {m : Message}

theorem readMessage_lt {resizes : List Nat}
    (h : readMessage aes cuts sock = (resizes, .message m sock')) :
    sock'.incoming.length < sock.incoming.length := by
  unfold readMessage at h
  split at h
  · cases h
  · rename_i buffer sock₁ hbuffer
    dsimp only at h
    split at h
    · cases h
    · split at h
      · cases h
      · rename_i rest sock₂ hrest
        cases h
        have hfirst := (read_length hbuffer).2 (by decide)
        have hsecond := (read_length hrest).1
        omega

/-- What the loop has done: the sizes of the data, the messages, and how it stands. -/
structure Trace where
  resizes : List Nat
  delivered : List Message
  last : LoopEnd

/-- `read_loop` -/
def readLoop (aes : Aes σ) (cuts : Nat → Nat) (accepts : Message → Bool) (sock : Socket σ) :
    Trace :=
  match h : readMessage aes cuts sock with
  | (resizes, .waiting) => ⟨resizes, [], .reading⟩
  | (resizes, .failed) => ⟨resizes, [], .closed⟩
  | (resizes, .message m sock') =>
    if accepts m then
      let t := readLoop aes cuts accepts sock'
      ⟨resizes ++ t.resizes, m :: t.delivered, t.last⟩
    else ⟨resizes, [m], .closed⟩
termination_by sock.incoming.length
decreasing_by exact readMessage_lt h

/-! ## The stream behind the pieces -/

/-- What the whole blocks of 16 bytes are decoded to. -/
def plain (aes : Aes σ) (sock : Socket σ) : Bytes :=
  (aes.decode sock.recvAes (sock.incoming.take (16 * (sock.incoming.length / 16)))).1

theorem length_plain (haes : aes.Documented) :
    (sock.plain aes).length = 16 * (sock.incoming.length / 16) := by
  unfold plain
  rw [haes.length_decode, List.length_take]
  · omega
  · rw [List.length_take]
    omega

theorem plain_split (haes : aes.Documented) {n : Nat} (hn : 16 ∣ n)
    (h : n ≤ sock.incoming.length) (calls : Nat) :
    sock.plain aes = (aes.decode sock.recvAes (sock.incoming.take n)).1 ++
      (sock.after aes n calls).plain aes := by
  have htake : 16 ∣ (sock.incoming.take n).length := by
    rw [List.length_take, Nat.min_eq_left h]
    exact hn
  have hrest : 16 ∣ ((sock.incoming.drop n).take (16 * ((sock.incoming.drop n).length / 16))).length := by
    rw [List.length_take]
    omega
  have hwhole : sock.incoming.take (16 * (sock.incoming.length / 16)) =
      sock.incoming.take n ++
        (sock.incoming.drop n).take (16 * ((sock.incoming.drop n).length / 16)) := by
    rw [← List.take_add, List.length_drop]
    congr 1
    omega
  unfold plain after
  rw [hwhole, haes.decode_append _ _ _ htake hrest]

/-- What the decoded stream shows of a turn. -/
def Outcome.view (aes : Aes σ) : Outcome σ → Received
  | .waiting => .waiting
  | .failed => .failed
  | .message m sock => .message m (sock.plain aes)

/-- **A turn** does what it would do with the decoded stream. -/
theorem readMessage_refines (haes : aes.Documented) (cuts : Nat → Nat) (sock : Socket σ) :
    Wire.readMessage (sock.plain aes) = (readMessage aes cuts sock).2.view aes := by
  have hplain : (sock.plain aes).length = _ := length_plain haes
  by_cases hshort : sock.incoming.length < 16
  · unfold readMessage Wire.readMessage
    rw [read_of_short (by decide) hshort, if_pos (by omega)]
    rfl
  · have hin : 16 ≤ sock.incoming.length := Nat.le_of_not_lt hshort
    obtain ⟨calls, hread⟩ := @read_of_long σ aes cuts sock 16 haes (by decide) hin
    have hsplit := plain_split (n := 16) haes (by decide) hin calls
    have hheader : (aes.decode sock.recvAes (sock.incoming.take 16)).1.length = 16 := by
      rw [haes.length_decode, List.length_take, Nat.min_eq_left hin]
      rw [List.length_take, Nat.min_eq_left hin]
    generalize (aes.decode sock.recvAes (sock.incoming.take 16)).1 = header at hread hsplit hheader
    generalize sock.after aes 16 calls = sock₁ at hread hsplit
    have hlong : ¬ (header ++ sock₁.plain aes).length < 16 := by
      rw [List.length_append]
      omega
    have hrest : (sock₁.plain aes).length = _ := length_plain haes
    unfold readMessage Wire.readMessage
    rw [hread, hsplit, if_neg hlong, List.take_left' hheader, List.drop_left' hheader]
    dsimp only
    generalize leNat (header.take 4) = size
    by_cases hsize : maxMessageSize < size
    · rw [if_pos hsize, if_pos hsize]
      rfl
    · rw [if_neg hsize, if_neg hsize, paddedRest_eq (Nat.le_of_not_lt hsize)]
      generalize hremaining : 16 * ((size + 7) / 16) = remaining
      have hdvd : 16 ∣ remaining := ⟨(size + 7) / 16, hremaining.symm⟩
      by_cases hmissing : sock₁.incoming.length < remaining
      · rw [read_of_short hdvd hmissing, if_pos (by omega)]
        rfl
      · have hin₁ : remaining ≤ sock₁.incoming.length := Nat.le_of_not_lt hmissing
        obtain ⟨calls₁, hread₁⟩ := @read_of_long σ aes cuts sock₁ remaining haes hdvd hin₁
        have hsplit₁ := plain_split haes hdvd hin₁ calls₁
        have hbody : (aes.decode sock₁.recvAes (sock₁.incoming.take remaining)).1.length =
            remaining := by
          rw [haes.length_decode, List.length_take, Nat.min_eq_left hin₁]
          rw [List.length_take, Nat.min_eq_left hin₁]
          exact hdvd
        rw [hread₁, if_neg (by omega), hsplit₁, List.take_left' hbody, List.drop_left' hbody]
        rfl

/-- **The loop** does with the pieces what it would do with the decoded stream. -/
theorem readLoop_refines (haes : aes.Documented) (cuts : Nat → Nat) (accepts : Message → Bool)
    (sock : Socket σ) :
    ((readLoop aes cuts accepts sock).delivered, (readLoop aes cuts accepts sock).last) =
      Wire.readLoop accepts (sock.plain aes) := by
  induction hn : sock.incoming.length using Nat.strong_induction_on generalizing sock with
  | _ n ih =>
    subst hn
    have hturn := readMessage_refines haes cuts sock
    rw [readLoop, Wire.readLoop]
    split
    all_goals
      rename_i hrun
      rw [hrun] at hturn
    · split
      all_goals
        rename_i heq
        cases heq.symm.trans hturn
      rfl
    · split
      all_goals
        rename_i heq
        cases heq.symm.trans hturn
      rfl
    · rename_i resizes m sock'
      have hrest := ih _ (readMessage_lt hrun) sock' rfl
      by_cases haccepts : accepts m = true
      · rw [if_pos haccepts]
        split
        all_goals
          rename_i heq
          cases heq.symm.trans hturn
        rw [if_pos haccepts, ← hrest]
      · rw [if_neg haccepts]
        split
        all_goals
          rename_i heq
          cases heq.symm.trans hturn
        rw [if_neg haccepts]

/-! ## Bounds -/

theorem readMessage_bounded (sock : Socket σ) :
    (∀ n ∈ (readMessage aes cuts sock).1, n ≤ maxMessageSize + 16) ∧
      ∀ m sock', (readMessage aes cuts sock).2 = .message m sock' →
        m.size ≤ maxMessageSize ∧ m.data.length = m.size := by
  unfold readMessage
  split
  · exact ⟨fun _ hn => (nomatch hn), fun _ _ h => (nomatch h)⟩
  · rename_i buffer sock₁ _
    dsimp only
    split
    · exact ⟨fun _ hn => (nomatch hn), fun _ _ h => (nomatch h)⟩
    · rename_i hsize
      have hle : leNat (buffer.take 4) ≤ maxMessageSize := Nat.le_of_not_lt hsize
      have hbuffer : 8 + paddedRest (leNat (buffer.take 4)) ≤ maxMessageSize + 16 := by
        rw [paddedRest_eq hle]
        unfold maxMessageSize at *
        omega
      split
      · refine ⟨fun n hn => ?_, fun _ _ h => (nomatch h)⟩
        rw [List.mem_singleton.1 hn]
        exact hbuffer
      · constructor
        · intro n hn
          rcases List.mem_cons.1 hn with rfl | hn
          · exact hbuffer
          · rw [List.mem_singleton.1 hn]
            omega
        · intro m sock' h
          cases h
          exact ⟨hle, length_resize _ _⟩

/-- **Bounds** on whatever TCP brings, and whatever it is decoded to. -/
theorem readLoop_bounded (accepts : Message → Bool) (sock : Socket σ) :
    (∀ n ∈ (readLoop aes cuts accepts sock).resizes, n ≤ maxMessageSize + 16) ∧
      ∀ m ∈ (readLoop aes cuts accepts sock).delivered,
        m.size ≤ maxMessageSize ∧ m.data.length = m.size := by
  induction hn : sock.incoming.length using Nat.strong_induction_on generalizing sock with
  | _ n ih =>
    subst hn
    obtain ⟨hresizes, hmessage⟩ := @readMessage_bounded σ aes cuts sock
    rw [readLoop]
    split
    all_goals
      rename_i hrun
      rw [hrun] at hresizes hmessage
    · exact ⟨hresizes, fun _ hm => (nomatch hm)⟩
    · exact ⟨hresizes, fun _ hm => (nomatch hm)⟩
    · rename_i resizes m sock'
      have hm := hmessage m sock' rfl
      obtain ⟨hrest, hall⟩ := ih _ (readMessage_lt hrun) sock' rfl
      split
      · constructor
        · intro n hn
          rcases List.mem_append.1 hn with hn | hn
          · exact hresizes n hn
          · exact hrest n hn
        · intro x hx
          rcases List.mem_cons.1 hx with rfl | hx
          · exact hm
          · exact hall x hx
      · refine ⟨hresizes, fun x hx => ?_⟩
        rw [List.mem_singleton.1 hx]
        exact hm

end Socket

/-! ## Round trip -/

/-- The stream of the messages is the encoded whole. -/
theorem sendMessages_eq {aes : Aes σ} (haes : aes.Documented) {state : σ}
    {sent : List (Message × (Nat → UInt8))} (h : ∀ x ∈ sent, x.1.WellFormed) :
    16 ∣ (sent.flatMap fun x => sendMessage x.2 x.1).length ∧
      sendMessages aes sent state =
        aes.encode state (sent.flatMap fun x => sendMessage x.2 x.1) := by
  induction sent generalizing state with
  | nil => exact ⟨⟨0, rfl⟩, (haes.encode_nil state).symm⟩
  | cons x sent ih =>
    obtain ⟨m, fill⟩ := x
    have hfirst : 16 ∣ (sendMessage fill m).length := by
      rw [length_sendMessage (h (m, fill) List.mem_cons_self)]
      omega
    obtain ⟨hdvd, hrest⟩ := @ih (aes.encode state (sendMessage fill m)).2
      fun y hy => h y (List.mem_cons_of_mem _ hy)
    constructor
    · rw [List.flatMap_cons, List.length_append]
      exact Nat.dvd_add hfirst hdvd
    · rw [sendMessages, write_eq haes state hfirst, List.flatMap_cons,
        haes.encode_append state _ _ hfirst hdvd]
      dsimp only
      rw [hrest]

/-- The messages up to the first that the delegate throws at, which closes the connection. -/
def upToRefused (accepts : Message → Bool) : List Message → List Message
  | [] => []
  | m :: ms => m :: if accepts m then upToRefused accepts ms else []

theorem upToRefused_of_all {accepts : Message → Bool} {ms : List Message}
    (h : ∀ m ∈ ms, accepts m = true) : upToRefused accepts ms = ms := by
  induction ms with
  | nil => rfl
  | cons m ms ih =>
    rw [upToRefused, if_pos (h m List.mem_cons_self),
      ih fun x hx => h x (List.mem_cons_of_mem m hx)]

/-- What is sent is read from the decoded stream. -/
theorem readLoop_sentAll {accepts : Message → Bool} {sent : List (Message × (Nat → UInt8))}
    (h : ∀ x ∈ sent, x.1.WellFormed ∧ x.1.size ≤ maxMessageSize) :
    readLoop accepts (sent.flatMap fun x => sendMessage x.2 x.1) =
      (upToRefused accepts (sent.map (·.1)),
        if sent.all (fun x => accepts x.1) then .reading else .closed) := by
  induction sent with
  | nil =>
    rw [readLoop]
    rfl
  | cons x sent ih =>
    obtain ⟨m, fill⟩ := x
    obtain ⟨hwell, hsize⟩ := h (m, fill) List.mem_cons_self
    have hrest := ih fun y hy => h y (List.mem_cons_of_mem _ hy)
    rw [List.flatMap_cons, readLoop]
    split
    all_goals
      rename_i hread
      rw [readMessage_sendMessage hwell hsize] at hread
      cases hread
    rw [List.map_cons, upToRefused]
    by_cases haccepts : accepts m = true
    · rw [if_pos haccepts, if_pos haccepts, hrest, List.all_cons, haccepts, Bool.true_and]
    · rw [if_neg haccepts, if_neg haccepts, List.all_cons, Bool.eq_false_iff.2 haccepts,
        Bool.false_and]
      rfl

/-- A message whose size is that of its data, small enough to be sent. -/
structure Message.Sendable (m : Message) : Prop where
  size : m.size = m.data.length
  small : m.size ≤ maxMessageSize
  msgType : m.msgType < 2 ^ 32

theorem Message.Sendable.wellFormed {m : Message} (h : m.Sendable) : m.WellFormed := by
  have hsmall := h.small
  unfold maxMessageSize at hsmall
  exact ⟨h.size, by omega, h.msgType⟩

/-- **Framing.**  However TCP cuts the stream, the messages that are sent are delivered in order, up
to the first that the delegate throws at; and whatever TCP brings, no message and no buffer is too
large. -/
theorem framing_roundTrip {aes : Aes σ} (haes : aes.Documented) (cuts : Nat → Nat)
    (accepts : Message → Bool) :
    (∀ sent : List (Message × (Nat → UInt8)), (∀ x ∈ sent, x.1.Sendable) →
      let t := Socket.readLoop aes cuts accepts
        (.start aes (sendMessages aes sent aes.sendStart).1)
      t.delivered = upToRefused accepts (sent.map (·.1)) ∧
        ((∀ x ∈ sent, accepts x.1 = true) →
          t.delivered = sent.map (·.1) ∧ t.last = .reading)) ∧
      ∀ sock : Socket σ,
        (∀ n ∈ (Socket.readLoop aes cuts accepts sock).resizes, n ≤ maxMessageSize + 16) ∧
          ∀ m ∈ (Socket.readLoop aes cuts accepts sock).delivered,
            m.data.length ≤ maxMessageSize := by
  constructor
  · intro sent hsent
    obtain ⟨hdvd, hbytes⟩ := @sendMessages_eq σ aes haes aes.sendStart sent
      fun x hx => (hsent x hx).wellFormed
    generalize hstream : (sent.flatMap fun x => sendMessage x.2 x.1) = stream at hdvd hbytes
    have hlength := haes.length_encode aes.sendStart stream hdvd
    have hplain : Socket.plain aes (.start aes (aes.encode aes.sendStart stream).1) = stream := by
      unfold Socket.plain Socket.start
      rw [List.take_of_length_le (by rw [hlength]; omega)]
      exact haes.decode_encode stream hdvd
    have hloop := Socket.readLoop_refines haes cuts accepts
      (.start aes (aes.encode aes.sendStart stream).1)
    rw [hplain, ← hstream, readLoop_sentAll fun x hx =>
      ⟨(hsent x hx).wellFormed, (hsent x hx).small⟩, hstream] at hloop
    rw [hbytes]
    intro t
    obtain ⟨hdelivered, hlast⟩ := Prod.mk.inj hloop
    refine ⟨hdelivered, fun hall => ⟨?_, ?_⟩⟩
    · have hwhole : upToRefused accepts (sent.map (·.1)) = sent.map (·.1) := by
        apply upToRefused_of_all
        intro m hm
        obtain ⟨x, hx, rfl⟩ := List.mem_map.1 hm
        exact hall x hx
      exact hdelivered.trans hwhole
    · have hopen : sent.all (fun x => accepts x.1) = true := List.all_eq_true.2 hall
      rw [if_pos hopen] at hlast
      exact hlast
  · intro sock
    obtain ⟨hresizes, hdelivered⟩ := @Socket.readLoop_bounded σ aes cuts accepts sock
    refine ⟨hresizes, fun m hm => ?_⟩
    obtain ⟨hsize, hlength⟩ := hdelivered m hm
    rw [hlength]
    exact hsize

/-- A cipher that adds the position to each byte. -/
def shiftCipher : Aes Nat where
  sendStart := 0
  recvStart := 0
  encode k x := (x.mapIdx fun i b => b + UInt8.ofNat (k + i), k + x.length)
  decode k x := (x.mapIdx fun i b => b - UInt8.ofNat (k + i), k + x.length)

theorem shiftCipher_documented : shiftCipher.Documented where
  encode_nil _ := rfl
  encode_append k x y _ _ := by
    have hshift : (fun i (b : UInt8) => b + UInt8.ofNat (k + (i + x.length))) =
        fun i b => b + UInt8.ofNat (k + x.length + i) := by
      funext i b
      congr 2
      omega
    simp only [shiftCipher, List.mapIdx_append, List.length_append, hshift, Nat.add_assoc]
  length_encode k x _ := List.length_mapIdx
  decode_nil _ := rfl
  decode_append k x y _ _ := by
    have hshift : (fun i (b : UInt8) => b - UInt8.ofNat (k + (i + x.length))) =
        fun i b => b - UInt8.ofNat (k + x.length + i) := by
      funext i b
      congr 2
      omega
    simp only [shiftCipher, List.mapIdx_append, List.length_append, hshift, Nat.add_assoc]
  length_decode k x _ := List.length_mapIdx
  decode_encode x _ := by
    show ((x.mapIdx fun i b => b + UInt8.ofNat (0 + i)).mapIdx fun i b =>
      b - UInt8.ofNat (0 + i)) = x
    rw [List.mapIdx_mapIdx]
    apply List.ext_getElem
    · rw [List.length_mapIdx]
    · intro i hi hi'
      rw [List.getElem_mapIdx]
      exact UInt8.add_sub_cancel _ _

/-- An empty message and one of three bytes, five bytes at a time. -/
theorem framing_roundTrip_two :
    (Socket.readLoop shiftCipher (fun _ => 5) (fun _ => true) (.start shiftCipher
      (sendMessages shiftCipher [(⟨0, 5000, []⟩, fun _ => 0), (⟨3, 5001, [1, 2, 3]⟩, fun _ => 9)]
        shiftCipher.sendStart).1)).delivered = [⟨0, 5000, []⟩, ⟨3, 5001, [1, 2, 3]⟩] := by
  have hsent : ∀ x ∈ [((⟨0, 5000, []⟩ : Message), fun _ : Nat => (0 : UInt8)),
      (⟨3, 5001, [1, 2, 3]⟩, fun _ => 9)], x.1.Sendable := by
    intro x hx
    rcases List.mem_cons.1 hx with rfl | hx
    · exact ⟨rfl, by decide, by decide⟩
    · cases List.mem_singleton.1 hx
      exact ⟨rfl, by decide, by decide⟩
  exact (((framing_roundTrip shiftCipher_documented (fun _ => 5) (fun _ => true)).1 _ hsent).2
    fun _ _ => rfl).1

end VizCore.Network.Wire
