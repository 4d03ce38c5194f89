import UnrealIrcd.Websocket.Frames

/-!
# Chunk independence of WebSocket input

However a stream of frames is cut into reads, the callback is given the
payloads of the data frames, up to the frame that ends the connection.

The reads follow the reader of `Framing`, whose state is what the callback was
given (`Represents`).  Only two things can make a difference that the stream
does not show, and are excluded: a read that does not fit into the buffer, and
a send queue that is full when a ping is answered (`Overflowed`).
-/

namespace UnrealIrcd.Websocket

open Support List

/-! ## What a frame does -/

/-- What a frame means for the callback: the payloads it was given, and whether
the connection goes on. -/
def deliver (callback : List (List UInt8) → List UInt8 → Bool)
    (received : List (List UInt8)) : Header → List (List UInt8) × Bool
  | .short => (received, true)
  | .invalid _ => (received, false)
  | .packet p =>
    if IsData p.opcode then
      if p.payload.length > 0 then
        (received ++ [p.payload], callback received p.payload)
      else
        (received, true)
    else if p.opcode = wsopPing then
      (received, decide (p.payload.length ≤ 500))
    else
      (received, decide (p.opcode = wsopPong))

/-- A buffer was too small: the one for a read, or the send queue. -/
def Client.Overflowed (client : Client) : Prop :=
  client.errorStr = some "Illegal buffer stacking/Excess flood" ∨
    client.errorStr = some "Max SendQ exceeded"

instance (client : Client) : Decidable client.Overflowed :=
  inferInstanceAs (Decidable (_ ∨ _))

/-- The state after a frame: what the callback was given and whether the
connection goes on are as the frame says. -/
structure Delivered (client : Client) (result : List (List UInt8) × Bool)
    (size : ℕ) (after : Client × PacketStatus) : Prop where
  received : after.1.received = result.1
  lefttoparse : after.1.lefttoparse = client.lefttoparse
  goesOn : result.2 = true → after.2 = .processed size ∧ ¬ after.1.Ended
  ends : result.2 = false → after.2 = .killed ∧ after.1.Ended

section Frame

variable (conn : Connection) (now : ℤ) (client : Client) (buf : List UInt8)

theorem ended_deadSocket (notice : String) :
    (client.deadSocket notice).Ended := .inl rfl

theorem delivered_deadSocket (notice : String) (size : ℕ) :
    Delivered client (client.received, false) size
      (client.deadSocket notice, .killed) :=
  ⟨rfl, rfl, fun h => (by cases h), fun _ => ⟨rfl, ended_deadSocket _ _⟩⟩

variable {client} (hended : ¬ client.Ended)

include hended

theorem errorStr_of_not_ended : client.errorStr = none := by
  cases h : client.errorStr with
  | none => rfl
  | some r => exact absurd (.inl (by rw [h]; rfl)) hended

theorem websocketHandlePacketPing_cases (size : ℕ) :
    (websocketHandlePacketPing conn now client buf).1.Overflowed ∨
      Delivered client (client.received, decide (buf.length ≤ 500)) size
        ((websocketHandlePacketPing conn now client buf).1,
          if (websocketHandlePacketPing conn now client buf).2 then
            .processed size else .killed) := by
  unfold websocketHandlePacketPing
  by_cases hsize : buf.length > 500
  · rw [if_pos hsize, decide_eq_false (by omega)]
    exact .inr (delivered_deadSocket client _ size)
  · have hlag : (addFakeLag conn client 1000).received = client.received ∧
        (addFakeLag conn client 1000).lefttoparse = client.lefttoparse := by
      unfold addFakeLag
      split <;> exact ⟨rfl, rfl⟩
    have hended' : ¬ (addFakeLag conn client 1000).Ended := by
      unfold addFakeLag
      split <;> exact hended
    rw [if_neg hsize, decide_eq_true (by omega)]
    dsimp only
    split
    · unfold websocketSendPong
      cases websocketCreatePacketSimple wsopPong buf with
      | none =>
        exact .inr ⟨hlag.1, hlag.2, fun _ => ⟨rfl, hended'⟩,
          fun h => (by cases h)⟩
      | some b =>
        dsimp only
        split
        · refine .inl (.inr ?_)
          rw [Client.deadSocket, errorStr_of_not_ended hended']
          rfl
        · exact .inr ⟨hlag.1, hlag.2, fun _ => ⟨rfl, hended'⟩,
            fun h => (by cases h)⟩
    · exact .inr ⟨hlag.1, hlag.2, fun _ => ⟨rfl, hended'⟩,
        fun h => (by cases h)⟩

/-- A frame does what it means, unless the send queue is full. -/
theorem handleOpcode_cases (p : Packet) :
    (handleOpcode conn now client p).1.Overflowed ∨
      Delivered client (deliver conn.callback client.received (.packet p))
        p.totalPacketSize (handleOpcode conn now client p) := by
  unfold handleOpcode deliver
  by_cases hdata : IsData p.opcode
  · simp only [if_pos hdata]
    refine .inr ?_
    split
    · cases hcall : conn.callback client.received p.payload with
      | true => exact ⟨rfl, rfl, fun _ => ⟨rfl, hended⟩, fun h => (by cases h)⟩
      | false =>
        exact ⟨rfl, rfl, fun h => (by cases h), fun _ => ⟨rfl, .inr rfl⟩⟩
    · exact ⟨rfl, rfl, fun _ => ⟨rfl, hended⟩, fun h => (by cases h)⟩
  · simp only [if_neg hdata]
    by_cases hclose : p.opcode = wsopClose
    · rw [if_pos hclose, if_neg (by rw [hclose]; decide),
        decide_eq_false (by rw [hclose]; decide)]
      exact .inr (delivered_deadSocket client _ _)
    · rw [if_neg hclose]
      by_cases hping : p.opcode = wsopPing
      · rw [if_pos hping, if_pos hping]
        exact websocketHandlePacketPing_cases conn now p.payload hended
          p.totalPacketSize
      · rw [if_neg hping, if_neg hping]
        by_cases hpong : p.opcode = wsopPong
        · rw [if_pos hpong, decide_eq_true hpong]
          refine .inr ⟨?_, ?_, fun _ => ⟨rfl, ?_⟩, fun h => (by cases h)⟩ <;>
            unfold websocketHandlePacketPong <;> split <;>
            first | rfl | exact hended
        · rw [if_neg hpong, decide_eq_false hpong]
          exact .inr (delivered_deadSocket client _ _)

end Frame

/-! ## Reads -/

section Overflow

variable (conn : Connection) (now : ℤ) {client : Client} (fuel : ℕ)
  (ptr : List UInt8) {notice : String}

theorem handleOpcode_errorStr (p : Packet) (h : client.errorStr = some notice) :
    (handleOpcode conn now client p).1.errorStr = some notice := by
  have hdead : ∀ (c : Client) r, c.errorStr = some notice →
      (c.deadSocket r).errorStr = some notice := by
    intro c r hc
    rw [Client.deadSocket, hc]
    rfl
  have hlag : (addFakeLag conn client 1000).errorStr = some notice := by
    unfold addFakeLag
    split <;> exact h
  have hpong : (websocketSendPong conn (addFakeLag conn client 1000)
      p.payload).errorStr = some notice := by
    unfold websocketSendPong
    split
    · exact hlag
    · split
      · exact hdead _ _ hlag
      · exact hlag
  have hping : (websocketHandlePacketPing conn now client
      p.payload).1.errorStr = some notice := by
    unfold websocketHandlePacketPing
    split
    · exact hdead _ _ h
    · dsimp only
      split
      · exact hpong
      · exact hlag
  unfold handleOpcode
  split_ifs
  · exact h
  · exact h
  · exact h
  · exact hdead _ _ h
  · exact hping
  · unfold websocketHandlePacketPong
    split <;> exact h
  · exact hdead _ _ h

theorem websocketHandlePacket_errorStr (h : client.errorStr = some notice) :
    (websocketHandlePacket conn now client ptr).1.errorStr = some notice := by
  unfold websocketHandlePacket
  split
  · exact h
  · rw [Client.deadSocket, h]
    rfl
  · exact handleOpcode_errorStr conn now _ h

theorem handleLoop_errorStr (h : client.errorStr = some notice) :
    (handleLoop conn now fuel client ptr).errorStr = some notice := by
  induction fuel generalizing client ptr with
  | zero => exact h
  | succ fuel ih =>
    have hpacket := websocketHandlePacket_errorStr conn now ptr h
    rw [handleLoop]
    split
    next client' heq => rwa [heq] at hpacket
    next client' heq => rwa [heq] at hpacket
    next client' n heq =>
      rw [heq] at hpacket
      split
      · exact ih _ hpacket
      · exact hpacket

end Overflow

/-- The client is where the reader of frames is. -/
structure Represents (client : Client)
    (r : FrameReader UInt8 (List (List UInt8))) : Prop where
  received : client.received = r.state
  goesOn : ∀ held, r.held = some held →
    ¬ client.Ended ∧ client.lefttoparse = held
  ends : r.held = none → client.Ended

theorem represents_handleLoop (conn : Connection) (now : ℤ) {client : Client}
    (hended : ¬ client.Ended) (hleft : client.lefttoparse = [])
    (ptr : List UInt8) {fuel : ℕ} (hfuel : ptr.length < fuel) :
    (handleLoop conn now fuel client ptr).Overflowed ∨
      Represents (handleLoop conn now fuel client ptr)
        (framing.drain (deliver conn.callback) ptr.length client.received
          ptr) := by
  induction fuel generalizing client ptr with
  | zero => omega
  | succ fuel ih =>
    rw [handleLoop, websocketHandlePacket]
    cases hread : readPacket ptr with
    | short =>
      have hnone : framing.decode ptr = none := by
        change decode ptr = none
        rw [decode, hread]
      rw [framing.drain_of_none _ hnone]
      refine .inr ⟨rfl, ?_, fun h => (by cases h)⟩
      rintro held ⟨⟩
      exact ⟨hended, rfl⟩
    | invalid notice =>
      have hsome : framing.decode ptr = some (4, .invalid notice) := by
        change decode ptr = _
        rw [decode, hread]
      have hle := framing.decode_le hsome
      obtain ⟨n, hn⟩ : ∃ n, ptr.length = n + 1 := ⟨ptr.length - 1, by omega⟩
      rw [hn, framing.drain_of_some _ hsome, deliver, if_neg (by simp)]
      refine .inr ⟨rfl, fun held h => (by cases h), fun _ => ?_⟩
      exact ended_deadSocket client notice
    | packet p =>
      have hsome : framing.decode ptr =
          some (p.totalPacketSize, .packet p) := by
        change decode ptr = _
        rw [decode, hread]
      have hpos := framing.decode_pos hsome
      have hle := framing.decode_le hsome
      obtain ⟨n, hn⟩ : ∃ n, ptr.length = n + 1 := ⟨ptr.length - 1, by omega⟩
      rw [hn, framing.drain_of_some _ hsome]
      rcases hcases : handleOpcode conn now client p with ⟨client', status⟩
      have hstep := handleOpcode_cases conn now hended p
      rw [hcases] at hstep
      dsimp only
      rw [hcases]
      rcases hstep with hfull | hdelivered
      · -- The send queue was full, and the reason stays.
        refine .inl ?_
        cases status with
        | killed | shortRead => exact hfull
        | processed m =>
          dsimp only
          split
          · exact hfull.imp (handleLoop_errorStr conn now fuel _)
              (handleLoop_errorStr conn now fuel _)
          · exact hfull
      · cases hgo : (deliver conn.callback client.received (.packet p)).2 with
        | false =>
          obtain ⟨hstatus, hends⟩ := hdelivered.ends hgo
          subst hstatus
          rw [if_neg (by simp)]
          exact .inr ⟨hdelivered.received, fun held h => (by cases h),
            fun _ => hends⟩
        | true =>
          obtain ⟨hstatus, hgoes⟩ := hdelivered.goesOn hgo
          subst hstatus
          have hleft' : client'.lefttoparse = [] :=
            hdelivered.lefttoparse.trans hleft
          have hreceived : client'.received = _ := hdelivered.received
          have hdrop : (ptr.drop p.totalPacketSize).length ≤ n := by
            rw [length_drop]
            omega
          rw [if_pos rfl, framing.drain_fuel _ _ _ hdrop, ← hreceived]
          dsimp only
          split
          · exact ih hgoes hleft' _ (by omega)
          · next hempty =>
              have hnil : ptr.drop p.totalPacketSize = [] :=
                length_eq_zero_iff.mp (by omega)
              rw [hnil, framing.drain_of_none _ framing.decode_nil]
              refine .inr ⟨rfl, ?_, fun h => (by cases h)⟩
              rintro held ⟨⟩
              exact ⟨hgoes, hleft'⟩

section Reads

variable {conn : Connection} {client : Client}
  {r : FrameReader UInt8 (List (List UInt8))} (h : Represents client r)

include h

theorem represents_readStep (read : ℤ × List UInt8) :
    (readStep conn client read).Overflowed ∨
      Represents (readStep conn client read)
        (framing.read (deliver conn.callback) r read.2) := by
  cases hheld : r.held with
  | none =>
    have hread : framing.read (deliver conn.callback) r read.2 = r := by
      simp only [Framing.read, hheld]
    rw [readStep, if_pos (h.ends hheld), hread]
    exact .inr h
  | some held =>
    obtain ⟨hgoes, hleft⟩ := h.goesOn held hheld
    have hread : framing.read (deliver conn.callback) r read.2 =
        framing.drain (deliver conn.callback) (held ++ read.2).length
          r.state (held ++ read.2) := by
      simp only [Framing.read, hheld]
    rw [readStep, if_neg hgoes, hread, websocketHandleWebsocket, hleft,
      ← h.received]
    split
    · refine .inl (.inl ?_)
      rw [Client.deadSocket, errorStr_of_not_ended hgoes]
      rfl
    · exact @represents_handleLoop conn read.1
        { client with lefttoparse := [] } hgoes rfl _ _
        (Nat.lt_succ_self _)

theorem represents_reads (chunks : List (ℤ × List UInt8)) :
    (reads conn client chunks).Overflowed ∨
      Represents (reads conn client chunks)
        ((chunks.map Prod.snd).foldl (framing.read (deliver conn.callback))
          r) := by
  have hfull : ∀ (chunks : List (ℤ × List UInt8)) (client : Client),
      client.Overflowed → (reads conn client chunks).Overflowed := by
    intro chunks
    induction chunks with
    | nil => exact fun client h => h
    | cons read chunks ih =>
      intro client hclient
      have hended : client.Ended :=
        .inl (by rcases hclient with h | h <;> rw [h] <;> rfl)
      rw [reads, foldl_cons, readStep, if_pos hended]
      exact ih client hclient
  induction chunks generalizing client r with
  | nil => exact .inr h
  | cons read chunks ih =>
    rw [reads, foldl_cons, map_cons, foldl_cons]
    rcases represents_readStep h read with hover | hstep
    · exact .inl (hfull chunks _ hover)
    · exact ih hstep

end Reads

/-! ## Streams of frames -/

namespace Frame

/-- The frame ends the connection: its length has the longest encoding, or it is
neither a data frame nor a pong nor a ping of at most 500 bytes. -/
def endsConnection (f : Frame) : Bool :=
  decide (2 ^ 16 ≤ f.payload.length ∨
    ¬ (IsData f.opcode ∨ f.opcode = wsopPong ∨
      (f.opcode = wsopPing ∧ f.payload.length ≤ 500)))

def dataPayload (f : Frame) : Option (List UInt8) :=
  if IsData f.opcode ∧ f.payload ≠ [] then some f.payload else none

end Frame

/-- The payloads that are handed to a callback, up to the one at which it kills
the client. -/
def untilKilled (callback : List (List UInt8) → List UInt8 → Bool)
    (received : List (List UInt8)) : List (List UInt8) → List (List UInt8)
  | [] => received
  | payload :: payloads =>
    if callback received payload then
      untilKilled callback (received ++ [payload]) payloads
    else received ++ [payload]

section Streams

variable (callback : List (List UInt8) → List UInt8 → Bool)
  (received : List (List UInt8)) {f : Frame}

theorem deliver_of_ends (h : f.endsConnection = true) :
    deliver callback received f.header = (received, false) := by
  have h := of_decide_eq_true h
  unfold Frame.header
  by_cases hlong : f.payload.length < 2 ^ 16
  · rw [if_pos hlong, deliver]
    have hkind := h.resolve_left (by omega)
    rw [not_or, not_or] at hkind
    obtain ⟨hdata, hpong, hping⟩ := hkind
    rw [if_neg hdata]
    split
    · next heq =>
        rw [decide_eq_false (fun hle => hping ⟨heq, hle⟩)]
    · rw [decide_eq_false hpong]
  · rw [if_neg hlong, deliver]

theorem deliver_of_not_ends (h : f.endsConnection = false) :
    deliver callback received f.header =
      f.dataPayload.elim (received, true)
        fun payload => (received ++ [payload], callback received payload) := by
  have h := of_decide_eq_false h
  rw [not_or, not_le, not_not] at h
  obtain ⟨hlength, hkind⟩ := h
  rw [Frame.header, if_pos hlength, deliver, Frame.dataPayload]
  by_cases hdata : IsData f.opcode
  · rw [if_pos hdata]
    by_cases hempty : f.payload = []
    · rw [if_neg (by simp [hempty]), if_neg (by simp [hempty])]
      rfl
    · rw [if_pos (length_pos_iff.mpr hempty), if_pos ⟨hdata, hempty⟩]
      rfl
  · have hnone : ¬ (IsData f.opcode ∧ f.payload ≠ []) := fun h => hdata h.1
    rw [if_neg hdata, if_neg hnone]
    dsimp only
    rcases hkind.resolve_left hdata with hpong | ⟨hping, hsize⟩
    · rw [if_neg (by rw [hpong]; decide), decide_eq_true hpong]
      rfl
    · rw [if_pos hping, decide_eq_true hsize]
      rfl

theorem deliverAll_headers (fs : List Frame) :
    (Framing.deliverAll (deliver callback) received
        (fs.map Frame.header)).1 =
      untilKilled callback received
        ((fs.takeWhile fun f => !f.endsConnection).filterMap
          Frame.dataPayload) := by
  induction fs generalizing received with
  | nil => rfl
  | cons f fs ih =>
    rw [map_cons, Framing.deliverAll]
    cases hends : f.endsConnection with
    | true =>
      rw [deliver_of_ends callback received hends, if_neg (by simp),
        takeWhile_cons_of_neg (by simp [hends])]
      rfl
    | false =>
      rw [deliver_of_not_ends callback received hends,
        takeWhile_cons_of_pos (by simp [hends])]
      cases hdata : f.dataPayload with
      | none =>
        rw [filterMap_cons_none hdata]
        exact ih received
      | some payload =>
        rw [filterMap_cons_some hdata, untilKilled, Option.elim_some]
        split
        · exact ih _
        · rfl

/-- What has arrived of a frame that is not complete. -/
def Incomplete (tail : List UInt8) : Prop :=
  ∃ f : Frame, tail <+: f.encode ∧ tail.length < f.encode.length

theorem drain_incomplete (fuel : ℕ) {tail : List UInt8} (h : Incomplete tail) :
    (framing.drain (deliver callback) fuel received tail).state =
      received := by
  obtain ⟨f, ⟨rest, hrest⟩, hlength⟩ := h
  cases hdecode : framing.decode tail with
  | none => rw [framing.drain_of_none _ hdecode]
  | some r =>
    obtain ⟨n, x⟩ := r
    have hle := framing.decode_le hdecode
    have happend := framing.decode_append hdecode rest
    rw [hrest, ← append_nil f.encode, decode_encode] at happend
    obtain ⟨hn, rfl⟩ := Prod.mk.inj (Option.some.inj happend)
    by_cases hlong : f.payload.length < 2 ^ 16
    · -- A complete frame would be longer.
      rw [if_pos hlong] at hn
      omega
    · cases fuel with
      | zero => rfl
      | succ fuel =>
        rw [framing.drain_of_some _ hdecode, Frame.header, if_neg hlong,
          deliver, if_neg (by simp)]

end Streams

/-- However a stream of frames is cut into reads, the callback is given the
payloads of the data frames in order, up to the frame that ends the connection
or the payload at which it kills the client. -/
theorem received_reads
    (conn : Connection) (client : Client)
    (hstart : client.lefttoparse = [] ∧ ¬ client.Ended ∧ client.received = [])
    (fs : List Frame) (tail : List UInt8)
    (htail : tail = [] ∨ Incomplete tail) (chunks : List (ℤ × List UInt8))
    (hchunks : (chunks.map Prod.snd).flatten = fs.flatMap Frame.encode ++ tail)
    (hfits : ¬ (reads conn client chunks).Overflowed) :
    (reads conn client chunks).received =
      untilKilled conn.callback []
        ((fs.takeWhile fun f => !f.endsConnection).filterMap
          Frame.dataPayload) := by
  obtain ⟨hleft, hgoes, hreceived⟩ := hstart
  have hinit : Represents client ⟨[], some []⟩ := by
    refine ⟨hreceived, ?_, fun h => (by cases h)⟩
    rintro held ⟨⟩
    exact ⟨hgoes, hleft⟩
  have hfinal := (represents_reads hinit chunks).resolve_left hfits
  have hdecode : ∀ f ∈ fs, ∀ rest, ∃ n,
      framing.decode (f.encode ++ rest) = some (n, f.header) ∧
        ((∃ s, (deliver conn.callback s f.header).2 = true) →
          n = f.encode.length) := by
    intro f _ rest
    refine ⟨_, decode_encode f rest, ?_⟩
    rintro ⟨s, hs⟩
    by_cases hlong : f.payload.length < 2 ^ 16
    · rw [if_pos hlong]
    · rw [Frame.header, if_neg hlong] at hs
      cases hs
  have hend : ∀ received, (framing.drain (deliver conn.callback) tail.length
      received tail).state = received := by
    intro received
    rcases htail with rfl | hincomplete
    · rfl
    · exact drain_incomplete _ _ _ hincomplete
  rw [hfinal.received, framing.foldl_read, hchunks,
    framing.drain_frames _ fs hdecode _ tail le_rfl, ← deliverAll_headers]
  split
  · exact hend _
  · rfl

def sampleConnection : Connection :=
  { callback := fun _ _ => true
    getSendq := 100
    sendQueued := fun _ => []
    isNoFakeLag := false
    isRPC := false }

def sampleClient : Client :=
  { lefttoparse := []
    errorStr := none
    killed := false
    sendQ := []
    fakeLag := 0
    fakeLagMsec := 0
    lastMsgReceived := 0
    pingSent := false
    received := [] }

/-- A text frame and a ping, cut within the mask of the first frame. -/
theorem received_reads_sample :
    (reads sampleConnection sampleClient
      [(0, [0x81, 0x82, 1, 2]), (1, [3, 4, 0x49, 0x6B, 0x89, 0x80, 0, 0, 0, 0])]
        ).received = [[0x48, 0x69]] :=
  (received_reads sampleConnection sampleClient (by decide)
    [⟨0x81, [1, 2, 3, 4], [0x48, 0x69], rfl, by decide⟩,
      ⟨0x89, [0, 0, 0, 0], [], rfl, by decide⟩] [] (.inl rfl)
    [(0, [0x81, 0x82, 1, 2]),
      (1, [3, 4, 0x49, 0x6B, 0x89, 0x80, 0, 0, 0, 0])]
    (by decide) (by decide)).trans (by decide)

def longFrame : Frame where
  first := 0x82
  maskkey := [0, 0, 0, 0]
  payload := List.replicate 65536 0
  maskkey_length := rfl
  payload_length := by
    rw [List.length_replicate]
    decide

theorem take_encode_longFrame :
    longFrame.encode.take 4 = [0x82, 0xFF, 0, 0] := by
  have hbytes : Frame.lengthBytes longFrame.payload.length =
      [0xFF, 0, 0, 0, 0, 0, 1, 0, 0] := by
    rw [longFrame, length_replicate]
    decide
  rw [Frame.encode, hbytes]
  rfl

/-- A frame whose length has the longest encoding is not delivered. -/
theorem reads_longFrame :
    ∃ chunks : List (ℤ × List UInt8),
      (chunks.map Prod.snd).flatten = longFrame.encode ∧
        IsData longFrame.opcode ∧
        ¬ (reads sampleConnection sampleClient chunks).Overflowed ∧
        (reads sampleConnection sampleClient chunks).received = [] := by
  refine ⟨[(0, [0x82, 0xFF, 0, 0]), (0, longFrame.encode.drop 4)], ?_,
    by decide, ?_⟩
  · rw [← take_encode_longFrame]
    simp
  · have hfirst : readStep sampleConnection sampleClient
        (0, [0x82, 0xFF, 0, 0]) =
          sampleClient.deadSocket "WebSocket packet with insane size" := by
      decide
    decide

end UnrealIrcd.Websocket
