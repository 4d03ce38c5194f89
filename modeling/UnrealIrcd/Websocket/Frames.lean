import UnrealIrcd.Support.FramedStream
import UnrealIrcd.Websocket.Model
import Mathlib.Algebra.Group.Nat.Defs
import Mathlib.Data.List.TakeWhile

/-!
# WebSocket frames

The frames that clients send by the protocol, with a mask and the shortest
encoding of the length, and how they are recognised at the front of a buffer.
-/

namespace UnrealIrcd.Websocket

open Support List

/-! ## Framing -/

/-- The size and the content of what is recognised.  The size does not matter
if the connection ends. -/
def decode (buf : List UInt8) : Option (ℕ × Header) :=
  match readPacket buf with
  | .short => none
  | .invalid notice => some (4, .invalid notice)
  | .packet p => some (p.totalPacketSize, .packet p)

theorem packetAt_append {p tail : List UInt8} {len : ℕ} {masked : Bool}
    (hlen : (if masked then 4 else 0) + len ≤ p.length) (opcode : UInt8)
    (total : ℕ) :
    packetAt opcode masked len (p ++ tail) total =
      packetAt opcode masked len p total := by
  unfold packetAt
  cases masked with
  | false =>
    rw [if_neg (by decide), if_neg (by decide),
      take_append_of_le_length (by simpa using hlen)]
  | true =>
    rw [if_pos rfl] at hlen
    rw [if_pos rfl, if_pos rfl, take_append_of_le_length (by omega),
      drop_append_of_le_length (by omega),
      take_append_of_le_length (by rw [length_drop]; omega)]

theorem readPacket_append {buf : List UInt8} (h : readPacket buf ≠ .short)
    (tail : List UInt8) : readPacket (buf ++ tail) = readPacket buf := by
  match buf with
  | [] | [_] | [_, _] | [_, _, _] => exact absurd rfl h
  | b₀ :: b₁ :: b₂ :: b₃ :: rest =>
    simp only [readPacket, cons_append, length_cons, length_append] at h ⊢
    generalize decide (b₁ &&& 0x80 ≠ 0) = masked at h ⊢
    generalize (b₁ &&& 0x7F).toNat = len at h ⊢
    generalize hkey : (if masked = true then 4 else 0) = maskkeylen at h ⊢
    -- Every length check that passed passes with more in the buffer.
    split_ifs at h with hmask hinsane hshort hlong hviolation hshort'
    · rw [if_pos hmask, if_pos hmask]
    · rw [if_neg hmask, if_pos hinsane, if_neg hmask, if_pos hinsane]
    · exact absurd rfl h
    · rw [if_neg hmask, if_neg hinsane, if_neg (by omega), if_pos hlong,
        if_pos hviolation, if_neg hmask, if_neg hinsane, if_neg hshort,
        if_pos hlong, if_pos hviolation]
    · exact absurd rfl h
    · rw [if_neg hmask, if_neg hinsane, if_neg (by omega), if_pos hlong,
        if_neg hviolation, if_neg (by omega), if_neg hmask, if_neg hinsane,
        if_neg hshort, if_pos hlong, if_neg hviolation, if_neg hshort']
      apply packetAt_append
      rw [hkey]
      omega
    · rw [if_neg hmask, if_neg hinsane, if_neg (by omega), if_neg hlong,
        if_neg hmask, if_neg hinsane, if_neg hshort, if_neg hlong,
        ← cons_append, ← cons_append]
      apply packetAt_append
      rw [hkey, length_cons, length_cons]
      omega

theorem totalPacketSize_le {buf : List UInt8} {p : Packet}
    (h : readPacket buf = .packet p) :
    0 < p.totalPacketSize ∧ p.totalPacketSize ≤ buf.length := by
  match buf with
  | [] | [_] | [_, _] | [_, _, _] => cases h
  | b₀ :: b₁ :: b₂ :: b₃ :: rest =>
    simp only [readPacket, packetAt] at h
    split_ifs at h with hmask hinsane hshort hlong hviolation hshort'
    all_goals
      cases h
      constructor <;> simp only <;> omega

theorem four_le_length_of_ne_short {buf : List UInt8}
    (h : readPacket buf ≠ .short) : 4 ≤ buf.length := by
  match buf with
  | [] | [_] | [_, _] | [_, _, _] => exact absurd rfl h
  | _ :: _ :: _ :: _ :: _ => simp

def framing : Framing UInt8 Header where
  decode := decode
  decode_pos := by
    intro buf n x h
    unfold decode at h
    split at h
    · cases h
    · cases h
      decide
    · next p hp =>
        cases h
        exact (totalPacketSize_le hp).1
  decode_le := by
    intro buf n x h
    unfold decode at h
    split at h
    · cases h
    · next notice hp =>
        cases h
        exact four_le_length_of_ne_short (by simp [hp])
    · next p hp =>
        cases h
        exact (totalPacketSize_le hp).2
  decode_append := by
    intro buf r h tail
    have hshort : readPacket buf ≠ .short := by
      intro hshort
      rw [decode, hshort] at h
      cases h
    rw [decode, readPacket_append hshort tail]
    exact h

/-! ## The frames of the protocol -/

/-- A frame with its mask. -/
structure Frame where
  /-- The first byte: the final bit, three reserved bits and the opcode. -/
  first : UInt8
  maskkey : List UInt8
  payload : List UInt8
  maskkey_length : maskkey.length = 4
  payload_length : payload.length < 2 ^ 63

namespace Frame

/-- The mask bit and the length, in the shortest of the three encodings. -/
def lengthBytes (len : ℕ) : List UInt8 :=
  if len < 126 then [0x80 ||| UInt8.ofNat len]
  else if len < 2 ^ 16 then
    [0x80 ||| 126, UInt8.ofNat (len / 256), UInt8.ofNat (len % 256)]
  else
    (0x80 ||| 127) ::
      (List.range 8).map fun i => UInt8.ofNat (len / 256 ^ (7 - i) % 256)

def encode (f : Frame) : List UInt8 :=
  f.first :: (lengthBytes f.payload.length ++
    (f.maskkey ++ unmask f.maskkey f.payload))

def opcode (f : Frame) : UInt8 := f.first &&& 0x7F

def header (f : Frame) : Header :=
  if f.payload.length < 2 ^ 16 then
    .packet ⟨f.opcode, f.payload, f.encode.length⟩
  else
    .invalid "WebSocket packet with insane size"

end Frame

@[simp] theorem length_unmask (maskkey payload : List UInt8) :
    (unmask maskkey payload).length = payload.length := by
  simp [unmask]

theorem unmask_unmask (maskkey payload : List UInt8) :
    unmask maskkey (unmask maskkey payload) = payload := by
  apply ext_getElem (by simp)
  intro n h h'
  simp only [unmask, getElem_mapIdx]
  rw [UInt8.xor_assoc, UInt8.xor_self, UInt8.xor_zero]

theorem lengthBytes_short :
    ∀ len < 126, (0x80 ||| UInt8.ofNat len) &&& 0x80 ≠ 0 ∧
      ((0x80 ||| UInt8.ofNat len) &&& 0x7F).toNat = len := by
  decide

/-- The mask and the payload of a frame are found behind its header. -/
theorem packetAt_encoded (f : Frame) (opcode : UInt8) (total : ℕ)
    (tail : List UInt8) :
    packetAt opcode true f.payload.length
        (f.maskkey ++ unmask f.maskkey f.payload ++ tail) total =
      .packet ⟨opcode, f.payload, total⟩ := by
  have hlength := length_unmask f.maskkey f.payload
  unfold packetAt
  rw [if_pos rfl, append_assoc, take_left' f.maskkey_length,
    drop_left' f.maskkey_length, take_left' hlength, unmask_unmask]

theorem readPacket_of_short {b₀ b₁ : UInt8} {p : List UInt8} {len : ℕ}
    (hmask : b₁ &&& 0x80 ≠ 0) (hlen : (b₁ &&& 0x7F).toNat = len)
    (hshort : len < 126) (hp : len + 4 ≤ p.length) :
    readPacket (b₀ :: b₁ :: p) =
      packetAt (b₀ &&& 0x7F) true len p (1 + 1 + 4 + len) := by
  match p, hp with
  | b₂ :: b₃ :: rest, hp =>
    rw [length_cons, length_cons] at hp
    simp only [readPacket, hlen, hmask, length_cons, ne_eq,
      not_false_eq_true, decide_true, if_true]
    rw [if_neg (by simp), if_neg (by omega), if_neg (by omega),
      if_neg (by omega)]
    congr 1
    omega

theorem readPacket_of_medium {b₀ b₂ b₃ : UInt8} {p : List UInt8} {len : ℕ}
    (hlen : b₂.toNat * 256 + b₃.toNat = len) (hmin : 126 ≤ len)
    (hp : len + 4 ≤ p.length) :
    readPacket (b₀ :: (0x80 ||| 126) :: b₂ :: b₃ :: p) =
      packetAt (b₀ &&& 0x7F) true len p (1 + 3 + 4 + len) := by
  have hmask : ((0x80 : UInt8) ||| 126) &&& 0x80 ≠ 0 := by decide
  have hbits : (((0x80 : UInt8) ||| 126) &&& 0x7F).toNat = 126 := by decide
  simp only [readPacket, hbits, hmask, hlen, length_cons, ne_eq,
    not_false_eq_true, decide_true, if_true]
  rw [if_neg (by simp), if_neg (by omega), if_neg (by omega),
    if_neg (by omega), if_neg (by omega)]
  congr 1
  omega

theorem readPacket_of_long (b₀ b₂ b₃ : UInt8) (p : List UInt8) :
    readPacket (b₀ :: (0x80 ||| 127) :: b₂ :: b₃ :: p) =
      .invalid "WebSocket packet with insane size" := by
  have hmask : ((0x80 : UInt8) ||| 127) &&& 0x80 ≠ 0 := by decide
  have hbits : (((0x80 : UInt8) ||| 127) &&& 0x7F).toNat = 127 := by decide
  simp only [readPacket, hbits, hmask, ne_eq, not_false_eq_true, decide_true,
    if_true]
  rw [if_neg (by simp)]

open UnrealIrcd.Websocket.Frame (lengthBytes encode header)

theorem readPacket_encode (f : Frame) (tail : List UInt8) :
    readPacket (f.encode ++ tail) = f.header := by
  have hsize : f.encode.length =
      1 + (lengthBytes f.payload.length).length + 4 +
        f.payload.length := by
    simp only [encode, length_cons, length_append,
      f.maskkey_length, length_unmask]
    omega
  have hbody : f.payload.length + 4 ≤
      (f.maskkey ++ unmask f.maskkey f.payload ++ tail).length := by
    simp only [length_append, f.maskkey_length, length_unmask]
    omega
  have htext : f.encode ++ tail =
      f.first :: (lengthBytes f.payload.length ++
        (f.maskkey ++ unmask f.maskkey f.payload ++ tail)) := by
    simp [encode]
  rw [htext, header, hsize]
  by_cases hshort : f.payload.length < 126
  · obtain ⟨hmask, hlen⟩ := lengthBytes_short f.payload.length hshort
    have hbytes : lengthBytes f.payload.length =
        [0x80 ||| UInt8.ofNat f.payload.length] := by
      rw [lengthBytes, if_pos hshort]
    rw [hbytes, if_pos (by omega), singleton_append,
      readPacket_of_short hmask hlen hshort hbody, packetAt_encoded]
    rfl
  · by_cases hmedium : f.payload.length < 2 ^ 16
    · have hbytes : lengthBytes f.payload.length =
          [0x80 ||| 126, UInt8.ofNat (f.payload.length / 256),
            UInt8.ofNat (f.payload.length % 256)] := by
        rw [lengthBytes, if_neg hshort, if_pos hmedium]
      have hlen : (UInt8.ofNat (f.payload.length / 256)).toNat * 256 +
          (UInt8.ofNat (f.payload.length % 256)).toNat =
            f.payload.length := by
        rw [UInt8.toNat_ofNat', UInt8.toNat_ofNat']
        omega
      rw [hbytes, if_pos hmedium]
      exact (readPacket_of_medium hlen (by omega) hbody).trans
        (packetAt_encoded f f.opcode _ tail)
    · have hbytes : lengthBytes f.payload.length =
          (0x80 ||| 127) :: (List.range 8).map fun i =>
            UInt8.ofNat (f.payload.length / 256 ^ (7 - i) % 256) := by
        rw [lengthBytes, if_neg hshort, if_neg hmedium]
      rw [hbytes, if_neg hmedium]
      exact readPacket_of_long _ _ _ _

theorem decode_encode (f : Frame) (tail : List UInt8) :
    framing.decode (f.encode ++ tail) =
      some (if f.payload.length < 2 ^ 16 then f.encode.length else 4,
        f.header) := by
  change decode (f.encode ++ tail) = _
  rw [decode, readPacket_encode]
  unfold header
  by_cases hlength : f.payload.length < 2 ^ 16
  · rw [if_pos hlength, if_pos hlength]
  · rw [if_neg hlength, if_neg hlength]

end UnrealIrcd.Websocket
