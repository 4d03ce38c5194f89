import Mathlib.Data.List.Basic
import Mathlib.Data.Int.Notation

/-!
# WebSocket input

The input side of `websocket_common.c`: `websocket_handle_packet` processes one
frame at the front of a buffer, and `websocket_handle_websocket` all frames of a
read together with what was left over from the reads before.

Characters are unsigned in this program, and the lengths of a frame fit an
`int`, so that bytes are `UInt8` and lengths are natural numbers.
-/

namespace UnrealIrcd.Websocket

def maxlinelength : ℕ := 16384

def wsopContinuation : UInt8 := 0x00
def wsopText : UInt8 := 0x01
def wsopBinary : UInt8 := 0x02
def wsopClose : UInt8 := 0x08
def wsopPing : UInt8 := 0x09
def wsopPong : UInt8 := 0x0a

/-- What is given for a connection: the callback, the limit of the send queue,
what `send_queued` leaves of the queue, and two properties of the client.  The
callback sees the payloads it was given before; its answer is `false` if it
has killed the client. -/
structure Connection where
  callback : List (List UInt8) → List UInt8 → Bool
  getSendq : ℕ
  sendQueued : List UInt8 → List UInt8
  isNoFakeLag : Bool
  isRPC : Bool

/-- The state of a client.  `errorStr` is set once the socket is dead, and
`received` are the payloads the callback was given. -/
structure Client where
  lefttoparse : List UInt8
  errorStr : Option String
  killed : Bool
  sendQ : List UInt8
  fakeLag : ℤ
  fakeLagMsec : ℤ
  lastMsgReceived : ℤ
  pingSent : Bool
  received : List (List UInt8)
  deriving DecidableEq, Repr

/-- `dead_socket`.  The first reason is kept. -/
def Client.deadSocket (client : Client) (notice : String) : Client :=
  { client with
    sendQ := []
    errorStr := some (client.errorStr.getD notice) }

def addFakeLag (conn : Connection) (client : Client) (msec : ℤ) : Client :=
  if conn.isNoFakeLag then client
  else
    let total := client.fakeLagMsec + msec
    { client with
      fakeLag := client.fakeLag + total / 1000
      fakeLagMsec := total % 1000 }

def websocketCreatePacketSimple (opcode : UInt8) (buf : List UInt8) :
    Option (List UInt8) :=
  if buf.length > 8192 - 8 then none
  else if buf.length < 126 then
    some ((opcode ||| 0x80) :: UInt8.ofNat buf.length :: buf)
  else
    some ((opcode ||| 0x80) :: 126 :: UInt8.ofNat (buf.length / 256 % 256) ::
      UInt8.ofNat (buf.length % 256) :: buf)

def websocketSendPong (conn : Connection) (client : Client)
    (buf : List UInt8) : Client :=
  match websocketCreatePacketSimple wsopPong buf with
  | none => client
  | some b =>
    if client.sendQ.length > conn.getSendq then
      client.deadSocket "Max SendQ exceeded"
    else
      { client with sendQ := conn.sendQueued (client.sendQ ++ b) }

/-- The outcome of `websocket_handle_packet`: -1, 0 or the size of the
frame. -/
inductive PacketStatus where
  | killed
  | shortRead
  | processed (size : ℕ)
  deriving DecidableEq, Repr

/-- `websocket_handle_packet_ping`.  That a pong could not be sent is not
reported. -/
def websocketHandlePacketPing (conn : Connection) (now : ℤ) (client : Client)
    (buf : List UInt8) : Client × Bool :=
  if buf.length > 500 then
    (client.deadSocket "WebSocket: oversized PING request", false)
  else
    let client := addFakeLag conn client 1000
    if client.fakeLag - now < 60 then
      (websocketSendPong conn client buf, true)
    else
      (client, true)

def websocketHandlePacketPong (conn : Connection) (now : ℤ)
    (client : Client) : Client :=
  if conn.isRPC then
    { client with lastMsgReceived := now, pingSent := false }
  else
    client

/-! ## Frames -/

structure Packet where
  opcode : UInt8
  payload : List UInt8
  totalPacketSize : ℕ
  deriving DecidableEq, Repr

/-- What is found at the front of a buffer: too little, something that ends
the connection, or a frame. -/
inductive Header where
  | short
  | invalid (notice : String)
  | packet (p : Packet)
  deriving DecidableEq, Repr

/-- The bytes of a payload are combined with those of the mask in turn. -/
def unmask (maskkey payload : List UInt8) : List UInt8 :=
  payload.mapIdx fun n v => v ^^^ maskkey.getD (n % 4) 0

/-- The frame whose mask or payload begins at `p`. -/
def packetAt (opcode : UInt8) (masked : Bool) (len : ℕ) (p : List UInt8)
    (totalPacketSize : ℕ) : Header :=
  .packet
    { opcode := opcode
      payload :=
        if masked then unmask (p.take 4) ((p.drop 4).take len)
        else p.take len
      totalPacketSize := totalPacketSize }

/-- The first part of `websocket_handle_packet`, up to the opcode. -/
def readPacket (readbuf : List UInt8) : Header :=
  match readbuf with
  | b₀ :: b₁ :: b₂ :: b₃ :: rest =>
    let opcode := b₀ &&& 0x7F
    let masked := decide (b₁ &&& 0x80 ≠ 0)
    let len := (b₁ &&& 0x7F).toNat
    let maskkeylen := if masked then 4 else 0
    if masked = false ∧ opcode ≠ wsopPong then
      .invalid "WebSocket packet not masked"
    else if len = 127 then
      .invalid "WebSocket packet with insane size"
    else if readbuf.length < len + 2 + maskkeylen then
      .short
    else if len = 126 then
      let len := b₂.toNat * 256 + b₃.toNat
      if len < 126 then
        .invalid ("WebSocket protocol violation " ++
          "(extended payload length too short)")
      else if readbuf.length < len + 4 + maskkeylen then
        .short
      else
        packetAt opcode masked len rest (len + 4 + maskkeylen)
    else
      packetAt opcode masked len (b₂ :: b₃ :: rest) (len + 2 + maskkeylen)
  | _ => .short

def IsData (opcode : UInt8) : Prop :=
  opcode = wsopContinuation ∨ opcode = wsopText ∨ opcode = wsopBinary

instance (opcode : UInt8) : Decidable (IsData opcode) :=
  inferInstanceAs (Decidable (_ ∨ _ ∨ _))

/-- The second part of `websocket_handle_packet`: what a frame does. -/
def handleOpcode (conn : Connection) (now : ℤ) (client : Client)
    (p : Packet) : Client × PacketStatus :=
  if IsData p.opcode then
    if p.payload.length > 0 then
      let client' :=
        { client with received := client.received ++ [p.payload] }
      if conn.callback client.received p.payload then
        (client', .processed p.totalPacketSize)
      else
        ({ client' with killed := true }, .killed)
    else
      (client, .processed p.totalPacketSize)
  else if p.opcode = wsopClose then
    (client.deadSocket "Connection closed", .killed)
  else if p.opcode = wsopPing then
    let ping := websocketHandlePacketPing conn now client p.payload
    (ping.1, if ping.2 then .processed p.totalPacketSize else .killed)
  else if p.opcode = wsopPong then
    (websocketHandlePacketPong conn now client,
      .processed p.totalPacketSize)
  else
    (client.deadSocket "WebSocket: Unknown opcode", .killed)

def websocketHandlePacket (conn : Connection) (now : ℤ) (client : Client)
    (readbuf : List UInt8) : Client × PacketStatus :=
  match readPacket readbuf with
  | .short => (client, .shortRead)
  | .invalid notice => (client.deadSocket notice, .killed)
  | .packet p => handleOpcode conn now client p

/-! ## Reads -/

/-- The loop of `websocket_handle_websocket`.  It runs once even if there is
nothing in the buffer. -/
def handleLoop (conn : Connection) (now : ℤ) :
    ℕ → Client → List UInt8 → Client
  | 0, client, _ => client
  | fuel + 1, client, ptr =>
    match websocketHandlePacket conn now client ptr with
    | (client, .killed) => client
    | (client, .shortRead) => { client with lefttoparse := ptr }
    | (client, .processed n) =>
      if (ptr.drop n).length > 0 then
        handleLoop conn now fuel client (ptr.drop n)
      else
        client

def websocketHandleWebsocket (conn : Connection) (now : ℤ) (client : Client)
    (readbuf2 : List UInt8) : Client :=
  let readbuf := client.lefttoparse ++ readbuf2
  if readbuf.length > maxlinelength - 1 then
    client.deadSocket "Illegal buffer stacking/Excess flood"
  else
    handleLoop conn now (readbuf.length + 1) { client with lefttoparse := [] }
      readbuf

/-- The connection has ended: the socket is dead or the client was killed. -/
def Client.Ended (client : Client) : Prop :=
  client.errorStr.isSome ∨ client.killed = true

instance (client : Client) : Decidable client.Ended :=
  inferInstanceAs (Decidable (_ ∨ _))

/-- A read, as `read_packet` makes it: nothing is read from a dead socket, and
a client that was killed is gone. -/
def readStep (conn : Connection) (client : Client) (read : ℤ × List UInt8) :
    Client :=
  if client.Ended then client
  else websocketHandleWebsocket conn read.1 client read.2

def reads (conn : Connection) (client : Client)
    (chunks : List (ℤ × List UInt8)) : Client :=
  chunks.foldl (readStep conn) client

end UnrealIrcd.Websocket
