import UnrealIrcd.Support.HeaderScan
import UnrealIrcd.Support.Decimal

/-!
# The web server

How the web server takes a request out of the packets of a client
(`src/modules/webserver.c`).  The header is scanned line by line; what is left of a
line that has been cut is kept for the next packet, and the start of the body is
searched on its own in the buffer with the empty line.

* `webserverHandshakeHelper` takes one line off the buffer.
* `webserverHandleRequestHeader` handles a packet of the header.
* `webserverPacketIn` handles any packet.
-/

namespace UnrealIrcd.Webserver

open Support

def maxHeaders : ℕ := 64

def maxHeaderLineLength : ℕ := 8192

def maxHeaderTotalLength : ℕ := 32768

/-- The size of `readbuf`, which bounds a packet. -/
def readBufSize : ℕ := 512

/-! ## Lines of the header -/

inductive HttpMethod where
  | head
  | get
  | put
  | post
deriving DecidableEq

def webserverGetMethod (buf : List Char) : Option HttpMethod :=
  if "HEAD ".toList.isPrefixOf buf then some .head
  else if "GET ".toList.isPrefixOf buf then some .get
  else if "PUT ".toList.isPrefixOf buf then some .put
  else if "POST ".toList.isPrefixOf buf then some .post
  else none

/-- The URI is cut at the next space, CR or LF. -/
def requestValue (p : List Char) : List Char :=
  (p.dropWhile (· != ' ')).tail.takeWhile fun c =>
    c != ' ' && c != '\r' && c != '\n' && c != '\x00'

/-- The request line starts with a method, and its value is the URI. -/
def webserverDialect : Dialect where
  isFirst p := (webserverGetMethod p).isSome
  key := "REQUEST".toList
  value := requestValue

def webserverHandshakeHelper (p : List Char) : Scan :=
  scanLine webserverDialect p

/-- The size of the static buffer of `webserver_handshake_helper`, without the
NUL. -/
def helperBufSize : ℕ := 32767

/-- The calls of `webserver_handshake_helper` until it returns 0. -/
def webserverHandshake (netbuf : List Char) :
    List (List Char × List Char) × Ending :=
  scan webserverDialect (netbuf.take helperBufSize)

def findEndOfRequest (header : List Char) : Option (List Char) := findEnd header

/-! ## Requests -/

/-- What is known of a request. -/
structure WebRequest where
  method : HttpMethod
  uri : Option (List Char)
  headers : List (List Char × List Char)
  contentLength : ℤ
  chunked : Bool
  lefttoparse : List Char
  headerBytes : ℕ
  requestHeaderParsed : Bool
deriving DecidableEq

/-- A client of the web server, with what was passed to the body handler, to the
IRC parser, and sent back. -/
structure Client where
  web : Option WebRequest
  messagesReceived : ℕ
  bodies : List (List Char)
  irc : List (List Char)
  responses : List (ℕ × String)
  dead : Bool
deriving DecidableEq

/-- The module behind a listener.  It accepts a request when the client lives on
and `handle_request` returns a positive number. -/
structure WebServer where
  accepts : WebRequest → Bool

/-- `webserver_send_response` with a message closes the connection. -/
def webserverSendResponse (client : Client) (status : ℕ) (msg : String) :
    Client :=
  { client with responses := client.responses ++ [(status, msg)], dead := true }

/-- One line of the header is stored.  There is no result if it is too large. -/
def storeHeader (web : WebRequest) (pair : List Char × List Char) :
    Option WebRequest :=
  if pair.2 = [] then some web
  else if strcasecmpEq pair.1 "REQUEST".toList then
    some { web with uri := some pair.2 }
  else if maxHeaders ≤ web.headers.length ∨
      maxHeaderLineLength < pair.1.length + pair.2.length then none
  else
    let web :=
      if strcasecmpEq pair.1 "Content-Length".toList then
        { web with contentLength := strtol pair.2 }
      else if strcasecmpEq pair.1 "Transfer-Encoding".toList &&
          strcasecmpEq pair.2 "chunked".toList then
        { web with chunked := true }
      else web
    some { web with headers := web.headers ++ [pair] }

/-- The end of the header has been reached. -/
def endOfRequest (server : WebServer) (client : Client) (web : WebRequest)
    (netbuf : List Char) : Client :=
  if web.uri = none then
    webserverSendResponse client 400 "Malformed HTTP request"
  else
    let web := { web with requestHeaderParsed := true }
    let client := { client with web := some web }
    if server.accepts web then
      match findEndOfRequest netbuf with
      | some body => { client with bodies := client.bodies ++ [body] }
      | none => client
    else client

def webserverHandleRequestHeader (server : WebServer) (client : Client)
    (web : WebRequest) (readbuf : List Char) : Client :=
  if maxHeaderTotalLength < web.headerBytes + readbuf.length then
    webserverSendResponse client 431 "Request header too large"
  else
    let netbuf := web.lefttoparse ++ readbuf
    let lines := webserverHandshake netbuf
    let web := { web with
      headerBytes := web.headerBytes + readbuf.length
      lefttoparse := [] }
    match lines.1.foldlM storeHeader web with
    | none => webserverSendResponse client 431 "Request header too large"
    | some web =>
      match lines.2 with
      | .ended => endOfRequest server client web netbuf
      | .left rest =>
        if maxHeaderLineLength < rest.length then
          webserverSendResponse client 431 "Request header too large"
        else { client with web := some { web with lefttoparse := rest } }
      | .dropped => { client with web := some web }

def webserverPossibleRequest (client : Client) (buf : List Char) : Client :=
  if buf.length < 8 ∨ client.web ≠ none then client
  else
    match webserverGetMethod buf with
    | none => client
    | some method =>
      { client with web := some ⟨method, none, [], -1, false, [], 0, false⟩ }

def webserverPacketIn (server : WebServer) (client : Client)
    (readbuf : List Char) : Client :=
  let client :=
    if client.messagesReceived = 0 then webserverPossibleRequest client readbuf
    else client
  match client.web with
  | none => { client with irc := client.irc ++ [readbuf] }
  | some web =>
    if web.requestHeaderParsed then
      { client with bodies := client.bodies ++ [readbuf] }
    else webserverHandleRequestHeader server client web readbuf

def packetsIn (server : WebServer) (client : Client)
    (packets : List (List Char)) : Client :=
  packets.foldl (fun client readbuf =>
    if client.dead then client else webserverPacketIn server client readbuf)
    client

def newClient : Client := ⟨none, 0, [], [], [], false⟩

end UnrealIrcd.Webserver
