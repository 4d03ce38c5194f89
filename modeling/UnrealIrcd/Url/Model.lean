import UnrealIrcd.Support.HeaderScan
import UnrealIrcd.Support.ChunkedCoding

/-!
# Downloads

How a download takes a response out of what it reads (`src/url_unreal.c`).  The
header is scanned line by line, and a line that has been cut is kept for the next
read.  A body without coding is stored as it comes; a chunked one is taken apart by
`httpsChunks`.

* `httpsParseHeader` takes one line off the buffer.
* `httpsHandleResponseHeader` handles what is read of the header.
* `httpsHandleResponseBody` handles what is read of the body.
* `httpsReceiveResponse` handles one read.
-/

namespace UnrealIrcd.Url

open Support

def netbufSize : ℕ := 4096

/-- What is read at once is shorter than `readbuf`. -/
def readBufSize : ℕ := 2048

def httpsMaxChunkHeaderLen : ℕ := 256

def downloadMaxRedirects : ℕ := 2

/-- What a download is to do.  `max_size` has been set to its default. -/
structure OutgoingWebRequest where
  storeInFile : Bool
  maxRedirects : ℤ
  maxSize : ℕ
  maxSize_lt : maxSize < 2 ^ 63

inductive TransferEncoding where
  | none
  | chunked
deriving DecidableEq

inductive Outcome where
  /-- The response has been passed on. -/
  | done
  /-- The file has not been changed. -/
  | cached
  /-- Another download takes over. -/
  | redirected (url : List Char)
  /-- There was an error. -/
  | cancelled (message : List Char)
deriving DecidableEq

structure Download where
  hostname : List Char
  port : ℕ
  memoryData : List Char
  fileData : List Char
  gotResponse : Bool
  httpStatusCode : ℤ
  lefttoparse : List Char
  lastModified : ℤ
  transferEncoding : TransferEncoding
  chunkRemaining : ℕ
  redirectNewLocation : Option (List Char)
  outcome : Option Outcome
deriving DecidableEq

/-- The conversion of dates. -/
structure Environment where
  rfc2616TimeToUnixTime : List Char → ℤ

variable (env : Environment) (request : OutgoingWebRequest)

/-! ## Ends -/

/-- `https_cancel`, with the size of `errorbuf`. -/
def httpsCancel (handle : Download) (message : List Char) : Download :=
  { handle with outcome := some (.cancelled (snprintf 512 message)) }

def httpsDone (handle : Download) : Download :=
  if handle.gotResponse then { handle with outcome := some .done }
  else { handle with
    outcome := some (.cancelled "HTTPS response not received".toList) }

def httpsDoneCached (handle : Download) : Download :=
  { handle with outcome := some .cached }

def tooManyRedirects : List Char :=
  "Too many HTTP redirects (".toList ++ decimal downloadMaxRedirects ++
    ")".toList

/-- A relative URL is made an absolute one. -/
def actualUrl (handle : Download) (location : List Char) : List Char :=
  if location.head? = some '/' then
    "https://".toList ++ handle.hostname ++ ":".toList ++
      decimal handle.port ++ location
  else location

def httpsRedirect (handle : Download) (location : List Char) : Download :=
  if request.maxRedirects = 0 then httpsCancel handle tooManyRedirects
  else { handle with outcome := some (.redirected (actualUrl handle location)) }

/-! ## The body -/

def tooLarge : List Char :=
  "Response too large (maximum: ".toList ++ decimal request.maxSize ++
    " bytes)".toList

def storeData (handle : Download) (data : List Char) : Download :=
  if request.storeInFile then
    if request.maxSize < handle.fileData.length + data.length then
      httpsCancel handle (tooLarge request)
    else { handle with fileData := handle.fileData ++ data }
  else if request.maxSize < handle.memoryData.length + data.length then
    httpsCancel handle (tooLarge request)
  else { handle with memoryData := handle.memoryData ++ data }

def skipEmptyLine : List Char → List Char
  | '\r' :: '\n' :: buf => buf
  | '\n' :: buf => buf
  | buf => buf

/-- A line with the size of a chunk. -/
def setChunkRemaining (handle : Download) (line : List Char) : Download :=
  match strtoll16 line with
  | none =>
    httpsCancel handle
      ("Chunk size out of range: '".toList ++ cstring line ++ "'".toList)
  | some n =>
    if n < 0 then
      httpsCancel handle
        ("Negative chunk encountered (".toList ++ decimal n ++ ")".toList)
    else if n = 0 then httpsDone handle
    else { handle with chunkRemaining := n.toNat }

/-- The loop of `https_handle_response_body`, with a bound on the number of its
rounds. -/
def httpsChunks : ℕ → Download → List Char → Download
  | 0, handle, _ => handle
  | _ + 1, handle, [] => handle
  | fuel + 1, handle, buf =>
    if 0 < handle.chunkRemaining then
      let eat := min handle.chunkRemaining buf.length
      let handle := storeData request handle (buf.take eat)
      if handle.outcome ≠ none then handle
      else httpsChunks fuel
        { handle with chunkRemaining := handle.chunkRemaining - eat }
        (buf.drop eat)
    else
      let buf := skipEmptyLine buf
      let line := buf.takeWhile (· != '\n')
      if '\n' ∉ buf then
        if httpsMaxChunkHeaderLen < buf.length then
          httpsCancel handle
            ("Chunk size line too long (".toList ++ decimal buf.length ++
              " bytes, no LF)".toList)
        else { handle with lefttoparse := buf }
      else
        let handle := setChunkRemaining handle line
        if handle.outcome ≠ none then handle
        else httpsChunks fuel handle (buf.drop (line.length + 1))

def httpsHandleResponseBody (handle : Download) (readbuf : List Char) :
    Download :=
  match handle.transferEncoding with
  | .none => storeData request handle readbuf
  | .chunked =>
    let buf := handle.lefttoparse ++ readbuf
    httpsChunks request (buf.length + 1) { handle with lefttoparse := [] } buf

/-! ## The header -/

/-- The status line starts with `HTTP/1`, and its value starts with the status. -/
def httpsDialect : Dialect where
  isFirst p := "HTTP/1".toList.isPrefixOf p && 13 ≤ (cstring p).length
  key := "RESPONSE".toList
  value p := (p.drop 9).takeWhile fun c =>
    c != '\r' && c != '\n' && c != '\x00'

def httpsParseHeader (p : List Char) : Scan := scanLine httpsDialect p

def handleStatus (handle : Download) (value : List Char) : Download :=
  let handle := { handle with httpStatusCode := atoi value }
  if handle.httpStatusCode = 304 then httpsDoneCached handle
  else if 301 ≤ handle.httpStatusCode ∧ handle.httpStatusCode ≤ 308 then
    if request.maxRedirects = 0 then httpsCancel handle tooManyRedirects
    else handle
  else if handle.httpStatusCode ≠ 200 then
    httpsCancel handle ("HTTP Error: ".toList ++ value)
  else handle

/-- One line of the header, unless the download has ended. -/
def handleLine (handle : Download) (pair : List Char × List Char) : Download :=
  if handle.outcome ≠ none then handle
  else if strcasecmpEq pair.1 "RESPONSE".toList then
    handleStatus request handle pair.2
  else if strcasecmpEq pair.1 "Last-Modified".toList then
    { handle with lastModified := env.rfc2616TimeToUnixTime pair.2 }
  else if strcasecmpEq pair.1 "Location".toList then
    { handle with redirectNewLocation := some pair.2 }
  else if strcasecmpEq pair.1 "Transfer-Encoding".toList then
    if strcasecmpEq pair.2 "chunked".toList then
      { handle with transferEncoding := .chunked }
    else handle
  else handle

def urlFindEndOfRequest (header : List Char) : Option (List Char) :=
  findEnd header

def endOfHeader (handle : Download) (netbuf : List Char) : Download :=
  let handle := { handle with gotResponse := true }
  if handle.httpStatusCode = 0 then
    httpsCancel handle "Invalid HTTP response".toList
  else if handle.httpStatusCode ≠ 200 then
    match handle.redirectNewLocation with
    | some location => httpsRedirect request handle location
    | none =>
      httpsCancel handle
        "HTTP Redirect encountered but no URL specified!?".toList
  else
    match urlFindEndOfRequest netbuf with
    | some body => httpsHandleResponseBody request handle body
    | none => handle

def httpsHandleResponseHeader (handle : Download) (readbuf : List Char) :
    Download :=
  let left := handle.lefttoparse.take (netbufSize - 1)
  let readbuf := readbuf.take (netbufSize - left.length - 1)
  if readbuf = [] then
    httpsCancel handle "Oversized line in HTTP response".toList
  else
    let netbuf := left ++ readbuf
    let lines := scan httpsDialect (cstring netbuf)
    let handle := lines.1.foldl (handleLine env request)
      { handle with lefttoparse := [] }
    if handle.outcome ≠ none then handle
    else
      match lines.2 with
      | .ended => endOfHeader request handle netbuf
      | .left rest => { handle with lefttoparse := rest }
      | .dropped => handle

/-! ## Reads -/

/-- `https_receive_response`.  Nothing is read after the end of the download, and
an empty read stands for the end of the connection. -/
def httpsReceiveResponse (handle : Download) (readbuf : List Char) : Download :=
  if handle.outcome ≠ none then handle
  else if readbuf = [] then httpsDone handle
  else if handle.gotResponse then httpsHandleResponseBody request handle readbuf
  else httpsHandleResponseHeader env request handle readbuf

def newDownload (hostname : List Char) (port : ℕ) : Download where
  hostname := hostname
  port := port
  memoryData := []
  fileData := []
  gotResponse := false
  httpStatusCode := 0
  lefttoparse := []
  lastModified := 0
  transferEncoding := .none
  chunkRemaining := 0
  redirectNewLocation := none
  outcome := none

def download (handle : Download) (reads : List (List Char)) : Download :=
  httpsReceiveResponse env request
    (reads.foldl (httpsReceiveResponse env request) handle) []

end UnrealIrcd.Url
