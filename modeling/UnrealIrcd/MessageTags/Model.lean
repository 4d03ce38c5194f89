import UnrealIrcd.Support.CString

/-!
# Message tags

Serialising and parsing of message tags as in `message-tags.c`.  Strings are
the characters before the terminating NUL, one character per byte.  Tag
handlers come from modules, so the checks they make are parameters here.
-/

namespace UnrealIrcd.MessageTags

open Support

def serverTagSizeLimit : ℕ := 8191

def clientTagSizeLimit : ℕ := 4094

structure MessageTag where
  name : List Char
  value : Option (List Char)
  deriving DecidableEq, Repr

/-- The server that a client is reached through. -/
structure Direction where
  isServer : Bool
  supportMTAGS : Bool
  deriving DecidableEq, Repr

/-- What serialising and parsing ask about the other side. -/
structure Client where
  isServer : Bool
  myConnect : Bool
  direction : Option Direction
  capMessageTags : Bool
  /-- The client capabilities that are set. -/
  caps : List ℕ
  deriving DecidableEq, Repr

structure MessageTagHandler where
  name : List Char
  isOk : Client → List Char → List Char → Bool
  shouldSendToClient : Option (Client → Bool)
  noCapNeeded : Bool
  clicapHandler : Option ℕ

/-! ## Escaping -/

def needsEscape (c : Char) : Bool :=
  c == ';' || c == ' ' || c == '\\' || c == '\r' || c == '\n'

def escapeLetter (c : Char) : Char :=
  if c = ';' then ':'
  else if c = ' ' then 's'
  else if c = '\\' then '\\'
  else if c = '\r' then 'r'
  else 'n'

/-- `message_tag_escape` with `room` bytes left in the output buffer. -/
def messageTagEscape : List Char → ℕ → List Char
  | [], _ => []
  | c :: rest, room =>
    if needsEscape c then
      -- Room for the two bytes of the escape and the NUL.
      if room < 3 then []
      else '\\' :: escapeLetter c :: messageTagEscape rest (room - 2)
    else
      if room < 2 then []
      else c :: messageTagEscape rest (room - 1)

def unescapeLetter (c : Char) : Char :=
  if c = ':' then ';'
  else if c = 's' then ' '
  else if c = 'r' then '\r'
  else if c = 'n' then '\n'
  else c

def messageTagUnescape : List Char → List Char
  | [] => []
  | '\\' :: [] => []
  | '\\' :: c :: rest => unescapeLetter c :: messageTagUnescape rest
  | c :: rest => c :: messageTagUnescape rest

/-! ## Serialising -/

variable (handlers : List MessageTagHandler)

def messageTagHandlerFind (name : List Char) : Option MessageTagHandler :=
  handlers.find? fun m => strcasecmpEq name m.name

/-- `client_accepts_tag`, the outgoing filter. -/
def clientAcceptsTag (token : List Char) (client : Client) : Bool :=
  if client.isServer || !client.myConnect then true
  else
    match messageTagHandlerFind handlers token with
    | none => false
    | some m =>
      if m.shouldSendToClient.any fun f => !f client then false
      else if client.capMessageTags then true
      else if m.noCapNeeded then false
      else m.clicapHandler.any fun cap => client.caps.contains cap

def tagText (m : MessageTag) : List Char :=
  match m.value with
  | some value =>
    messageTagEscape m.name 8192 ++
      '=' :: (messageTagEscape value 8192 ++ [';'])
  | none => messageTagEscape m.name 8192 ++ [';']

/-- The loop of `mtags_to_string`: every accepted tag goes through `tbuf`,
which has 4094 bytes, into `buf`, which has 4096. -/
def mtagsToStringLoop (client : Option Client) (buf : List Char) :
    List MessageTag → List Char
  | [] => buf
  | m :: ms =>
    if client.any fun client => !clientAcceptsTag handlers m.name client then
      mtagsToStringLoop client buf ms
    else
      mtagsToStringLoop client (strlcat buf (snprintf 4094 (tagText m)) 4096)
        ms

/-- Remote servers have to indicate support for message tags. -/
def Client.lacksMtags (client : Client) : Bool :=
  client.direction.any fun d => d.isServer && !d.supportMTAGS

def mtagsToString (ms : List MessageTag) (client : Option Client) :
    Option (List Char) :=
  if ms = [] then none
  else if client.any Client.lacksMtags then none
  else
    let buf := mtagsToStringLoop handlers client [] ms
    if buf = [] then none
    else some buf.dropLast

/-- The line that is sent: the tags, if any, are put in front of it. -/
def lineWithTags (mtagsStr : Option (List Char)) (line : List Char) :
    List Char :=
  match mtagsStr with
  | none => line
  | some [] => line
  | some s => '@' :: (s ++ ' ' :: line)

/-! ## Parsing -/

/-- `message_tag_ok`, the incoming filter. -/
def messageTagOk (client : Client) (name value : List Char) : Bool :=
  match messageTagHandlerFind handlers name with
  | none => client.isServer || !client.myConnect
  | some m => m.isOk client name value

/-- The name and value of an element `name=value` or `name`. -/
def parseElement (element : List Char) : List Char × List Char :=
  (messageTagUnescape (element.takeWhile (· != '=')),
    messageTagUnescape ((element.dropWhile (· != '=')).drop 1))

/-- The loop of `parse_message_tags`: accepted tags are put in front of the
list, and an empty value becomes NULL. -/
def parseElements (client : Client) (mtagList : List MessageTag) :
    List (List Char) → List MessageTag
  | [] => mtagList
  | element :: elements =>
    let (name, value) := parseElement element
    if messageTagOk handlers client name value then
      parseElements client
        (⟨name, if value = [] then none else some value⟩ :: mtagList) elements
    else
      parseElements client mtagList elements

/-- `parse_message_tags` on a string that starts with `@`: the tags, and the
rest of the line, which is empty if the line is not to be parsed. -/
def parseMessageTags (client : Client) (str : List Char) :
    List MessageTag × List Char :=
  let tags := str.takeWhile (· != ' ')
  let limit := if client.isServer then serverTagSizeLimit
    else clientTagSizeLimit
  if tags.length > limit then ([], [])
  else
    match str.dropWhile (· != ' ') with
    | [] => ([], [])
    | _ :: remainder =>
      (parseElements handlers client []
        (strtokens (· == ';') (tags.drop 1)), remainder)

/-- The part of `parse` that separates the tags from the line. -/
def parseLine (client : Client) (buffer : List Char) :
    List MessageTag × List Char :=
  match buffer.dropWhile (· == ' ') with
  | '@' :: ch =>
    let (mtags, rest) := parseMessageTags handlers client ('@' :: ch)
    (mtags, rest.dropWhile (· == ' '))
  | ch => ([], ch)

end UnrealIrcd.MessageTags
