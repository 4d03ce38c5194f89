import UnrealIrcd.Config.Preprocessor
import UnrealIrcd.Support.StepLoop

/-!
# The configuration parser

`config_parse_with_offset` of `conf.c`, one definition for each case of its
character loop.

The read position `ptr` is the memory from there on: the rest of the text, its
NUL and whatever follows it, since a quoted string can be read past the NUL.
The memory behind the end of the list counts as NUL.

A list of entries is kept as in the source, as its first entry with its `items`
and the entries `next` to it.  The parser links an entry where `lastce` points,
which is the end of the list of the innermost open section, or of the file.
The open sections are a list, `cursection` first; this stands for `parent`.
-/

namespace UnrealIrcd.Config

open Support

def nul : Char := '\x00'

def quote : Char := '\x27'

def peek : List Char → Char
  | [] => nul
  | c :: _ => c

/-! ## Entries -/

/-- A `ConfigEntry` without its pointers. -/
structure EntryInfo where
  name : List Char
  value : Option (List Char)
  lineNumber : ℕ
  filePositionStart : ℕ
  filePositionEnd : ℕ
  sectionLinenumber : ℕ
  conditionalConfig : List ConditionalConfig
  escaped : Bool
  deriving DecidableEq, Repr

/-- A list of entries.  `items` is the block of the first one. -/
inductive ConfigEntry where
  | null
  | entry (info : EntryInfo) (items next : ConfigEntry)
  deriving DecidableEq, Repr

/-- `case '\''`: the strings of the entry end at a single quote. -/
def EntryInfo.markQuote (info : EntryInfo) (c : Char) : EntryInfo :=
  if c = quote then { info with escaped := true } else info

/-- Link entries at the end of a list. -/
def ConfigEntry.append : ConfigEntry → ConfigEntry → ConfigEntry
  | .null, ce => ce
  | .entry info items next, ce => .entry info items (next.append ce)

/-- `preprocessor_resolve_conditionals_ce`, which has no result if it reads a
NULL pointer. -/
def preprocessorResolveConditionalsCe (srv : Server) (defines : Defines)
    (phase : PreprocessorPhase) : ConfigEntry → Option ConfigEntry
  | .null => some .null
  | .entry info items next => do
    if ← preprocessorResolveIf srv defines phase info.conditionalConfig then
      let items ← preprocessorResolveConditionalsCe srv defines phase items
      let next ← preprocessorResolveConditionalsCe srv defines phase next
      return .entry info items next
    else
      preprocessorResolveConditionalsCe srv defines phase next

/-! ## Quotes -/

def unrealDelQuotes : List Char → List Char
  | [] => []
  | [c] => [c]
  | c :: d :: i =>
    if c = '\\' ∧ (d = '\\' ∨ d = '"') then d :: unrealDelQuotes i
    else c :: unrealDelQuotes (d :: i)

/-- The loop of `unreal_add_quotes_r`, with room for `len` characters. -/
def unrealAddQuotesLoop : ℕ → List Char → List Char
  | _, [] => []
  | len, c :: i =>
    if c = '"' ∨ c = '\\' then
      if len < 2 then [] else '\\' :: c :: unrealAddQuotesLoop (len - 2) i
    else if len = 0 then []
    else c :: unrealAddQuotesLoop (len - 1) i

/-- `unreal_add_quotes_r`: what it writes to a buffer of `len` bytes. -/
def unrealAddQuotesR (i : List Char) (len : ℕ) : List Char :=
  if len - 1 = 0 then [] else unrealAddQuotesLoop (len - 1) i

def unrealAddQuotes (str : List Char) : List Char :=
  unrealAddQuotesR str 2048

/-! ## Messages -/

inductive ParseMessage where
  | ignoringSemicolon (line : ℕ)
  | sectionWithoutName (line : ℕ)
  | sectionNotEnded (line : ℕ)
  | missingSemicolonBeforeBrace (line : ℕ)
  | extraCloseBrace (line : ℕ)
  | nestedComment (line start : ℕ)
  | commentNotEnded (start : ℕ)
  | missingSemicolonAtEnd (line : ℕ)
  | unterminatedQuote (line : ℕ)
  | extraDataQuoted (line : ℕ)
  | preprocessor (line : ℕ) (message : PreprocessorMessage)
  | unexpectedElse (line : ℕ)
  | duplicateElse (line : ℕ)
  | unexpectedEndif (line : ℕ)
  | ignoringEndComment (line : ℕ)
  | extraData (line : ℕ)
  | endOfFileInEntry (line : ℕ)
  | endOfFileInSection (line : ℕ)
  | endOfFile
  deriving DecidableEq, Repr

/-! ## The state of the loop -/

/-- The variables of the loop of `config_parse_with_offset`. -/
structure ParseState where
  ptr : List Char
  linenumber : ℕ
  errors : ℕ
  curce : Option (EntryInfo × ConfigEntry)
  sections : List (EntryInfo × ConfigEntry)
  items : ConfigEntry
  preprocessorLevel : ℤ
  ccList : List ConditionalConfig
  defines : Defines
  messages : List ParseMessage
  deriving DecidableEq

/-- What the parser returns and its last state. -/
structure ParseResult where
  file : Option ConfigEntry
  state : ParseState
  /-- The parser has read a NULL pointer. -/
  crashed : Bool
  deriving DecidableEq

/-- What an iteration of the loop comes to. -/
abbrev Flow := ParseState ⊕ ParseResult

namespace ParseState

def report (s : ParseState) (message : ParseMessage) : ParseState :=
  { s with messages := message :: s.messages }

def fail (s : ParseState) (message : ParseMessage) : ParseState :=
  { s with messages := message :: s.messages, errors := s.errors + 1 }

/-- `*lastce = curce; lastce = &(curce->next); curce = NULL`. -/
def link (s : ParseState) (ce : EntryInfo × ConfigEntry) : ParseState :=
  match s.sections with
  | [] =>
    { s with curce := none, items := s.items.append (.entry ce.1 ce.2 .null) }
  | (info, items) :: sections =>
    { s with
      curce := none
      sections :=
        (info, items.append (.entry ce.1 ce.2 .null)) :: sections }

/-- `return NULL` after an error. -/
def returnNull (s : ParseState) (message : ParseMessage) : Flow :=
  .inr ⟨none, s.fail message, false⟩

/-- From `breakout` on. -/
def breakout (s : ParseState) : ParseResult :=
  let s :=
    match s.curce, s.sections with
    | some ce, _ => s.fail (.endOfFileInEntry ce.1.lineNumber)
    | none, (info, _) :: _ =>
      s.fail (.endOfFileInSection info.sectionLinenumber)
    | none, [] => s
  ⟨if s.errors = 0 then some s.items else none, s, false⟩

/-- Behind the switch: leave the loop at a NUL, else go on behind `ptr`. -/
def afterSwitch (s : ParseState) : Flow :=
  if peek s.ptr = nul then .inr s.breakout
  else .inl { s with ptr := s.ptr.tail }

end ParseState

/-! ## The inner loops -/

/-- Read up to one of these characters or the NUL. -/
def readTo (stopchars : List Char) (ptr : List Char) : List Char :=
  ptr.dropWhile fun c => !(c == nul || stopchars.contains c)

/-- What was read between two positions, as far as a NUL in it. -/
def textBetween (start ptr : List Char) : List Char :=
  cstring (start.take (start.length - ptr.length))

/-- The loop over a comment, its line count and its warnings. -/
def commentLoop (commentstart : ℕ) :
    List Char → ℕ → List ParseMessage → List Char × ℕ × List ParseMessage
  | [], linenumber, messages => ([], linenumber, messages)
  | c :: ptr, linenumber, messages =>
    if c = nul then (c :: ptr, linenumber, messages)
    else if c = '\n' then
      commentLoop commentstart ptr (linenumber + 1) messages
    else if c = '*' ∧ peek ptr = '/' then (ptr, linenumber, messages)
    else if c = '/' ∧ peek ptr = '*' then
      commentLoop commentstart ptr linenumber
        (.nestedComment linenumber commentstart :: messages)
    else commentLoop commentstart ptr linenumber messages

/-- `strchr` of a backslash and the two quotes.  The NUL that ends this string
is found as well. -/
def isEscapable (c : Char) : Bool :=
  c == '\\' || c == '"' || c == quote || c == nul

/-- The characters at which the loop over a quoted string stops.  A string of
an `escaped` entry ends at a single quote, any other at a double quote. -/
def endsQuote (escaped : Bool) (c : Char) : Bool :=
  c == nul || c == '\n' || c == (if escaped then quote else '"')

/-- The loop over a quoted string: the position where it stops. -/
def quoteLoop (escaped : Bool) : List Char → List Char
  | [] => []
  | [c] => if c ≠ '\\' ∧ endsQuote escaped c then [c] else []
  | c :: d :: ptr =>
    if c = '\\' then
      -- the escaped character is taken with its backslash
      if isEscapable d then quoteLoop escaped ptr
      else quoteLoop escaped (d :: ptr)
    else if endsQuote escaped c then c :: d :: ptr
    else quoteLoop escaped (d :: ptr)

/-- The rest of the line. -/
def lineAt (ptr : List Char) : List Char :=
  ptr.takeWhile fun c => !(c == nul || c == '\n')

/-- The `@else` at the current level: flip its condition, or find that it was
flipped before. -/
def flipElse (level : ℤ) : List ConditionalConfig →
    Option (List ConditionalConfig)
  | [] => some []
  | cc :: ccList =>
    if cc.priority = level then
      if cc.hadElse then none
      else some ({ cc with negative := !cc.negative, hadElse := true } ::
        ccList)
    else (flipElse level ccList).map (cc :: ·)

/-! ## The cases of the switch

In each, `ptr` is the position behind the character of the case and `size` is
that of the whole memory, which makes positions out of what is left of it. -/

section Switch

variable (srv : Server) (size : ℕ) (s : ParseState) (ptr : List Char)

/-- `ptr - confdata` at the character of the case. -/
def ParseState.position : ℕ := size - s.ptr.length

def onSemicolon : Flow :=
  match s.curce with
  | none => .inl { s.report (.ignoringSemicolon s.linenumber) with ptr := ptr }
  | some (info, items) =>
    let info := { info with filePositionEnd := s.position size }
    .inl { s.link (info, items) with ptr := ptr }

def onOpenBrace : Flow :=
  match s.curce with
  | none => .inl { s.fail (.sectionWithoutName s.linenumber) with ptr := ptr }
  | some (info, items) =>
    if items ≠ .null then
      .inl { s.fail (.sectionNotEnded s.linenumber) with ptr := ptr }
    else
      let info := { info with sectionLinenumber := s.linenumber }
      .inl { s with
        ptr := ptr
        curce := none
        sections := (info, .null) :: s.sections }

def onCloseBrace : Flow :=
  match s.curce, s.sections with
  | some _, _ => s.returnNull (.missingSemicolonBeforeBrace s.linenumber)
  | none, [] => .inl { s.fail (.extraCloseBrace s.linenumber) with ptr := ptr }
  | none, (info, items) :: sections =>
    let info := { info with filePositionEnd := s.position size }
    let s := { s with sections := sections }
    if peek ptr ≠ ';' then
      .inl { s.link (info, items) with ptr := ptr }
    else
      .inl { s with ptr := ptr, curce := some (info, items) }

/-- A comment up to the end of the line, from behind its mark on. -/
def onLineComment : Flow :=
  let ptr := readTo ['\n'] ptr
  let s := { s with ptr := ptr }
  -- the newline is left for the next iteration
  if peek ptr = nul then .inr s.breakout else .inl s

/-- A comment up to its end mark, from behind its start mark on. -/
def onComment : Flow :=
  let (ptr, linenumber, messages) :=
    commentLoop s.linenumber ptr s.linenumber s.messages
  let later := { s with
    ptr := ptr, linenumber := linenumber, messages := messages }
  if peek ptr = nul then later.returnNull (.commentNotEnded s.linenumber)
  else later.afterSwitch

/-- A name or a value: it starts an entry, or it belongs to the current one.
The flag tells that the entry already has a value. -/
def takeText (text : List Char) (start : ℕ) : ParseState × Bool :=
  match s.curce with
  | none =>
    ({ s with
        curce := some
          (⟨text, none, s.linenumber, start, 0, 0,
            preprocessorCcDuplicateList s.ccList, false⟩, .null) }, false)
  | some (info, items) =>
    if info.value.isSome then (s, true)
    else ({ s with curce := some ({ info with value := some text }, items) },
      false)

/-- Before a quoted string: `case '\''` marks the current entry, and an entry
on an earlier line of a section is ended. -/
def beforeQuote (c : Char) : ParseState :=
  match s.curce with
  | none => s
  | some (info, items) =>
    let info := info.markQuote c
    if info.lineNumber ≠ s.linenumber ∧ s.sections ≠ [] then
      let info' := { info with filePositionEnd := s.position size }
      (s.fail (.missingSemicolonAtEnd info.lineNumber)).link (info', items)
    else
      { s with curce := some (info, items) }

/-- A string of the current entry ends at a single quote. -/
def ParseState.escaped : Bool :=
  match s.curce with
  | none => false
  | some (info, _) => info.escaped

/-- The cases of the two quotes. -/
def onQuote (c : Char) : Flow :=
  let s := beforeQuote size s c
  let stop := quoteLoop s.escaped ptr
  let s := { s with ptr := stop }
  if peek stop = nul ∨ peek stop = '\n' then
    s.returnNull (.unterminatedQuote s.linenumber)
  else
    let text := unrealDelQuotes
      (preprocessorReplaceDefines s.defines (textBetween ptr stop))
    let (s, extra) := takeText s text (size - ptr.length)
    if extra then
      (s.fail (.extraDataQuoted s.linenumber)).afterSwitch
    else
      s.afterSwitch

def onPreprocessorItem : PreprocessorItem → Flow
  | .if cc =>
    let level := s.preprocessorLevel + 1
    ParseState.afterSwitch { s with
      linenumber := s.linenumber + 1
      preprocessorLevel := level
      ccList := { cc with priority := level } :: s.ccList }
  | .else =>
    let s : ParseState := { s with linenumber := s.linenumber + 1 }
    if s.preprocessorLevel = 0 then
      (s.fail (.unexpectedElse s.linenumber)).afterSwitch
    else
      match flipElse s.preprocessorLevel s.ccList with
      | none => .inr (s.fail (.duplicateElse s.linenumber)).breakout
      | some ccList => ParseState.afterSwitch { s with ccList := ccList }
  | .endif =>
    let s : ParseState := { s with linenumber := s.linenumber + 1 }
    let s : ParseState :=
      if s.preprocessorLevel = 0 then s.fail (.unexpectedEndif s.linenumber)
      else s
    ParseState.afterSwitch { s with
      ccList := preprocessorCcFreeLevel s.ccList s.preprocessorLevel
      preprocessorLevel := s.preprocessorLevel - 1 }
  | .error message =>
    let s := s.fail (.preprocessor s.linenumber message)
    .inr { s with linenumber := s.linenumber + 1 }.breakout
  | .userError text =>
    let s := s.fail (.preprocessor s.linenumber (.user text))
    ParseState.afterSwitch { s with linenumber := s.linenumber + 1 }
  | .userWarning text =>
    let s := s.report (.preprocessor s.linenumber (.user text))
    ParseState.afterSwitch { s with linenumber := s.linenumber + 1 }
  | .define defines =>
    ParseState.afterSwitch { s with
      linenumber := s.linenumber + 1, defines := defines }

/-- Inside a false `@if` only the lines that nest are processed. -/
def skipsDirective (resolved : Bool) : Bool :=
  !resolved && !"@if ".toList.isPrefixOf (lineAt s.ptr) &&
    !"@else".toList.isPrefixOf (lineAt s.ptr) &&
    !"@endif".toList.isPrefixOf (lineAt s.ptr)

def onDirective : Flow :=
  let later := { s with ptr := readTo ['\n'] s.ptr }
  match preprocessorResolveIf srv s.defines .initial s.ccList with
  | none => .inr ⟨none, later, true⟩
  | some resolved =>
    if skipsDirective s resolved then
      ParseState.afterSwitch { later with linenumber := s.linenumber + 1 }
    else
      onPreprocessorItem later
        (parsePreprocessorItem srv s.defines (lineAt s.ptr))

/-- The message for a word that runs to the end of the text. -/
def endOfFileMessage : ParseMessage :=
  match s.curce, s.sections with
  | some ce, _ => .endOfFileInEntry ce.1.lineNumber
  | none, (info, _) :: _ => .endOfFileInSection info.sectionLinenumber
  | none, [] => .endOfFile

/-- The default case, a word without quotes. -/
def onWord : Flow :=
  if peek s.ptr = '*' ∧ peek ptr = '/' then
    .inl { s.report (.ignoringEndComment s.linenumber) with ptr := ptr.tail }
  else
    let stop := readTo [' ', '\t', '\n', ';'] s.ptr
    let text := preprocessorReplaceDefines s.defines (textBetween s.ptr stop)
    if peek stop = nul then
      ParseState.returnNull { s with ptr := stop } (endOfFileMessage s)
    else
      let (later, extra) := takeText s text (s.position size)
      let later := if extra then later.fail (.extraData s.linenumber) else later
      -- a semicolon or newline is left for the next iteration
      if peek stop = ';' ∨ peek stop = '\n' then
        .inl { later with ptr := stop }
      else
        .inl { later with ptr := stop.tail }

def onSlash : Flow :=
  if peek ptr = '/' then onLineComment s ptr.tail
  else if peek ptr = '*' then onComment s ptr.tail
  else onWord size s ptr

end Switch

/-! ## The loop -/

/-- The cases of the `switch` on a character. -/
inductive SwitchCase where
  | nul
  | semicolon
  | openBrace
  | closeBrace
  | hash
  | slash
  | quote
  | newline
  | blank
  | «at»
  | default
  deriving DecidableEq, Repr

def switchCase (c : Char) : SwitchCase :=
  if c = nul then .nul
  else if c = ';' then .semicolon
  else if c = '{' then .openBrace
  else if c = '}' then .closeBrace
  else if c = '#' then .hash
  else if c = '/' then .slash
  else if c = quote ∨ c = '"' then .quote
  else if c = '\n' then .newline
  else if c = '\t' ∨ c = ' ' ∨ c = '=' ∨ c = '\r' then .blank
  else if c = '@' then .at
  else .default

/-- One iteration of the character loop. -/
def parseStep (srv : Server) (size : ℕ) (s : ParseState) : Flow :=
  let ptr := s.ptr.tail
  match switchCase (peek s.ptr) with
  | .nul => .inr s.breakout
  | .semicolon => onSemicolon size s ptr
  | .openBrace => onOpenBrace s ptr
  | .closeBrace => onCloseBrace size s ptr
  | .hash => onLineComment s ptr
  | .slash => onSlash size s ptr
  | .quote => onQuote size s ptr (peek s.ptr)
  | .newline => .inl { s with ptr := ptr, linenumber := s.linenumber + 1 }
  | .blank => .inl { s with ptr := ptr }
  | .at => onDirective srv s
  | .default => onWord size s ptr

def replaceCarriageReturns (confdata : List Char) : List Char :=
  (cstring confdata).map (fun c => if c = '\r' then ' ' else c) ++
    confdata.dropWhile (· != nul)

def initialState (defines : Defines) (confdata : List Char)
    (lineOffset : ℕ) : ParseState where
  ptr := replaceCarriageReturns confdata
  linenumber := 1 + lineOffset
  errors := 0
  curce := none
  sections := []
  items := .null
  preprocessorLevel := 0
  ccList := []
  defines := defines
  messages := []

/-- `config_parse_with_offset`.  Every iteration goes forward in the memory, so
this many are enough. -/
def configParseWithOffset (srv : Server) (defines : Defines)
    (confdata : List Char) (lineOffset : ℕ) : Option ParseResult :=
  stepLoop (parseStep srv confdata.length) (confdata.length + 1)
    (initialState defines confdata lineOffset)

end UnrealIrcd.Config
