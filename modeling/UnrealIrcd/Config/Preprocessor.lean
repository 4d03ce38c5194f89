import UnrealIrcd.Support.CString

/-!
# The preprocessor of the configuration file

`conf_preprocessor.c`: reading a line such as `@if` or `@define`, and deciding
the conditions of an entry in the three phases of configuration reading.

Module lookup, the files, the environment and the natural order comparison
`strnatcasecmp` are those of a `Server`.  Defines are kept as `add_nvplist`
leaves them, the latest first.
-/

namespace UnrealIrcd.Config

open Support

/-! ## Conditions -/

inductive ConfigIfCondition where
  | defined
  | value
  | moduleLoaded
  | moduleExists
  | minimumVersion
  | fileExists
  | environment
  | moduleVersion
  deriving DecidableEq, Repr

inductive CompareOp where
  | eq
  | ne
  | gt
  | ge
  | lt
  | le
  deriving DecidableEq, Repr

/-- The outcome of a comparison for the result of `strnatcasecmp`. -/
def CompareOp.holds (op : CompareOp) (cmp : ℤ) : Bool :=
  match op with
  | .eq => cmp == 0
  | .ne => cmp != 0
  | .gt => decide (0 < cmp)
  | .ge => decide (0 ≤ cmp)
  | .lt => decide (cmp < 0)
  | .le => decide (cmp ≤ 0)

/-- `ConditionalConfig`: a condition, with the level of its `@if`. -/
structure ConditionalConfig where
  priority : ℤ
  condition : ConfigIfCondition
  negative : Bool
  compareOp : CompareOp
  hadElse : Bool
  name : List Char
  opt : Option (List Char)
  deriving DecidableEq, Repr

inductive PreprocessorPhase where
  | initial
  | secondary
  | module
  deriving DecidableEq, Repr

/-! ## What conditions look at -/

/-- A module, as far as a lookup reads it. -/
structure Module where
  relpath : List Char
  /-- `MODFLAG_DELAYED` is set. -/
  delayed : Bool
  /-- The flags are exactly `MODFLAG_LOADED`. -/
  onlyLoaded : Bool
  version : Option (List Char)

/-- The surroundings of configuration reading. -/
structure Server where
  modules : List Module
  /-- The status is `CONFIG_STATUS_POSTTEST` or later, before the load. -/
  posttest : Bool
  isBlacklistedModule : List Char → Bool
  /-- `file_exists(Module_TransformPath(name))`. -/
  moduleFileExists : List Char → Bool
  /-- `file_exists` of a path below the configuration directory. -/
  configFileExists : List Char → Bool
  getenv : List Char → Option (List Char)
  versionOnly : List Char
  strnatcasecmp : List Char → List Char → ℤ

/-- A server without modules, files and environment variables, which compares
versions only for equality. -/
def bareServer : Server where
  modules := []
  posttest := false
  isBlacklistedModule := fun _ => false
  moduleFileExists := fun _ => false
  configFileExists := fun _ => false
  getenv := fun _ => none
  versionOnly := "6.2.6".toList
  strnatcasecmp := fun a b => if a = b then 0 else 1

def Server.visible (srv : Server) (mod : Module) : Bool :=
  !mod.delayed && !(srv.posttest && mod.onlyLoaded)

def Server.findTestingModule (srv : Server) (name : List Char) :
    Option Module :=
  srv.modules.find? fun mod =>
    srv.visible mod && strcasecmpEq mod.relpath name

def Server.isModuleLoaded (srv : Server) (name : List Char) : Bool :=
  srv.modules.any fun mod => srv.visible mod && strcasecmpEq mod.relpath name

/-- `config_defines`: names without the dollar sign, and their values. -/
abbrev Defines := List (List Char × Option (List Char))

/-- `add_nvplist` with priority 0; an empty value is not stored. -/
def addNvplist (defines : Defines) (name value : List Char) : Defines :=
  (name, if value = [] then none else some value) :: defines

/-- `find_config_define`: the first define of a name. -/
def findConfigDefine (defines : Defines) (name : List Char) :
    Option (List Char × Option (List Char)) :=
  defines.find? fun d => strcasecmpEq d.1 name

def getConfigDefine (defines : Defines) (name : List Char) :
    Option (List Char) :=
  (findConfigDefine defines name).bind Prod.snd

/-! ## Deciding conditions -/

/-- The result of one condition in `preprocessor_resolve_if`, before
`negative` is looked at.  There is none where `strnatcasecmp` is called with a
define that has no value, a NULL pointer. -/
def conditionResult (srv : Server) (defines : Defines)
    (phase : PreprocessorPhase) (cc : ConditionalConfig) : Option Bool :=
  match cc.condition with
  | .moduleLoaded =>
    match phase with
    | .initial => some true
    | .secondary => some (!srv.isBlacklistedModule cc.name)
    | .module => some (srv.isModuleLoaded cc.name)
  | .moduleVersion =>
    match phase with
    | .initial => some true
    | .secondary => some true
    | .module =>
      match (srv.findTestingModule cc.name).bind Module.version with
      | none => some false
      | some version =>
        match cc.opt with
        | none => some true
        | some opt => some (cc.compareOp.holds (srv.strnatcasecmp version opt))
  | .moduleExists => some (srv.moduleFileExists cc.name)
  | .minimumVersion =>
    some (decide (0 ≤ srv.strnatcasecmp srv.versionOnly cc.name))
  | .fileExists => some (srv.configFileExists cc.name)
  | .defined => some (findConfigDefine defines cc.name).isSome
  | .environment =>
    match srv.getenv cc.name with
    | none => some false
    | some env =>
      match cc.opt with
      | none => some true
      | some opt => some (cc.compareOp.holds (srv.strnatcasecmp env opt))
  | .value =>
    match findConfigDefine defines cc.name with
    | none => some false
    | some d =>
      d.2.map fun value =>
        cc.compareOp.holds (srv.strnatcasecmp value (cc.opt.getD []))

/-- `preprocessor_resolve_if`: all conditions must be true, and those behind a
false one are not looked at. -/
def preprocessorResolveIf (srv : Server) (defines : Defines)
    (phase : PreprocessorPhase) : List ConditionalConfig → Option Bool
  | [] => some true
  | cc :: ccList =>
    match conditionResult srv defines phase cc with
    | none => none
    | some result =>
      if cc.negative ^^ result then
        preprocessorResolveIf srv defines phase ccList
      else some false

section NoValue

variable {srv : Server} {defines : Defines} {phase : PreprocessorPhase}

theorem exists_noValue_of_conditionResult {cc : ConditionalConfig}
    (h : conditionResult srv defines phase cc = none) :
    ∃ d ∈ defines, d.2 = none := by
  unfold conditionResult at h
  cases hcondition : cc.condition with
  | value =>
    simp only [hcondition] at h
    split at h
    · cases h
    · next d hfind =>
        exact ⟨d, List.mem_of_find?_eq_some hfind, Option.map_eq_none_iff.mp h⟩
  | defined | moduleExists | minimumVersion | fileExists =>
    simp only [hcondition] at h
    cases h
  | moduleLoaded | environment | moduleVersion =>
    simp only [hcondition] at h
    repeat' split at h
    all_goals cases h

/-- A NULL pointer is read only if some define has no value. -/
theorem exists_noValue_of_resolveIf {ccList : List ConditionalConfig}
    (h : preprocessorResolveIf srv defines phase ccList = none) :
    ∃ d ∈ defines, d.2 = none := by
  induction ccList with
  | nil => cases h
  | cons cc ccList ih =>
    rw [preprocessorResolveIf] at h
    split at h
    · next hresult => exact exists_noValue_of_conditionResult hresult
    · split at h
      · exact ih h
      · cases h

end NoValue

/-! ## Lists of conditions -/

def preprocessorCcFreeLevel (ccList : List ConditionalConfig) (level : ℤ) :
    List ConditionalConfig :=
  ccList.filter fun cc => !decide (level ≤ cc.priority)

/-- `preprocessor_cc_duplicate_list`: each copy is put in front of the list. -/
def preprocessorCcDuplicateList (ccList : List ConditionalConfig) :
    List ConditionalConfig :=
  ccList.reverse

/-! ## Messages -/

inductive PreprocessorMessage where
  | expectedOperator (statement : List Char)
  | ifMissingQuote
  | expectedParen (funcname : List Char)
  | terminationError (statement : List Char)
  | negativeFunction (funcname statement : List Char)
  | invalidIf (statement : List Char)
  | negativeVariable (statement : List Char)
  | noReturnValue (funcname : List Char)
  | defineExpectedParen (funcname : List Char)
  | defineTermination (statement : List Char)
  | environmentNotSet (arg : List Char)
  | moduleNotLoaded (arg : List Char)
  | moduleWithoutVersion (arg : List Char)
  | unhandledFunction (funcname : List Char)
  | expectedValue (statement : List Char)
  | invalidDefine
  | defineMissingQuote
  | defineWithoutDollar
  | illegalCharacter (c : Char)
  | valueTooLarge (length : ℕ)
  | unknownDirective (line : List Char)
  | user (text : List Char)
  deriving DecidableEq, Repr

/-! ## Reading a line -/

def skipWhitespace (p : List Char) : List Char :=
  p.dropWhile fun c => c == ' ' || c == '\t'

/-- `read_until`, with the characters read over. -/
def readUntil (stopchars : List Char) (p : List Char) :
    List Char × List Char :=
  p.span fun c => !stopchars.contains c

def skipChar (c : Char) (p : List Char) : List Char :=
  if p.head? = some c then p.tail else p

/-- What a statement is after a NUL was written where `rest` starts. -/
def cutAt (statement rest : List Char) : List Char :=
  statement.take (statement.length - rest.length)

structure IfFunction where
  keyword : List Char
  condition : ConfigIfCondition
  returnsValue : Bool

def ifFunctions : List IfFunction :=
  [⟨"module-loaded".toList, .moduleLoaded, false⟩,
    ⟨"module-exists".toList, .moduleExists, false⟩,
    ⟨"minimum-version".toList, .minimumVersion, false⟩,
    ⟨"file-exists".toList, .fileExists, false⟩,
    ⟨"module-version".toList, .moduleVersion, true⟩,
    ⟨"environment".toList, .environment, true⟩,
    ⟨"defined".toList, .defined, false⟩]

def validVarCharacter (c : Char) : Bool :=
  c.isUpper || c.isDigit || c == '_'

/-- The operator at the start of a string and what follows it. -/
def readCompareOp : List Char → Option (CompareOp × List Char)
  | '=' :: '=' :: p => some (.eq, p)
  | '!' :: '=' :: p => some (.ne, p)
  | '>' :: '=' :: p => some (.ge, p)
  | '<' :: '=' :: p => some (.le, p)
  | '>' :: p => some (.gt, p)
  | '<' :: p => some (.lt, p)
  | _ => none

def parseCompareOpAndValue (p statement : List Char) :
    Except PreprocessorMessage (CompareOp × List Char) :=
  match readCompareOp (skipWhitespace p) with
  | none => .error (.expectedOperator statement)
  | some (op, p) =>
    let p := skipWhitespace p
    if p.head? = some '"' then
      let (value, rest) := readUntil ['"'] p.tail
      if rest = [] then .error .ifMissingQuote else .ok (op, value)
    else
      .ok (op, (readUntil [' ', '\t'] p).1)

/-- The argument of a function, `("argument")`, and the string from the
character that ended it on. -/
def readArgument (p : List Char) : List Char × List Char :=
  readUntil [')', '"'] (skipChar '"' (skipWhitespace p))

def parseIfFunction (p : List Char) (function : IfFunction) (negative : Bool)
    (statement : List Char) : Except PreprocessorMessage ConditionalConfig :=
  let p := skipWhitespace p
  if p.head? = some '(' then
    let (name, rest) := readArgument p.tail
    if rest = [] then
      .error (.terminationError statement)
    else
      let cc : ConditionalConfig :=
        ⟨0, function.condition, negative, .eq, false, name, none⟩
      -- the end of the name has been overwritten by a NUL
      let statement := cutAt statement rest
      let p := skipWhitespace (skipChar ')' rest.tail)
      if function.returnsValue ∧ p ≠ [] then
        if negative then
          .error (.negativeFunction function.keyword statement)
        else
          match parseCompareOpAndValue p statement with
          | .error message => .error message
          | .ok (op, value) =>
            .ok { cc with compareOp := op, opt := some value }
      else
        .ok cc
  else
    .error (.expectedParen function.keyword)

def findIfFunction (p : List Char) : Option IfFunction :=
  ifFunctions.find? fun function => function.keyword.isPrefixOf p

/-- `evaluate_preprocessor_if`: the text behind `@if`. -/
def evaluatePreprocessorIf (statement : List Char) :
    Except PreprocessorMessage ConditionalConfig :=
  let p := skipChar '@' (skipWhitespace statement)
  let negative := p.head? == some '!'
  let p := if negative then skipWhitespace p.tail else p
  match findIfFunction p with
  | some function =>
    parseIfFunction (p.drop function.keyword.length) function negative
      statement
  | none =>
    if p.head? ≠ some '$' then
      .error (.invalidIf statement)
    else if negative then
      .error (.negativeVariable statement)
    else
      let (name, rest) := readUntil [' ', '\t', '=', '!', '<', '>'] p.tail
      if rest = [] then
        .error (.terminationError statement)
      else
        match parseCompareOpAndValue rest statement with
        | .error message => .error message
        | .ok (op, value) =>
          .ok ⟨0, .value, false, op, false, name, some value⟩

def resolveDefineFunction (srv : Server) (p statement : List Char) :
    Except PreprocessorMessage (List Char) :=
  match findIfFunction p with
  | none => .error (.expectedValue statement)
  | some function =>
    if !function.returnsValue then
      .error (.noReturnValue function.keyword)
    else
      let p := skipWhitespace (p.drop function.keyword.length)
      if p.head? = some '(' then
        let (arg, rest) := readArgument p.tail
        if rest = [] then
          .error (.defineTermination statement)
        else
          match function.condition with
          | .environment =>
            match srv.getenv arg with
            | none => .error (.environmentNotSet arg)
            | some env => .ok env
          | .moduleVersion =>
            match srv.findTestingModule arg with
            | none => .error (.moduleNotLoaded arg)
            | some mod =>
              match mod.version with
              | none => .error (.moduleWithoutVersion arg)
              | some version => .ok version
          | _ => .error (.unhandledFunction function.keyword)
      else
        .error (.defineExpectedParen function.keyword)

/-- The value of a `@define`: a literal string or a function. -/
def readDefineValue (srv : Server) (p statement : List Char) :
    Except PreprocessorMessage (List Char) :=
  if p.head? = some '"' then
    let (value, rest) := readUntil ['"'] p.tail
    if rest = [] then .error .defineMissingQuote else .ok value
  else
    resolveDefineFunction srv p statement

/-- `evaluate_preprocessor_define`: the text behind `@define`. -/
def evaluatePreprocessorDefine (srv : Server) (defines : Defines)
    (statement : List Char) : Except PreprocessorMessage Defines :=
  let (name, rest) := readUntil [' ', '\t'] (skipWhitespace statement)
  if rest = [] then
    .error .invalidDefine
  else
    match readDefineValue srv (skipWhitespace rest) (cutAt statement rest) with
    | .error message => .error message
    | .ok value =>
      if name.head? ≠ some '$' then
        .error .defineWithoutDollar
      else
        match name.tail.find? fun c => !validVarCharacter c with
        | some c => .error (.illegalCharacter c)
        | none =>
          if 512 < value.length then
            .error (.valueTooLarge value.length)
          else
            .ok (addNvplist defines name.tail value)

def userMessage (statement : List Char) : List Char :=
  let p := skipWhitespace statement
  if p.head? = some '"' then (readUntil ['"'] p.tail).1 else p

inductive PreprocessorItem where
  | error (message : PreprocessorMessage)
  | define (defines : Defines)
  | «if» (cc : ConditionalConfig)
  | endif
  | «else»
  | userError (text : List Char)
  | userWarning (text : List Char)
  deriving DecidableEq

/-- `parse_preprocessor_item`, for the line up to its newline. -/
def parsePreprocessorItem (srv : Server) (defines : Defines)
    (line : List Char) : PreprocessorItem :=
  let buf := line.take 511
  if "@define".toList.isPrefixOf buf then
    match evaluatePreprocessorDefine srv defines (buf.drop 7) with
    | .error message => .error message
    | .ok defines => .define defines
  else if "@if ".toList.isPrefixOf buf then
    match evaluatePreprocessorIf (buf.drop 4) with
    | .error message => .error message
    | .ok cc => .if cc
  else if "@else".toList.isPrefixOf buf then .else
  else if "@endif".toList.isPrefixOf buf then .endif
  else if "@error ".toList.isPrefixOf buf then
    .userError (userMessage (buf.drop 7))
  else if "@warning ".toList.isPrefixOf buf then
    .userWarning (userMessage (buf.drop 9))
  else .error (.unknownDirective buf)

/-! ## Replacing defines -/

/-- The loop of `preprocessor_replace_defines`, with `n` bytes left in the
output buffer. -/
def replaceDefinesLoop (defines : Defines) :
    ℕ → ℕ → List Char → List Char
  | 0, _, _ => []
  | _ + 1, _, [] => []
  | fuel + 1, n, c :: i =>
    if c ≠ '$' then
      c :: if n - 1 = 0 then [] else replaceDefinesLoop defines fuel (n - 1) i
    else
      let (name, rest) := i.span validVarCharacter
      let varname := ('$' :: name).take 511
      -- two dollar signs stand for one
      let value :=
        if i.head? = some '$' then ['$']
        else (getConfigDefine defines varname.tail).getD varname
      let limit := min (value.length + 1) n
      let next := if i.head? = some '$' then rest.tail else rest
      value.take (limit - 1) ++
        if n - limit = 0 ∨ rest = [] then []
        else replaceDefinesLoop defines fuel (n - limit) next

def preprocessorReplaceDefines (defines : Defines) (item : List Char) :
    List Char :=
  if '$' ∈ item then replaceDefinesLoop defines item.length 4094 item else item

end UnrealIrcd.Config
