import UnrealIrcd.CRule.Scanner
import UnrealIrcd.Support.Decimal

/-!
# The parser of connection rules

The recursive descent parser of `crule.c`.  The parsing functions share the
next token and the read position, and hand back an error code and a node that
may be NULL, so this is what they take and return here.  The loops and the
recursion between the functions take a bound on their depth;
`parseRule_isSome` shows that the bound used is never reached.
-/

namespace UnrealIrcd.CRule

open Support

/-- A function that rules can call, with the number of its arguments. -/
structure FuncListEnt where
  name : String
  reqnumargs : ℤ
  deriving DecidableEq, Repr

def cruleFunclist : List FuncListEnt :=
  [⟨"bytes_received", 0⟩, ⟨"bytes_sent", 0⟩, ⟨"cap_set", 1⟩,
    ⟨"cap_version", 0⟩, ⟨"channel_count", 0⟩, ⟨"channel_member_count", 0⟩,
    ⟨"connected", 1⟩, ⟨"connections_from_ip", 0⟩, ⟨"destination", 1⟩,
    ⟨"digit_percentage", 0⟩, ⟨"directcon", 1⟩, ⟨"directop", 0⟩,
    ⟨"has_channel_mode", 1⟩, ⟨"has_swhois", 0⟩, ⟨"has_user_mode", 1⟩,
    ⟨"idle_time", 0⟩, ⟨"in_channel", 1⟩, ⟨"in_security_group", 1⟩,
    ⟨"inchannel", 1⟩, ⟨"is_away", 0⟩, ⟨"is_identified", 0⟩, ⟨"is_local", 0⟩,
    ⟨"is_oper", 0⟩, ⟨"is_tls", 0⟩, ⟨"is_webirc", 0⟩, ⟨"is_websocket", 0⟩,
    ⟨"match_account", 1⟩, ⟨"match_asn", 1⟩, ⟨"match_asname", 1⟩,
    ⟨"match_away", 1⟩, ⟨"match_certfp", 1⟩, ⟨"match_class", 1⟩,
    ⟨"match_country", 1⟩, ⟨"match_ip", 1⟩, ⟨"match_mask", 1⟩,
    ⟨"match_operclass", 1⟩, ⟨"match_operlogin", 1⟩, ⟨"match_realhost", 1⟩,
    ⟨"match_realname", 1⟩, ⟨"match_server", 1⟩, ⟨"match_sni", 1⟩,
    ⟨"match_tls_cipher", 1⟩, ⟨"match_vhost", 1⟩, ⟨"max_repeat_count", 0⟩,
    ⟨"messages_received", 0⟩, ⟨"messages_sent", 0⟩, ⟨"mixed_utf8_score", 0⟩,
    ⟨"non_ascii_percentage", 0⟩, ⟨"online_time", 0⟩, ⟨"reputation", 0⟩,
    ⟨"server_flood_count", 1⟩, ⟨"server_port", 0⟩, ⟨"tag", 1⟩,
    ⟨"text_byte_count", 0⟩, ⟨"text_character_count", 0⟩,
    ⟨"total_channel_flood_count", 1⟩, ⟨"unicode_block_count", 0⟩,
    ⟨"unicode_count", 1⟩, ⟨"uppercase_percentage", 0⟩, ⟨"via", 2⟩,
    ⟨"word_count", 0⟩]

def cruleFunclistFind (funcname : List Char) : Option FuncListEnt :=
  bsearch (fun entry => strcasecmp funcname entry.name.toList) cruleFunclist

/-- A node of a rule: a function call with its arguments and an optional
comparison, a negation, or a conjunction or disjunction.  A NULL operand is
`none`. -/
inductive CRuleNode where
  | func (funcptr : Option FuncListEnt) (args : List (List Char))
      (funcTest : Option (Token × ℤ))
  | not (arg : Option CRuleNode)
  | andor (isOr : Bool) (arg0 arg1 : Option CRuleNode)

structure ParseResult where
  errcode : ErrCode
  node : Option CRuleNode
  nextTok : Token
  ruleptr : List Char

structure ArgResult where
  errcode : ErrCode
  args : List (List Char)
  nextTok : Token
  ruleptr : List Char

/-- `crule_gettoken` as the parser uses it: go on with the next token, or
leave with the error. -/
def nextToken {β : Type} (ruleptr : List Char)
    (fail : ErrCode → Token → List Char → β)
    (next : Token → List Char → β) : β :=
  match cruleGettoken ruleptr with
  | (.noerr, nextTok, ruleptr) => next nextTok ruleptr
  | (e, nextTok, ruleptr) => fail e nextTok ruleptr

/-- A property of the outcome that no error has comes from a next token. -/
theorem nextToken_elim {β : Type} {P : β → Prop} {p : List Char}
    {fail : ErrCode → Token → List Char → β} {next : Token → List Char → β}
    (h : P (nextToken p fail next))
    (hfail : ∀ e t p', e ≠ .noerr → ¬ P (fail e t p')) :
    ∃ t p', cruleGettoken p = (.noerr, t, p') ∧ P (next t p') := by
  unfold nextToken at h
  split at h
  next t p' hnext => exact ⟨t, p', hnext, h⟩
  next e t p' herr hnext => exact absurd h (hfail e t p' herr)

/-! ## Functions -/

/-- A word is added to the current argument: words in a row are joined by a
space, and one that does not fit is dropped. -/
def addWord (currarg : List Char) (arglen : ℕ) (word : List Char) :
    List Char × ℕ :=
  if currarg ≠ [] then
    if arglen + word.length < crMaxarglen - 1 then
      (currarg ++ ' ' :: cstring word, arglen + word.length + 1)
    else
      (currarg, arglen)
  else
    (cstring word, word.length)

/-- The current argument is complete.  It is not counted if it has no
character. -/
def addArg (args : List (List Char)) (currarg : List Char) :
    List (List Char) :=
  if currarg ≠ [] then args ++ [currarg] else args

def cruleParsearglistLoop :
    ℕ → List (List Char) → List Char → ℕ → Token → List Char →
      Option ArgResult
  | 0, _, _, _, _, _ => none
  | fuel + 1, args, currarg, arglen, nextTok, ruleptr =>
    if nextTok = .word then
      let word := cruleGetword (crMaxarglen - 1) ruleptr
      let arg := addWord currarg arglen word.1
      nextToken word.2 (fun e t p => some ⟨e, args, t, p⟩)
        fun t p => cruleParsearglistLoop fuel args arg.1 arg.2 t p
    else if nextTok ≠ .comma then
      some ⟨.noerr, addArg args currarg, nextTok, ruleptr⟩
    else
      nextToken ruleptr
        (fun e t p => some ⟨e, addArg args currarg, t, p⟩)
        fun t p => cruleParsearglistLoop fuel (addArg args currarg) []
          arglen t p

def cruleParsearglist (nextTok : Token) (ruleptr : List Char) :
    Option ArgResult :=
  cruleParsearglistLoop (2 * ruleptr.length + 2) [] [] 0 nextTok ruleptr

/-- A call that is not completed: its function is not set yet. -/
def abortedCall (args : List (List Char)) : Option CRuleNode :=
  some (.func none args none)

/-- The end of `crule_parsefunction`: an optional comparison with a value. -/
def cruleParseComparisson
    (func : FuncListEnt) (args : List (List Char)) (nextTok : Token)
    (ruleptr : List Char) : ParseResult :=
  if nextTok.isComparisson then
    nextToken ruleptr (fun e t p => ⟨e, abortedCall args, t, p⟩)
      fun valueTok p =>
        if valueTok ≠ .word then
          ⟨.expctvalue, abortedCall args, valueTok, p⟩
        else
          let value := cruleGetword (crMaxarglen - 1) p
          nextToken value.2 (fun e t p => ⟨e, abortedCall args, t, p⟩)
            fun t p => ⟨.noerr, some (.func (some func) args
              (some (nextTok, atoi (cstring value.1)))), t, p⟩
  else
    ⟨.noerr, some (.func (some func) args none), nextTok, ruleptr⟩

/-- The middle of `crule_parsefunction`: the argument list of a known
function. -/
def cruleParseArguments (func : FuncListEnt) (ruleptr : List Char) :
    Option ParseResult :=
  nextToken ruleptr (fun e t p => some ⟨e, none, t, p⟩)
    fun t p =>
      match cruleParsearglist t p with
      | none => none
      | some r =>
        if r.errcode ≠ .noerr then
          some ⟨r.errcode, abortedCall r.args, r.nextTok, r.ruleptr⟩
        else if r.nextTok ≠ .closeparen then
          some ⟨.expctclose, abortedCall r.args, r.nextTok, r.ruleptr⟩
        else if func.reqnumargs ≠ r.args.length ∧ func.reqnumargs ≠ -1 then
          some ⟨.argmismat, abortedCall r.args, r.nextTok, r.ruleptr⟩
        else
          nextToken r.ruleptr
            (fun e t p => some ⟨e, abortedCall r.args, t, p⟩)
            fun t p => some (cruleParseComparisson func r.args t p)

def cruleParsefunction (ruleptr : List Char) : Option ParseResult :=
  let funcname := cruleGetword (crMaxarglen - 1) ruleptr
  nextToken funcname.2 (fun e t p => some ⟨e, none, t, p⟩)
    fun t p =>
      if t = .openparen then
        match cruleFunclistFind (cstring funcname.1) with
        | none => some ⟨.unknwfunc, none, t, p⟩
        | some func => cruleParseArguments func p
      else
        some ⟨.expctopen, none, t, p⟩

/-! ## Expressions -/

/-- The operator node that is complete once its second operand is known; with
no operator before it the operand stands for itself. -/
def completeNode (isOr : Bool) (root : Option (Option CRuleNode))
    (node : Option CRuleNode) : Option CRuleNode :=
  match root with
  | none => node
  | some arg0 => some (.andor isOr arg0 node)

/-- The common loop of `crule_parseorexpr` and `crule_parseandexpr`: operands
parsed by `parseOperand`, joined by the operator `op`.  `root` is the first
operand of the operator node in progress, if there is one. -/
def parseOperators
    (op : Token) (isOr : Bool) (missing : ErrCode)
    (parseOperand : Token → List Char → Option ParseResult) :
    ℕ → Option (Option CRuleNode) → Token → List Char → Option ParseResult
  | 0, _, _, _ => none
  | fuel + 1, root, nextTok, ruleptr =>
    match parseOperand nextTok ruleptr with
    | none => none
    | some r =>
      if r.errcode = .noerr ∧ r.nextTok = op then
        let arg0 := completeNode isOr root r.node
        nextToken r.ruleptr
          (fun e t p => some ⟨e, some (.andor isOr arg0 none), t, p⟩)
          fun t p => parseOperators op isOr missing parseOperand fuel
            (some arg0) t p
      else
        match root with
        | none => some r
        | some arg0 =>
          if r.node.isSome then
            some { r with node := some (.andor isOr arg0 r.node) }
          else
            some { r with
              errcode := missing
              node := some (.andor isOr arg0 none) }

def negated : ℕ → Option CRuleNode → Option CRuleNode
  | 0, node => node
  | nots + 1, node => some (.not (negated nots node))

/-- The or expression whose primaries are parsed by `parsePrimary`. -/
def parseOrExprWith
    (parsePrimary : Token → List Char → Option ParseResult) (fuel : ℕ)
    (nextTok : Token) (ruleptr : List Char) : Option ParseResult :=
  parseOperators .or true .expctand
    (parseOperators .and false .expctprim parsePrimary fuel none)
    fuel none nextTok ruleptr

/-- The loop of `crule_parseprimary` behind `nots` negations. -/
def cruleParseprimary : ℕ → ℕ → Token → List Char → Option ParseResult
  | 0, _, _, _ => none
  | fuel + 1, nots, nextTok, ruleptr =>
    match nextTok with
    | .openparen =>
      nextToken ruleptr
        (fun e t p => some ⟨e, negated nots none, t, p⟩)
        fun t p =>
          match parseOrExprWith (cruleParseprimary fuel 0) fuel t p with
          | none => none
          | some r =>
            let node := negated nots r.node
            if r.errcode ≠ .noerr then
              some { r with node := node }
            else if r.node.isNone then
              some { r with errcode := .expctand, node := node }
            else if r.nextTok ≠ .closeparen then
              some { r with errcode := .expctclose, node := node }
            else
              nextToken r.ruleptr (fun e t p => some ⟨e, node, t, p⟩)
                fun t p => some ⟨.noerr, node, t, p⟩
    | .not =>
      nextToken ruleptr
        (fun e t p => some ⟨e, negated (nots + 1) none, t, p⟩)
        fun t p => cruleParseprimary fuel (nots + 1) t p
    | .word =>
      match cruleParsefunction ruleptr with
      | none => none
      | some r => some { r with node := negated nots r.node }
    | _ =>
      some ⟨if nots = 0 then .noerr else .expctprim, negated nots none,
        nextTok, ruleptr⟩

theorem cruleParseprimary_other {t : Token} (hopen : t ≠ .openparen)
    (hnot : t ≠ .not) (hword : t ≠ .word) (fuel nots : ℕ) (p : List Char) :
    cruleParseprimary (fuel + 1) nots t p =
      some ⟨if nots = 0 then .noerr else .expctprim, negated nots none, t,
        p⟩ := by
  cases t <;> first | contradiction | rfl

def cruleParseandexpr (fuel : ℕ) (nextTok : Token) (ruleptr : List Char) :
    Option ParseResult :=
  parseOperators .and false .expctprim (cruleParseprimary fuel 0) fuel none
    nextTok ruleptr

def cruleParseorexpr (fuel : ℕ) (nextTok : Token) (ruleptr : List Char) :
    Option ParseResult :=
  parseOperators .or true .expctand (cruleParseandexpr fuel) fuel none nextTok
    ruleptr

/-! ## Rules -/

/-- The common part of `crule_parse` and `crule_test`: the error code, and the
tree if there was no error. -/
def parseRule (rule : List Char) : Option (ErrCode × Option CRuleNode) :=
  nextToken rule (fun e _ _ => some (e, none))
    fun t p =>
      match cruleParseorexpr (2 * rule.length + 2) t p with
      | none => none
      | some r =>
        if r.errcode ≠ .noerr then some (r.errcode, none)
        else
          match r.node with
          | none => some (.expctor, none)
          | some node =>
            if r.nextTok = .eof then some (.noerr, some node)
            else some (.unexpcttok, none)

/-- The memory that `rule` points to: the string, its NUL and what follows. -/
def memoryOf (rule after : List Char) : List Char := rule ++ nul :: after

/-- `crule_parse`: the tree, or NULL. -/
def cruleParse (rule after : List Char) : Option CRuleNode :=
  (parseRule (memoryOf rule after)).bind Prod.snd

/-- `crule_test`: 0 if the rule is accepted, else one more than the position
of the error code. -/
def cruleTest (rule after : List Char) : ℕ :=
  match parseRule (memoryOf rule after) with
  | some (.noerr, some _) => 0
  | some (e, _) => e.ctorIdx + 1
  | none => 1

end UnrealIrcd.CRule
