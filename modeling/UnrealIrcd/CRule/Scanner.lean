import UnrealIrcd.Support.CString

/-!
# The scanner of connection rules

`crule_gettoken` and `crule_getword` of `crule.c`.  The read position
`ruleptr` is the memory from there on: the rest of the rule, its NUL and
whatever follows it, since a quoted word without a closing quote is read past
the NUL.  The memory behind the end of the list counts as NUL.
-/

namespace UnrealIrcd.CRule

def nul : Char := '\x00'

def quote : Char := '\x27'

inductive Token where
  | unknown
  | eof
  | and
  | or
  | not
  | openparen
  | closeparen
  | comma
  | equal
  | lessThan
  | moreThan
  | word
  deriving DecidableEq, Repr

inductive ErrCode where
  | noerr
  | unexpcttok
  | unknwtok
  | expctand
  | expctor
  | expctprim
  | expctopen
  | expctclose
  | unknwfunc
  | argmismat
  | expctvalue
  deriving DecidableEq, Repr

def isWordChar (c : Char) : Bool :=
  c.isAlphanum || c == '*' || c == '?' || c == '.' || c == '-' || c == '_'

def Token.isComparisson (t : Token) : Bool :=
  t == .equal || t == .lessThan || t == .moreThan

/-- One of the characters `&`, `|` and `=`, which make a token when they are
found a second time: the first is remembered as pending. -/
def doubled (c : Char) : Option Token :=
  if c = '&' then some .and
  else if c = '|' then some .or
  else if c = '=' then some .equal
  else none

def single (c : Char) : Option Token :=
  if c = '!' then some .not
  else if c = '(' then some .openparen
  else if c = ')' then some .closeparen
  else if c = '<' then some .lessThan
  else if c = '>' then some .moreThan
  else if c = ',' then some .comma
  else if c = ':' then some .eof
  else none

def cruleGettokenLoop (pending : Option Char) :
    List Char → ErrCode × Token × List Char
  | [] => (.noerr, .eof, [])
  | c :: ruleptr =>
    if c = ' ' ∨ c = '\t' then
      cruleGettokenLoop pending ruleptr
    else
      match doubled c with
      | some token =>
        match pending with
        | none => cruleGettokenLoop (some c) ruleptr
        | some first =>
          if first = c then (.noerr, token, ruleptr)
          else (.unknwtok, .unknown, ruleptr)
      | none =>
        match single c with
        | some token => (.noerr, token, ruleptr)
        | none =>
          if c = nul then (.noerr, .eof, c :: ruleptr)
          else if isWordChar c || c == quote then
            (.noerr, .word, c :: ruleptr)
          else (.unknwtok, .unknown, c :: ruleptr)

def cruleGettoken (ruleptr : List Char) : ErrCode × Token × List Char :=
  cruleGettokenLoop none ruleptr

def peek : List Char → Char
  | [] => nul
  | c :: _ => c

/-- The loop of `crule_getword`: the word and the position behind it. -/
def cruleGetwordLoop (quoted : Bool) :
    ℕ → List Char → List Char × List Char
  | 0, ruleptr => ([], ruleptr)
  | maxlen + 1, ruleptr =>
    if isWordChar (peek ruleptr) || (quoted && peek ruleptr != quote) then
      let later := cruleGetwordLoop quoted maxlen ruleptr.tail
      (peek ruleptr :: later.1, later.2)
    else
      ([], ruleptr)

def cruleGetword (maxlen : ℕ) (ruleptr : List Char) :
    List Char × List Char :=
  if peek ruleptr = quote then
    let word := cruleGetwordLoop true maxlen ruleptr.tail
    (word.1, if peek word.2 = quote then word.2.tail else word.2)
  else
    cruleGetwordLoop false maxlen ruleptr

def crMaxarglen : ℕ := 160

end UnrealIrcd.CRule
