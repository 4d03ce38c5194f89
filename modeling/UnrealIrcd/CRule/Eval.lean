import UnrealIrcd.CRule.Grammar

/-!
# Evaluation of connection rules

`crule_eval` of `crule.c`, and what an expression of the documented grammar
means.  What a function of the table returns depends on the client, so the
model takes the return values as given.
-/

namespace UnrealIrcd.CRule

open Support

/-- What the functions return for their arguments. -/
abbrev FuncValues : Type := FuncListEnt → List (List Char) → ℤ

def ofBool (b : Bool) : ℤ := if b then 1 else 0

/-- The end of `crule_eval`: the comparison of the return value. -/
def funcTestResult (ret : ℤ) : Option (Token × ℤ) → ℤ
  | some (.equal, value) => ofBool (ret == value)
  | some (.lessThan, value) => ofBool (decide (ret < value))
  | some (.moreThan, value) => ofBool (decide (ret > value))
  | _ => ret

/-- `crule__andor` on the results of its operands.  The second one is only
looked at if it matters. -/
def andorResult (isOr : Bool) : Option ℤ → Option ℤ → Option ℤ
  | none, _ => none
  | some result1, second =>
    if (result1 != 0) = isOr then some (ofBool isOr)
    else second.map fun result2 => ofBool (result2 != 0)

/-- `crule_eval`.  There is no result if a NULL pointer is followed: an operand
that is missing, or the function of a call that was not completed. -/
def cruleEval (funcs : FuncValues) : CRuleNode → Option ℤ
  | .func none _ _ => none
  | .func (some func) args funcTest =>
    some (funcTestResult (funcs func args) funcTest)
  | .not none => none
  | .not (some arg) =>
    (cruleEval funcs arg).map fun result => ofBool (result == 0)
  | .andor _ none _ => none
  | .andor isOr (some arg0) none => andorResult isOr (cruleEval funcs arg0) none
  | .andor isOr (some arg0) (some arg1) =>
    andorResult isOr (cruleEval funcs arg0) (cruleEval funcs arg1)

/-! ## The meaning of an expression -/

inductive CompareOp where
  | equal
  | lessThan
  | moreThan
  deriving DecidableEq, Repr

def CompareOp.token : CompareOp → Token
  | .equal => .equal
  | .lessThan => .lessThan
  | .moreThan => .moreThan

def CompareOp.holds : CompareOp → ℤ → ℤ → Bool
  | .equal, m, n => decide (m = n)
  | .lessThan, m, n => decide (m < n)
  | .moreThan, m, n => decide (m > n)

inductive Expr where
  | call (func : FuncListEnt) (args : List (List Char))
  | compare (func : FuncListEnt) (args : List (List Char)) (op : CompareOp)
      (value : ℤ)
  | not (e : Expr)
  | and (e e' : Expr)
  | or (e e' : Expr)
  deriving DecidableEq, Repr

def Expr.value (funcs : FuncValues) : Expr → Bool
  | .call func args => decide (funcs func args ≠ 0)
  | .compare func args op value => op.holds (funcs func args) value
  | .not e => !e.value funcs
  | .and e e' => e.value funcs && e'.value funcs
  | .or e e' => e.value funcs || e'.value funcs

def argLexemes : List (List Char) → List Lexeme
  | [] => []
  | [w] => [.word w]
  | w :: args => .word w :: .op .comma :: argLexemes args

/-- A call of a function that exists, with arguments within the limits.  The
name may be written in any case. -/
structure ValidCall (func : FuncListEnt) (name : List Char)
    (args : List (List Char)) : Prop where
  mem : func ∈ cruleFunclist
  name : name.map Char.toLower = func.name.toList.map Char.toLower
  count : func.reqnumargs = args.length
  arg_ne_nil : ∀ w ∈ args, w ≠ []
  arg_length : ∀ w ∈ args, w.length < crMaxarglen

/-- The text of a number within the limits: digits, with a minus in front of a
negative one. -/
structure IsNumber (text : List Char) (value : ℤ) : Prop where
  digits : ∃ digits : List Char, digits ≠ [] ∧
    (∀ c ∈ digits, c.isDigit = true) ∧
      ((text = digits ∧ value = digitsValue digits) ∨
        (text = '-' :: digits ∧ value = -(digitsValue digits : ℤ)))
  length : text.length < crMaxarglen
  lower : -2 ^ 31 ≤ value
  upper : value < 2 ^ 31

/-- How an expression is written, by the productions of the documented grammar.
A comparison belongs to its call, and parentheses are free. -/
inductive Writes : Nonterminal → Expr → List Lexeme → Prop where
  | orSingle {e : Expr} {ls : List Lexeme} (h : Writes .andexpr e ls) :
      Writes .orexpr e ls
  | orMore {e e' : Expr} {ls ls' : List Lexeme} (h : Writes .andexpr e ls)
      (h' : Writes .orexpr e' ls') :
      Writes .orexpr (.or e e') (ls ++ .op .or :: ls')
  | andSingle {e : Expr} {ls : List Lexeme} (h : Writes .primary e ls) :
      Writes .andexpr e ls
  | andMore {e e' : Expr} {ls ls' : List Lexeme} (h : Writes .primary e ls)
      (h' : Writes .andexpr e' ls') :
      Writes .andexpr (.and e e') (ls ++ .op .and :: ls')
  | call {func : FuncListEnt} {name : List Char} {args : List (List Char)}
      (h : ValidCall func name args) :
      Writes .primary (.call func args) (.word name :: .op .openparen ::
        (argLexemes args ++ [.op .closeparen]))
  | compare {func : FuncListEnt} {name : List Char} {args : List (List Char)}
      (h : ValidCall func name args) (op : CompareOp) {text : List Char}
      {value : ℤ} (hvalue : IsNumber text value) :
      Writes .primary (.compare func args op value)
        (.word name :: .op .openparen ::
          (argLexemes args ++ [.op .closeparen, .op op.token, .word text]))
  | not {e : Expr} {ls : List Lexeme} (h : Writes .primary e ls) :
      Writes .primary (.not e) (.op .not :: ls)
  | parens {e : Expr} {ls : List Lexeme} (h : Writes .orexpr e ls) :
      Writes .primary e (.op .openparen :: (ls ++ [.op .closeparen]))

end UnrealIrcd.CRule
