import UnrealIrcd.CRule.Eval
import UnrealIrcd.CRule.Soundness
import UnrealIrcd.CRule.Termination

/-!
# Completeness of the parser of connection rules

Every text of an expression is parsed, and the tree evaluates to the value of
the expression.
-/

namespace UnrealIrcd.CRule

open Support List

/-! ## Reading lexemes -/

variable {t t' : Token} {p p' : List Char}

/-- What is read is read one part after the other. -/
theorem Scans.split {ls ls' : List Lexeme} (h : Scans t p (ls ++ ls') t' p') :
    ∃ t₁ p₁, Scans t p ls t₁ p₁ ∧ Scans t₁ p₁ ls' t' p' := by
  induction ls generalizing t p with
  | nil => exact ⟨t, p, .refl t p, h⟩
  | cons l ls ih =>
    cases h with
    | op hword heof hnext hrest =>
      obtain ⟨t₁, p₁, hfirst, hsecond⟩ := ih hrest
      exact ⟨t₁, p₁, .op hword heof hnext hfirst, hsecond⟩
    | word hget hnext hrest =>
      obtain ⟨t₁, p₁, hfirst, hsecond⟩ := ih hrest
      exact ⟨t₁, p₁, .word hget hnext hfirst, hsecond⟩

variable {ls : List Lexeme}

theorem Scans.cons_op {u t t' : Token} (h : Scans t p (.op u :: ls) t' p') :
    t = u ∧ ∃ t₁ p₁, cruleGettoken p = (.noerr, t₁, p₁) ∧
      Scans t₁ p₁ ls t' p' := by
  cases h with
  | op hword heof hnext hrest => exact ⟨rfl, _, _, hnext, hrest⟩

variable {w : List Char}

theorem Scans.cons_word (h : Scans t p (.word w :: ls) t' p') :
    t = .word ∧ ∃ p₀ t₁ p₁, cruleGetword (crMaxarglen - 1) p = (w, p₀) ∧
      cruleGettoken p₀ = (.noerr, t₁, p₁) ∧ Scans t₁ p₁ ls t' p' := by
  cases h with
  | word hget hnext hrest => exact ⟨rfl, _, _, _, hget, hnext, hrest⟩

theorem Scans.nil (h : Scans t p [] t' p') : t' = t ∧ p' = p := by
  cases h with
  | refl => exact ⟨rfl, rfl⟩

theorem nextToken_of_gettoken {β : Type} {t : Token}
    (h : cruleGettoken p = (.noerr, t, p'))
    (fail : ErrCode → Token → List Char → β) (next : Token → List Char → β) :
    nextToken p fail next = next t p' := by
  rw [nextToken, h]

/-! ## Function calls -/

variable {func : FuncListEnt} {name : List Char}

theorem cruleFunclistFind_eq_some (hmem : func ∈ cruleFunclist)
    (hname : name.map Char.toLower = func.name.toList.map Char.toLower) :
    cruleFunclistFind name = some func := by
  have htable : ∀ f ∈ cruleFunclist,
      cruleFunclistFind f.name.toList = some f := by
    decide +kernel
  have hcmp : (fun entry : FuncListEnt =>
      strcasecmp name entry.name.toList) =
        fun entry => strcasecmp func.name.toList entry.name.toList := by
    funext entry
    rw [strcasecmp, strcasecmp, hname]
  rw [cruleFunclistFind, hcmp]
  exact htable func hmem

variable {args : List (List Char)}

theorem ValidCall.nul_not_mem (h : ValidCall func name args) : nul ∉ name := by
  have htable : ∀ f ∈ cruleFunclist,
      nul.toLower ∉ f.name.toList.map Char.toLower := by
    decide +kernel
  intro hmem
  apply htable func h.mem
  rw [← h.name]
  exact mem_map_of_mem hmem

variable {text : List Char}

theorem IsNumber.atoi_eq {value : ℤ} (h : IsNumber text value) :
    atoi text = value := by
  obtain ⟨⟨digits, hne, hdigits, htext⟩, -, hlower, hupper⟩ := h
  have hclamp : clampLong value = value := by
    apply clampLong_eq_self <;> omega
  obtain ⟨c, rest, rfl⟩ := exists_cons_of_ne_nil hne
  have hc : c.isDigit = true := hdigits c mem_cons_self
  have hstrtol : strtol text = value := by
    rcases htext with ⟨rfl, hvalue⟩ | ⟨rfl, hvalue⟩
    · rw [strtol_of_isDigit hc, ← hvalue, hclamp]
    · rw [strtol_minus, ← hvalue, hclamp]
  rw [atoi, hstrtol, toInt_eq_self hlower hupper]

theorem IsNumber.nul_not_mem {value : ℤ} (h : IsNumber text value) :
    nul ∉ text := by
  obtain ⟨digits, -, hdigits, htext⟩ := h.digits
  have hnot : nul ∉ digits := fun hmem =>
    absurd (hdigits nul hmem) (by decide)
  rcases htext with ⟨rfl, -⟩ | ⟨rfl, -⟩
  · exact hnot
  · rw [mem_cons, not_or]
    exact ⟨by decide, hnot⟩

/-- A word in front of an argument list becomes the current argument. -/
theorem cruleParsearglistLoop_word {w p p₀ p₁ : List Char} {t₁ : Token}
    (hnul : nul ∉ w) (hget : cruleGetword (crMaxarglen - 1) p = (w, p₀))
    (hnext : cruleGettoken p₀ = (.noerr, t₁, p₁)) (fuel arglen : ℕ)
    (done : List (List Char)) :
    cruleParsearglistLoop (fuel + 1) done [] arglen .word p =
      cruleParsearglistLoop fuel done w w.length t₁ p₁ := by
  have hadd : addWord [] arglen w = (w, w.length) := by
    rw [addWord, if_neg (by simp), cstring_eq_self hnul]
  rw [cruleParsearglistLoop, if_pos rfl, hget]
  dsimp only
  rw [hadd, nextToken_of_gettoken hnext]

theorem cruleParsearglistLoop_eq {args done : List (List Char)}
    (hne : ∀ w ∈ args, w ≠ []) (hnul : ∀ w ∈ args, nul ∉ w) {fuel arglen : ℕ}
    {t : Token} {r : ArgResult} (h : Scans t p (argLexemes args) .closeparen p')
    (hr : cruleParsearglistLoop fuel done [] arglen t p = some r) :
    r = ⟨.noerr, done ++ args, .closeparen, p'⟩ := by
  induction args generalizing done fuel arglen t p with
  | nil =>
    obtain ⟨rfl, rfl⟩ := h.nil
    cases fuel with
    | zero => cases hr
    | succ fuel =>
      rw [cruleParsearglistLoop, if_neg (by decide), if_pos (by decide)]
        at hr
      cases hr
      rw [addArg, if_neg (by simp), append_nil]
  | cons w args ih =>
    have hw : w ≠ [] := hne w mem_cons_self
    have hwnul : nul ∉ w := hnul w mem_cons_self
    -- The word, and then what completes the argument.
    obtain _ | _ | fuel := fuel
    · cases hr
    · cases args with
      | nil | cons w' args =>
        obtain ⟨rfl, p₀, t₁, p₁, hget, hnext, -⟩ := h.cons_word
        rw [cruleParsearglistLoop_word hwnul hget hnext] at hr
        cases hr
    · cases args with
      | nil =>
        obtain ⟨rfl, p₀, t₁, p₁, hget, hnext, hrest⟩ := h.cons_word
        obtain ⟨rfl, rfl⟩ := hrest.nil
        rw [cruleParsearglistLoop_word hwnul hget hnext, cruleParsearglistLoop,
          if_neg (by decide), if_pos (by decide), addArg, if_pos hw] at hr
        cases hr
        rfl
      | cons w' args =>
        obtain ⟨rfl, p₀, t₁, p₁, hget, hnext, hrest⟩ := h.cons_word
        obtain ⟨rfl, t₂, p₂, hnext', hrest'⟩ := hrest.cons_op
        rw [cruleParsearglistLoop_word hwnul hget hnext,
          cruleParsearglistLoop, if_neg (by decide), if_neg (by decide),
          nextToken_of_gettoken hnext', addArg, if_pos hw] at hr
        rw [ih (fun v hv => hne v (mem_cons_of_mem w hv))
          (fun v hv => hnul v (mem_cons_of_mem w hv)) hrest' hr,
          append_assoc]
        rfl

/-! ## Trees and their values -/

/-- The tree can be evaluated, and its truth value is that of the
expression. -/
def Means (node : CRuleNode) (e : Expr) : Prop :=
  ∀ funcs, ∃ result, cruleEval funcs node = some result ∧
    (result ≠ 0 ↔ e.value funcs = true)

@[simp] theorem ofBool_ne_zero (b : Bool) : ofBool b ≠ 0 ↔ b = true := by
  cases b <;> simp [ofBool]

theorem Means.not {node : CRuleNode} {e : Expr} (h : Means node e) :
    Means (.not (some node)) (.not e) := by
  intro funcs
  obtain ⟨result, heval, hvalue⟩ := h funcs
  refine ⟨ofBool (result == 0), by rw [cruleEval, heval]; rfl, ?_⟩
  rw [ofBool_ne_zero, beq_iff_eq, Expr.value]
  cases hb : e.value funcs <;> simp [hb] at hvalue ⊢ <;> exact hvalue

/-- The expression that an operator makes of its operands. -/
def joinExpr (isOr : Bool) (e e' : Expr) : Expr :=
  if isOr then .or e e' else .and e e'

theorem Means.andor {node node' : CRuleNode} {e e' : Expr}
    (h : Means node e) (h' : Means node' e') (isOr : Bool) :
    Means (.andor isOr (some node) (some node')) (joinExpr isOr e e') := by
  intro funcs
  obtain ⟨result, heval, hvalue⟩ := h funcs
  obtain ⟨result', heval', hvalue'⟩ := h' funcs
  rw [cruleEval, heval, heval']
  cases isOr <;> by_cases hresult : result = 0 <;>
    simp_all [joinExpr, Expr.value, andorResult, ofBool]

theorem CompareOp.isComparisson (op : CompareOp) :
    op.token.isComparisson = true := by
  cases op <;> rfl

/-! ## The parser -/

/-- A parsing function that ends has read the lexemes of an expression and has
made a tree for it. -/
def ParsedAs (result : Option ParseResult) (e : Expr) (t' : Token)
    (p' : List Char) : Prop :=
  ∀ r, result = some r →
    ∃ node, r = ⟨.noerr, some node, t', p'⟩ ∧ Means node e

theorem cruleParsefunction_eq (h : ValidCall func name args)
    (hnul : ∀ w ∈ args, nul ∉ w)
    (hscans : Scans t p (.word name :: .op .openparen ::
      (argLexemes args ++ .op .closeparen :: ls)) t' p')
    {r : ParseResult} (hr : cruleParsefunction p = some r) :
    ∃ t₁ p₁, Scans t₁ p₁ ls t' p' ∧
      r = cruleParseComparisson func args t₁ p₁ := by
  obtain ⟨rfl, p₀, _, p₁, hname, hopen, hscans⟩ := hscans.cons_word
  obtain ⟨rfl, t₂, p₂, hfirst, hscans⟩ := hscans.cons_op
  obtain ⟨_, p₃, hargs, hscans⟩ := hscans.split
  obtain ⟨rfl, t₄, p₄, hnext, hscans⟩ := hscans.cons_op
  refine ⟨t₄, p₄, hscans, ?_⟩
  unfold cruleParsefunction at hr
  simp only [hname] at hr
  rw [nextToken_of_gettoken hopen, if_pos rfl,
    cstring_eq_self h.nul_not_mem, cruleFunclistFind_eq_some h.mem h.name]
    at hr
  dsimp only at hr
  rw [cruleParseArguments, nextToken_of_gettoken hfirst] at hr
  split at hr
  case h_1 => cases hr
  case h_2 result hlist =>
    obtain rfl := cruleParsearglistLoop_eq h.arg_ne_nil hnul hargs hlist
    rw [if_neg (by simp), if_neg (by simp),
      if_neg (by simp [h.count]), nextToken_of_gettoken hnext] at hr
    exact (Option.some.inj hr).symm

/-! ### Operators -/

variable {node : CRuleNode}

/-- The expression of an operand behind the operands in `root`. -/
def completeExpr (isOr : Bool) (root : Option Expr) (e : Expr) : Expr :=
  match root with
  | none => e
  | some e₀ => joinExpr isOr e₀ e

/-- The operator node in progress stands for the operands so far. -/
def RootMeans (isOr : Bool) (root : Option (Option CRuleNode))
    (rootExpr : Option Expr) : Prop :=
  ∀ node e, Means node e →
    ∃ node', completeNode isOr root (some node) = some node' ∧
      Means node' (completeExpr isOr rootExpr e)

theorem rootMeans_none (isOr : Bool) : RootMeans isOr none none :=
  fun node _ h => ⟨node, rfl, h⟩

variable {e : Expr}

/-- Operands with the property `Q`, joined by an operator. -/
inductive Joined (op : Token) (isOr : Bool)
    (Q : Expr → List Lexeme → Prop) : Expr → List Lexeme → Prop where
  | single {e : Expr} {ls : List Lexeme} (h : Q e ls) : Joined op isOr Q e ls
  | more {e e' : Expr} {ls ls' : List Lexeme} (h : Q e ls)
      (h' : Joined op isOr Q e' ls') :
      Joined op isOr Q (joinExpr isOr e e') (ls ++ .op op :: ls')

theorem parseOperators_parsedAs {op : Token} {isOr : Bool} {missing : ErrCode}
    {parseOperand : Token → List Char → Option ParseResult}
    {Q : Expr → List Lexeme → Prop} (stop : Token → Prop) (hop : stop op)
    (hoperand : ∀ e ls, Q e ls → ∀ t p t' p', Scans t p ls t' p' → stop t' →
      ParsedAs (parseOperand t p) e t' p')
    (h : Joined op isOr Q e ls) {root : Option (Option CRuleNode)}
    {rootExpr : Option Expr} (hroot : RootMeans isOr root rootExpr) (fuel : ℕ)
    (hscans : Scans t p ls t' p') (hstop : stop t') (hne : t' ≠ op) :
    ParsedAs (parseOperators op isOr missing parseOperand fuel root t p)
      (completeExpr isOr rootExpr e) t' p' := by
  intro r hr
  induction h generalizing root rootExpr fuel t p with
  | single h =>
    cases fuel with
    | zero => cases hr
    | succ fuel =>
      rw [parseOperators] at hr
      split at hr
      case h_1 => cases hr
      case h_2 r' hparse =>
        obtain ⟨node, rfl, hmeans⟩ :=
          hoperand _ _ h t p t' p' hscans hstop r' hparse
        obtain ⟨node', hcomplete, hmeans'⟩ := hroot node _ hmeans
        refine ⟨node', ?_, hmeans'⟩
        rw [if_neg (fun h => hne h.2)] at hr
        rw [← hcomplete]
        cases root with
        | none | some arg0 => exact (Option.some.inj hr).symm
  | more h h' ih =>
    obtain ⟨_, p₁, hfirst, hrest⟩ := hscans.split
    obtain ⟨rfl, t₂, p₂, hnext, hrest⟩ := hrest.cons_op
    cases fuel with
    | zero => cases hr
    | succ fuel =>
      rw [parseOperators] at hr
      split at hr
      case h_1 => cases hr
      case h_2 r' hparse =>
        obtain ⟨node, rfl, hmeans⟩ :=
          hoperand _ _ h t p _ p₁ hfirst hop r' hparse
        obtain ⟨node', hcomplete, hmeans'⟩ := hroot node _ hmeans
        rw [if_pos ⟨rfl, rfl⟩, hcomplete, nextToken_of_gettoken hnext] at hr
        have hroot' : RootMeans isOr (some (some node')) (some _) :=
          fun _ _ h => ⟨_, rfl, hmeans'.andor h isOr⟩
        obtain ⟨node'', hr', hmeans''⟩ := ih hroot' fuel hrest hr
        refine ⟨node'', hr', fun funcs => ?_⟩
        convert hmeans'' funcs using 5
        -- the parser joins operands from the left, the grammar from the right
        cases rootExpr with
        | none => rfl
        | some e₀ =>
          cases isOr <;> simp [completeExpr, joinExpr, Expr.value,
            Bool.and_assoc, Bool.or_assoc]

/-! ### Primaries -/

def negatedExpr : ℕ → Expr → Expr
  | 0, e => e
  | nots + 1, e => .not (negatedExpr nots e)

theorem negatedExpr_not (nots : ℕ) (e : Expr) :
    negatedExpr nots (.not e) = negatedExpr (nots + 1) e := by
  induction nots with
  | zero => rfl
  | succ nots ih => exact congrArg Expr.not ih

theorem means_negated (h : Means node e) (nots : ℕ) :
    ∃ node', negated nots (some node) = some node' ∧
      Means node' (negatedExpr nots e) := by
  induction nots with
  | zero => exact ⟨node, rfl, h⟩
  | succ nots ih =>
    obtain ⟨node', hnode', hmeans⟩ := ih
    exact ⟨.not (some node'), by rw [negated, hnode'], hmeans.not⟩

/-- The lexemes are parsed as a primary that stands for the expression, if no
comparison follows. -/
def PrimaryParsed (e : Expr) (ls : List Lexeme) : Prop :=
  ∀ fuel nots t p t' p', Scans t p ls t' p' → t'.isComparisson = false →
    ParsedAs (cruleParseprimary fuel nots t p) (negatedExpr nots e) t' p'

theorem parseOrExprWith_parsedAs
    (h : Joined .or true (Joined .and false PrimaryParsed) e ls)
    (fuel fuel' : ℕ) (hscans : Scans t p ls t' p')
    (htest : t'.isComparisson = false) (hand : t' ≠ .and) (hor : t' ≠ .or) :
    ParsedAs (parseOrExprWith (cruleParseprimary fuel 0) fuel' t p) e t'
      p' := by
  have handexpr : ∀ e ls, Joined .and false PrimaryParsed e ls →
      ∀ t p t' p', Scans t p ls t' p' →
        t'.isComparisson = false ∧ t' ≠ .and →
        ParsedAs (parseOperators .and false .expctprim
          (cruleParseprimary fuel 0) fuel' none t p) e t' p' := by
    intro e ls h t p t' p' hscans hstop
    exact parseOperators_parsedAs (fun t => t.isComparisson = false) rfl
      (fun e ls h => h fuel 0) h (rootMeans_none false) fuel' hscans
      hstop.1 hstop.2
  exact parseOperators_parsedAs
    (fun t => t.isComparisson = false ∧ t ≠ .and) ⟨rfl, by decide⟩
    handexpr h (rootMeans_none true) fuel' hscans ⟨htest, hand⟩ hor

section

variable (h : ValidCall func name args) (hnul : ∀ w ∈ args, nul ∉ w)

include h hnul

theorem primaryParsed_function (hmeans : Means node e)
    (hbehind : ∀ {t p t' p'}, Scans t p ls t' p' → t'.isComparisson = false →
      cruleParseComparisson func args t p = ⟨.noerr, some node, t', p'⟩) :
    PrimaryParsed e (.word name :: .op .openparen ::
      (argLexemes args ++ .op .closeparen :: ls)) := by
  intro fuel nots t p t' p' hscans htest r hr
  obtain ⟨rfl, -⟩ := hscans.cons_word
  cases fuel with
  | zero => cases hr
  | succ fuel =>
    rw [cruleParseprimary] at hr
    split at hr
    case h_1 => cases hr
    case h_2 r' hparse =>
      obtain ⟨t₁, p₁, hrest, rfl⟩ := cruleParsefunction_eq h hnul hscans hparse
      obtain ⟨node', hnode, hmeans⟩ := means_negated hmeans nots
      refine ⟨node', ?_, hmeans⟩
      rw [hbehind hrest htest] at hr
      rw [← hnode]
      exact (Option.some.inj hr).symm

theorem primaryParsed_call :
    PrimaryParsed (.call func args) (.word name :: .op .openparen ::
      (argLexemes args ++ [.op .closeparen])) := by
  have hmeans : Means (.func (some func) args none) (.call func args) :=
    fun funcs => ⟨_, rfl, by simp [funcTestResult, Expr.value]⟩
  refine primaryParsed_function h hnul hmeans ?_
  intro t p t' p' hscans htest
  obtain ⟨rfl, rfl⟩ := hscans.nil
  rw [cruleParseComparisson, if_neg (by simp [htest])]

theorem primaryParsed_compare (op : CompareOp) {value : ℤ}
    (hvalue : IsNumber text value) :
    PrimaryParsed (.compare func args op value)
      (.word name :: .op .openparen ::
        (argLexemes args ++ [.op .closeparen, .op op.token, .word text])) := by
  have hmeans : Means (.func (some func) args (some (op.token, value)))
      (.compare func args op value) := by
    intro funcs
    refine ⟨_, rfl, ?_⟩
    cases op <;>
      simp [funcTestResult, CompareOp.token, Expr.value, CompareOp.holds]
  refine primaryParsed_function h hnul hmeans ?_
  intro t p t' p' hscans htest
  obtain ⟨rfl, t₂, p₂, hnext, hrest⟩ := hscans.cons_op
  obtain ⟨rfl, p₃, t₃, p₄, hget, hnext', hrest⟩ := hrest.cons_word
  obtain ⟨rfl, rfl⟩ := hrest.nil
  rw [cruleParseComparisson, if_pos op.isComparisson,
    nextToken_of_gettoken hnext, if_neg (by simp)]
  simp only [hget]
  rw [nextToken_of_gettoken hnext', cstring_eq_self hvalue.nul_not_mem,
    hvalue.atoi_eq]

end

theorem primaryParsed_not (h : PrimaryParsed e ls) :
    PrimaryParsed (.not e) (.op .not :: ls) := by
  intro fuel nots t p t' p' hscans htest r hr
  obtain ⟨rfl, t₁, p₁, hnext, hrest⟩ := hscans.cons_op
  cases fuel with
  | zero => cases hr
  | succ fuel =>
    rw [cruleParseprimary, nextToken_of_gettoken hnext] at hr
    rw [negatedExpr_not]
    exact h fuel (nots + 1) t₁ p₁ t' p' hrest htest r hr

theorem primaryParsed_parens
    (h : Joined .or true (Joined .and false PrimaryParsed) e ls) :
    PrimaryParsed e (.op .openparen :: (ls ++ [.op .closeparen])) := by
  intro fuel nots t p t' p' hscans htest r hr
  obtain ⟨rfl, t₁, p₁, hnext, hrest⟩ := hscans.cons_op
  obtain ⟨_, p₂, hinner, hrest⟩ := hrest.split
  obtain ⟨rfl, t₃, p₃, hnext', hrest⟩ := hrest.cons_op
  obtain ⟨rfl, rfl⟩ := hrest.nil
  cases fuel with
  | zero => cases hr
  | succ fuel =>
    rw [cruleParseprimary, nextToken_of_gettoken hnext] at hr
    split at hr
    case h_1 => cases hr
    case h_2 r' hparse =>
      obtain ⟨node, rfl, hmeans⟩ :=
        parseOrExprWith_parsedAs h fuel fuel hinner rfl (by decide)
          (by decide) r' hparse
      obtain ⟨node', hnode, hmeans'⟩ := means_negated hmeans nots
      refine ⟨node', ?_, hmeans'⟩
      rw [if_neg (by simp), if_neg (by simp), if_neg (by simp),
        nextToken_of_gettoken hnext'] at hr
      rw [← hnode]
      exact (Option.some.inj hr).symm

/-! ### Rules -/

def Parsed : Nonterminal → Expr → List Lexeme → Prop
  | .primary => PrimaryParsed
  | .andexpr => Joined .and false PrimaryParsed
  | .orexpr => Joined .or true (Joined .and false PrimaryParsed)

def NoNulWord (ls : List Lexeme) : Prop := ∀ w, Lexeme.word w ∈ ls → nul ∉ w

theorem word_mem_argLexemes : Lexeme.word w ∈ argLexemes args ↔ w ∈ args := by
  fun_induction argLexemes args with
  | case1 | case2 v => simp
  | case3 v args hne ih =>
    rw [mem_cons, mem_cons, ih, mem_cons, Lexeme.word.injEq]
    simp

theorem parsed_of_writes {n : Nonterminal} (h : Writes n e ls)
    (hnul : NoNulWord ls) : Parsed n e ls := by
  induction h with
  | orSingle h ih | andSingle h ih => exact .single (ih hnul)
  | orMore h h' ih ih' | andMore h h' ih ih' =>
    exact .more (ih fun w hw => hnul w (by simp [hw]))
      (ih' fun w hw => hnul w (by simp [hw]))
  | call h =>
    exact primaryParsed_call h fun w hw =>
      hnul w (by simp [word_mem_argLexemes.mpr hw])
  | compare h op hvalue =>
    exact primaryParsed_compare h (fun w hw =>
      hnul w (by simp [word_mem_argLexemes.mpr hw])) op hvalue
  | not h ih => exact primaryParsed_not (ih fun w hw => hnul w (by simp [hw]))
  | parens h ih =>
    exact primaryParsed_parens (ih fun w hw => hnul w (by simp [hw]))

theorem noNulWord_of_lexes {rule : List Char} (h : Lexes rule ls)
    (hnul : nul ∉ rule) : NoNulWord ls := by
  intro w hw hmem
  induction h with
  | endOfInput | colon rest => cases hw
  | blank hc hrest ih => exact ih (fun h => hnul (by simp [h])) hw
  | op ht hrest ih =>
    exact ih (fun h => hnul (by simp [h])) (by simpa using hw)
  | word hne hchars hmax hrest ih | quoted hquote hrest ih =>
    rcases mem_cons.mp hw with heq | hw
    · cases heq
      exact hnul (by simp [hmem])
    · exact ih (fun h => hnul (by simp [h])) hw

theorem ValidCall.name_length (h : ValidCall func name args) :
    name.length < crMaxarglen := by
  have htable : ∀ f ∈ cruleFunclist, f.name.toList.length < crMaxarglen := by
    decide +kernel
  have hlength := congrArg List.length h.name
  rw [length_map, length_map] at hlength
  rw [hlength]
  exact htable func h.mem

theorem word_length_of_writes {n : Nonterminal} (h : Writes n e ls)
    (hw : Lexeme.word w ∈ ls) : w.length < crMaxarglen := by
  induction h with
  | orSingle h ih | andSingle h ih => exact ih hw
  | orMore h h' ih ih'
  | andMore h h' ih ih' => exact (by simpa using hw : _ ∨ _).elim ih ih'
  | call h =>
    rcases (by simpa using hw : _ ∨ _) with rfl | hw
    · exact h.name_length
    · exact h.arg_length w (word_mem_argLexemes.mp hw)
  | compare h op hvalue =>
    rcases (by simpa using hw : _ ∨ _ ∨ _) with rfl | hw | rfl
    · exact h.name_length
    · exact h.arg_length w (word_mem_argLexemes.mp hw)
    · exact hvalue.length
  | not h ih | parens h ih => exact ih (by simpa using hw)

/-- The text of an expression is parsed to a tree for the expression. -/
theorem parseRule_of_writes {rule : List Char} (hnul : nul ∉ rule)
    (hlexes : Lexes rule ls) (hwrites : Writes .orexpr e ls)
    (after : List Char) :
    ∃ tree, parseRule (memoryOf rule after) = some (.noerr, some tree) ∧
      Means tree e := by
  obtain ⟨t, p, p', hnext, hscans⟩ :=
    scans_of_lexes hlexes (fun w hw => word_length_of_writes hwrites hw) after
  have hparsed : Parsed .orexpr e ls :=
    parsed_of_writes hwrites (noNulWord_of_lexes hlexes hnul)
  have hsome := parseRule_isSome (memoryOf rule after)
  unfold parseRule at hsome ⊢
  rw [nextToken_of_gettoken hnext] at hsome ⊢
  cases hparse :
      cruleParseorexpr (2 * (memoryOf rule after).length + 2) t p with
  | none =>
    rw [hparse] at hsome
    cases hsome
  | some r =>
    obtain ⟨tree, rfl, hmeans⟩ :=
      parseOrExprWith_parsedAs hparsed _ _ hscans rfl (by decide)
        (by decide) r hparse
    exact ⟨tree, rfl, hmeans⟩

/-- Every text of an expression is accepted, and the tree evaluates to the
value of the expression.  Every function is found by its name. -/
theorem cruleEval_of_writes :
    (∀ (rule after : List Char) (ls : List Lexeme) (e : Expr), nul ∉ rule →
        Lexes rule ls → Writes .orexpr e ls →
        cruleTest rule after = 0 ∧
          ∃ tree, cruleParse rule after = some tree ∧
            ∀ funcs, ∃ result, cruleEval funcs tree = some result ∧
              (result ≠ 0 ↔ e.value funcs = true)) ∧
      ∀ func ∈ cruleFunclist, ∀ name : List Char,
        name.map Char.toLower = func.name.toList.map Char.toLower →
          cruleFunclistFind name = some func := by
  constructor
  · intro rule after ls e hnul hlexes hwrites
    obtain ⟨tree, hparse, hmeans⟩ :=
      parseRule_of_writes hnul hlexes hwrites after
    constructor
    · exact (accepted_iff rule after).2.mpr ⟨tree, hparse⟩
    · exact ⟨tree, by rw [cruleParse, hparse]; rfl, hmeans⟩
  · intro func hmem name hname
    exact cruleFunclistFind_eq_some hmem hname

/-- The expression of the rule `!is_tls()||reputation()>5`. -/
theorem cruleEval_sample :
    cruleTest "!is_tls()||reputation()>5".toList [] = 0 ∧
      ∃ tree, cruleParse "!is_tls()||reputation()>5".toList [] = some tree ∧
        ∀ funcs, ∃ result, cruleEval funcs tree = some result ∧
          (result ≠ 0 ↔
            (Expr.or (.not (.call ⟨"is_tls", 0⟩ []))
              (.compare ⟨"reputation", 0⟩ [] .moreThan 5)).value funcs =
                true) := by
  have htls : ValidCall ⟨"is_tls", 0⟩ "is_tls".toList [] :=
    ⟨by decide, rfl, rfl, by simp, by simp⟩
  have hreputation : ValidCall ⟨"reputation", 0⟩ "reputation".toList [] :=
    ⟨by decide, rfl, rfl, by simp, by simp⟩
  have hfive : IsNumber ['5'] 5 :=
    ⟨⟨['5'], by decide, all_eq_true.mp (by decide), .inl ⟨rfl, rfl⟩⟩,
      by decide, by decide, by decide⟩
  have htext : "!is_tls()||reputation()>5".toList =
      ['!'] ++ ("is_tls".toList ++ (['('] ++ ([')'] ++ (['|', '|'] ++
        ("reputation".toList ++ (['('] ++ ([')'] ++ (['>'] ++
          (['5'] ++ []))))))))) := by
    decide
  refine cruleEval_of_writes.1 _ [] _ _ (by decide) ?_ (.orMore
    (.andSingle (.not (.call htls)))
    (.orSingle (.andSingle (.compare hreputation .moreThan hfive))))
  rw [htext]
  have hopen : ∀ c ∈ ['('].head?, isWordChar c = false := by
    rintro _ ⟨⟩
    decide
  refine .op (by decide) (.word (by decide)
    (all_eq_true.mp (by decide)) hopen ?_)
  refine .op (by decide) (.op (by decide) (.op (by decide) (.word (by decide)
    (all_eq_true.mp (by decide)) hopen ?_)))
  refine .op (by decide) (.op (by decide) (.op (by decide) (.word (by decide)
    (all_eq_true.mp (by decide)) ?_ .endOfInput)))
  exact fun c h => absurd h (Option.not_mem_none c)

end UnrealIrcd.CRule
