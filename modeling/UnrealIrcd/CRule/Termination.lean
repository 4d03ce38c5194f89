import UnrealIrcd.CRule.Parser

/-!
# Termination of the parser

The loops and the recursion of the parser carry a bound on the number of
steps.  The bound is never reached: `parsing` measures what is left to parse,
every token taken makes it smaller, and the bound that `parseRule` starts with
is larger than the measure of the whole rule.
-/

namespace UnrealIrcd.CRule

open Support

/-- What is left to parse.  The characters of a word and of the end of input
are still at the read position, those of any other token are not. -/
def parsing (t : Token) (p : List Char) : ℕ :=
  2 * p.length + if t = .eof ∨ t = .word ∨ t = .unknown then 0 else 1

/-- A word token stands at its first character. -/
def AtWord (t : Token) (p : List Char) : Prop :=
  t = .word → isWordChar (peek p) = true ∨ peek p = quote

theorem parsing_le (t : Token) (p : List Char) :
    parsing t p ≤ 2 * p.length + 1 := by
  unfold parsing
  split <;> omega

/-! ## The scanner -/

/-- The scanner has got to a token, with no more than `n` left. -/
def Scanned (n : ℕ) (r : ErrCode × Token × List Char) : Prop :=
  parsing r.2.1 r.2.2 ≤ n ∧ AtWord r.2.1 r.2.2

theorem scanned_cruleGettokenLoop (pending : Option Char) (p : List Char) :
    Scanned (2 * p.length) (cruleGettokenLoop pending p) := by
  have hsingle : ∀ c t, single c = some t → t ≠ .word := by
    intro c t ht
    unfold single at ht
    split_ifs at ht <;> cases ht <;> decide
  have hdoubled : ∀ c t, doubled c = some t → t ≠ .word := by
    intro c t ht
    unfold doubled at ht
    split_ifs at ht <;> cases ht <;> decide
  induction p generalizing pending with
  | nil => exact ⟨by simp [cruleGettokenLoop, parsing],
      by simp [cruleGettokenLoop, AtWord]⟩
  | cons c p ih =>
    have hconsumed : ∀ t, parsing t p ≤ 2 * (c :: p).length := by
      intro t
      have := parsing_le t p
      simp only [List.length_cons]
      omega
    have hlater : ∀ pending,
        Scanned (2 * (c :: p).length) (cruleGettokenLoop pending p) := by
      intro pending
      refine ⟨(ih pending).1.trans ?_, (ih pending).2⟩
      exact Nat.mul_le_mul_left 2 (Nat.le_succ _)
    rw [cruleGettokenLoop]
    by_cases hblank : c = ' ' ∨ c = '\t'
    · rw [if_pos hblank]
      exact hlater pending
    · rw [if_neg hblank]
      cases hd : doubled c with
      | some token =>
        cases pending with
        | none => exact hlater (some c)
        | some first =>
          by_cases hfirst : first = c
          · simp only [hfirst, if_true]
            exact ⟨hconsumed _, fun h => absurd h (hdoubled c token hd)⟩
          · simp only [hfirst, if_false]
            exact ⟨hconsumed _, nofun⟩
      | none =>
        cases hs : single c with
        | some token =>
          exact ⟨hconsumed _, fun h => absurd h (hsingle c token hs)⟩
        | none =>
          by_cases hnul : c = nul
          · simp [hnul, Scanned, parsing, AtWord]
          · by_cases hword : (isWordChar c || c == quote) = true
            · simp only [hnul, hword, if_true, if_false]
              refine ⟨by simp [parsing], fun _ => ?_⟩
              simpa [peek] using hword
            · simp [hnul, hword, Scanned, parsing, AtWord]

variable {p : List Char}

/-- What holds for every outcome of the scanner holds for the way the parser
goes on. -/
theorem nextToken_rule {β : Type} (P : β → Prop)
    {fail : ErrCode → Token → List Char → β} {next : Token → List Char → β}
    (hfail : ∀ e t p', parsing t p' ≤ 2 * p.length → P (fail e t p'))
    (hnext : ∀ t p', parsing t p' ≤ 2 * p.length → AtWord t p' → P (next t p')) :
    P (nextToken p fail next) := by
  obtain ⟨hle, hword⟩ := scanned_cruleGettokenLoop none p
  unfold nextToken
  split
  next t p' heq =>
    rw [cruleGettoken] at heq
    rw [heq] at hle hword
    exact hnext t p' hle hword
  next e t p' _ heq =>
    rw [cruleGettoken] at heq
    rw [heq] at hle
    exact hfail e t p' hle

theorem cruleGetwordLoop_length_le (quoted : Bool) (maxlen : ℕ)
    (p : List Char) :
    (cruleGetwordLoop quoted maxlen p).2.length ≤ p.length := by
  induction maxlen generalizing p with
  | zero => exact le_rfl
  | succ maxlen ih =>
    rw [cruleGetwordLoop]
    split
    · have := ih p.tail
      simp only [List.length_tail] at this
      simp only
      omega
    · exact le_rfl

theorem cruleGetword_length_le_of_quote (h : peek p = quote) (maxlen : ℕ) :
    (cruleGetword maxlen p).2.length ≤ p.length - 1 := by
  have hloop := cruleGetwordLoop_length_le true maxlen p.tail
  rw [List.length_tail] at hloop
  rw [cruleGetword, if_pos h]
  by_cases hclose :
      peek (cruleGetwordLoop true maxlen p.tail).2 = quote
  · simp only [hclose, if_true, List.length_tail]
    omega
  · simpa only [hclose, if_false] using hloop

theorem cruleGetword_length_le (maxlen : ℕ) (p : List Char) :
    (cruleGetword maxlen p).2.length ≤ p.length := by
  by_cases hquote : peek p = quote
  · exact (cruleGetword_length_le_of_quote hquote maxlen).trans
      (Nat.sub_le _ _)
  · rw [cruleGetword, if_neg hquote]
    exact cruleGetwordLoop_length_le false maxlen p

theorem cruleGetword_length_lt {maxlen : ℕ}
    (h : isWordChar (peek p) = true ∨ peek p = quote) :
    (cruleGetword (maxlen + 1) p).2.length < p.length := by
  cases p with
  | nil => rcases h with h | h <;> exact absurd h (by decide)
  | cons c p =>
    by_cases hquote : peek (c :: p) = quote
    · have hle := cruleGetword_length_le_of_quote hquote (maxlen + 1)
      rw [List.length_cons] at hle ⊢
      omega
    · have hc : isWordChar (peek (c :: p)) = true := h.resolve_right hquote
      have hle := cruleGetwordLoop_length_le false maxlen p
      rw [cruleGetword, if_neg hquote, cruleGetwordLoop, hc,
        Bool.true_or, if_pos rfl]
      exact Nat.lt_succ_of_le hle

/-! ## Functions -/

/-- The parsing function comes to an end, with no more than `n` left. -/
def Ends (n : ℕ) (result : Option ParseResult) : Prop :=
  ∃ r, result = some r ∧ parsing r.nextTok r.ruleptr ≤ n

theorem Ends.some {n : ℕ} {r : ParseResult}
    (h : parsing r.nextTok r.ruleptr ≤ n) : Ends n (some r) :=
  ⟨r, rfl, h⟩

theorem Ends.mono {m n : ℕ} {result : Option ParseResult}
    (h : Ends m result) (hle : m ≤ n) : Ends n result := by
  obtain ⟨r, hr, hm⟩ := h
  exact ⟨r, hr, hm.trans hle⟩

theorem Ends.nextToken {n : ℕ} {node : Option CRuleNode}
    {next : Token → List Char → Option ParseResult} (hn : 2 * p.length ≤ n)
    (hnext : ∀ t p', parsing t p' ≤ 2 * p.length → AtWord t p' →
      Ends n (next t p')) :
    Ends n (nextToken p (fun e t p => Option.some ⟨e, node, t, p⟩) next) :=
  nextToken_rule (Ends n) (fun _ _ _ hle => .some (hle.trans hn)) hnext

def ArgsEnd (n : ℕ) (result : Option ArgResult) : Prop :=
  ∃ r, result = some r ∧ parsing r.nextTok r.ruleptr ≤ n

variable {fuel : ℕ} {t : Token}

theorem cruleParsearglistLoop_ends (hword : AtWord t p)
    (hfuel : parsing t p < fuel) (args : List (List Char)) (currarg : List Char)
    (arglen : ℕ) :
    ArgsEnd (parsing t p)
      (cruleParsearglistLoop fuel args currarg arglen t p) := by
  induction fuel generalizing t p args currarg arglen with
  | zero => omega
  | succ fuel ih =>
    rw [cruleParsearglistLoop]
    split_ifs with ht hcomma
    · subst ht
      have hlt : (cruleGetword (crMaxarglen - 1) p).2.length < p.length :=
        cruleGetword_length_lt (hword rfl)
      have hparsing : parsing .word p = 2 * p.length := by simp [parsing]
      rw [hparsing] at hfuel ⊢
      refine nextToken_rule (ArgsEnd _) ?_ ?_
      · intro e t p' hle
        exact ⟨_, rfl, by simp only; omega⟩
      · intro t p' hle hword'
        obtain ⟨r, hr, hrle⟩ := ih hword' (by omega) args _ _
        exact ⟨r, hr, by omega⟩
    · exact ⟨_, rfl, le_rfl⟩
    · have hcomma : t = .comma := not_not.mp hcomma
      have hparsing : parsing t p = 2 * p.length + 1 := by
        simp [parsing, hcomma]
      refine nextToken_rule (ArgsEnd _) ?_ ?_
      · intro e t' p' hle
        exact ⟨_, rfl, by simp only; omega⟩
      · intro t' p' hle hword'
        obtain ⟨r, hr, hrle⟩ := ih hword' (by omega) _ [] arglen
        exact ⟨r, hr, by omega⟩

theorem cruleParseComparisson_ends (func : FuncListEnt)
    (args : List (List Char)) (t : Token) (p : List Char) :
    Ends (parsing t p) (some (cruleParseComparisson func args t p)) := by
  have hp : 2 * p.length ≤ parsing t p := Nat.le_add_right _ _
  unfold cruleParseComparisson
  split_ifs
  · refine nextToken_rule (fun r => Ends (parsing t p) (some r)) ?_ ?_
    · intro e t' p' hle
      exact .some (hle.trans hp)
    · intro t' p' hle _
      split_ifs
      · exact .some (hle.trans hp)
      · have hget := cruleGetword_length_le (crMaxarglen - 1) p'
        have hp' : 2 * p'.length ≤ parsing t' p' := Nat.le_add_right _ _
        refine nextToken_rule (fun r => Ends (parsing t p) (some r)) ?_ ?_
        · intro e u q hq
          exact .some (by simp only; omega)
        · intro u q hq _
          exact .some (by simp only; omega)
  · exact .some le_rfl

theorem cruleParseArguments_ends (func : FuncListEnt) (p : List Char) :
    Ends (2 * p.length) (cruleParseArguments func p) := by
  unfold cruleParseArguments
  refine .nextToken le_rfl fun t p' hle hword => ?_
  obtain ⟨r, hr, hrle⟩ := cruleParsearglistLoop_ends hword
    (Nat.lt_of_le_of_lt (parsing_le t p') (Nat.lt_succ_self _)) [] [] 0
  have hr' : cruleParsearglist t p' = some r := hr
  have hp' : 2 * r.ruleptr.length ≤ parsing r.nextTok r.ruleptr :=
    Nat.le_add_right _ _
  simp only [hr']
  split_ifs
  · exact .some (hrle.trans hle)
  · exact .some (hrle.trans hle)
  · exact .some (hrle.trans hle)
  · refine .nextToken (by omega) fun u q hq _ => ?_
    exact (cruleParseComparisson_ends func r.args u q).mono (by omega)

theorem cruleParsefunction_ends (p : List Char) :
    Ends (2 * p.length) (cruleParsefunction p) := by
  have hget := cruleGetword_length_le (crMaxarglen - 1) p
  unfold cruleParsefunction
  refine .nextToken (by omega) fun t p' hle _ => ?_
  have hp' : 2 * p'.length ≤ parsing t p' := Nat.le_add_right _ _
  split_ifs
  · split
    · exact .some (by simp only; omega)
    · exact (cruleParseArguments_ends _ p').mono (by omega)
  · exact .some (by simp only; omega)

/-! ## Expressions -/

/-- Operands that come to an end make an operator expression that does: the
operator between two of them has been taken. -/
theorem parseOperators_ends {op : Token} {isOr : Bool} {missing : ErrCode}
    {parseOperand : Token → List Char → Option ParseResult} {n : ℕ}
    (hop : op = .and ∨ op = .or)
    (hoperand : ∀ t p, parsing t p ≤ n → Ends (parsing t p) (parseOperand t p))
    (hfuel : parsing t p < fuel) (hn : parsing t p ≤ n)
    (root : Option (Option CRuleNode)) :
    Ends (parsing t p)
      (parseOperators op isOr missing parseOperand fuel root t p) := by
  induction fuel generalizing t p root with
  | zero => omega
  | succ fuel ih =>
    obtain ⟨r, hr, hrle⟩ := hoperand t p hn
    simp only [parseOperators, hr]
    split_ifs with hmore hnode
    · have hparsing : parsing r.nextTok r.ruleptr =
          2 * r.ruleptr.length + 1 := by
        rcases hop with rfl | rfl <;> simp [parsing, hmore.2]
      refine .nextToken (by omega) fun u q hq _ => ?_
      exact (ih (by omega) (by omega) _).mono (by omega)
    · cases root <;> exact .some hrle
    · cases root <;> exact .some hrle

theorem parseOrExprWith_ends
    {parsePrimary : Token → List Char → Option ParseResult}
    (hprimary : ∀ t p, parsing t p < fuel → Ends (parsing t p) (parsePrimary t p))
    (hfuel : parsing t p < fuel) :
    Ends (parsing t p) (parseOrExprWith parsePrimary fuel t p) := by
  have hand : ∀ u q, parsing u q ≤ parsing t p →
      Ends (parsing u q)
        (parseOperators .and false .expctprim parsePrimary fuel none u q) := by
    intro u q hle
    exact parseOperators_ends (.inl rfl)
      (fun u' q' h => hprimary u' q' (h.trans_lt (hle.trans_lt hfuel)))
      (hle.trans_lt hfuel) le_rfl none
  exact parseOperators_ends (.inr rfl) hand hfuel le_rfl none

theorem cruleParseprimary_ends (hfuel : parsing t p < fuel) (nots : ℕ) :
    Ends (parsing t p) (cruleParseprimary fuel nots t p) := by
  induction fuel generalizing t p nots with
  | zero => omega
  | succ fuel ih =>
    by_cases hopen : t = .openparen
    · subst hopen
      have hparsing : parsing .openparen p = 2 * p.length + 1 := by
        simp [parsing]
      simp only [cruleParseprimary]
      refine .nextToken (by omega) fun u q hq _ => ?_
      obtain ⟨r, hr, hrle⟩ := parseOrExprWith_ends
        (fun u' q' h => ih h 0) (show parsing u q < fuel by omega)
      have hp' : 2 * r.ruleptr.length ≤ parsing r.nextTok r.ruleptr :=
        Nat.le_add_right _ _
      simp only [hr]
      split_ifs
      · exact .some (by simp only; omega)
      · exact .some (by simp only; omega)
      · exact .some (by simp only; omega)
      · refine .nextToken (by omega) fun u' q' hq' _ => ?_
        exact .some (by simp only; omega)
    by_cases hnot : t = .not
    · subst hnot
      have hparsing : parsing .not p = 2 * p.length + 1 := by
        simp [parsing]
      simp only [cruleParseprimary]
      refine .nextToken (by omega) fun u q hq _ => ?_
      exact (ih (by omega) (nots + 1)).mono (by omega)
    by_cases hword : t = .word
    · subst hword
      obtain ⟨r, hr, hrle⟩ := cruleParsefunction_ends p
      simp only [cruleParseprimary, hr]
      exact .some (hrle.trans (Nat.le_add_right _ _))
    · rw [cruleParseprimary_other hopen hnot hword]
      exact .some le_rfl

/-! ## Rules -/

theorem parseRule_isSome (rule : List Char) : (parseRule rule).isSome := by
  unfold parseRule
  refine nextToken_rule (fun r => Option.isSome r = true) ?_ ?_
  · intro e t p _
    rfl
  · intro t p hle _
    have hfuel : parsing t p < 2 * rule.length + 2 := by omega
    obtain ⟨r, hr, -⟩ := parseOrExprWith_ends
      (fun u q h => cruleParseprimary_ends h 0) hfuel
    have hr' : cruleParseorexpr (2 * rule.length + 2) t p = some r := hr
    simp only [hr']
    split_ifs
    · rfl
    · cases r.node <;> rfl
    · cases r.node <;> rfl

end UnrealIrcd.CRule
