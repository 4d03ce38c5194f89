import UnrealIrcd.CRule.Grammar

/-!
# What the rule parser accepts

A successful parse has read a sequence of lexemes that the parser's grammar
`Accepts`.  For a rule whose words fit into the word buffer these are the
lexemes of the rule, so that an accepted rule belongs to the documented
grammar exactly if it is `Clean`.
-/

namespace UnrealIrcd.CRule

open Support List

/-- Reading lexemes: from the next token `t` at `p`, the scanner reads `ls` and
then has the next token `t'` at `p'`. -/
inductive Scans : Token → List Char → List Lexeme → Token → List Char →
    Prop where
  | refl (t : Token) (p : List Char) : Scans t p [] t p
  | op {t t₁ t' : Token} {p p₁ p' : List Char} {ls : List Lexeme}
      (hword : t ≠ .word) (heof : t ≠ .eof)
      (hnext : cruleGettoken p = (.noerr, t₁, p₁))
      (hrest : Scans t₁ p₁ ls t' p') : Scans t p (.op t :: ls) t' p'
  | word {t₁ t' : Token} {w p p₀ p₁ p' : List Char} {ls : List Lexeme}
      (hget : cruleGetword (crMaxarglen - 1) p = (w, p₀))
      (hnext : cruleGettoken p₀ = (.noerr, t₁, p₁))
      (hrest : Scans t₁ p₁ ls t' p') : Scans .word p (.word w :: ls) t' p'

theorem Scans.trans
    {t t' t'' : Token} {p p' p'' : List Char} {ls ls' : List Lexeme}
    (h : Scans t p ls t' p') (h' : Scans t' p' ls' t'' p'') :
    Scans t p (ls ++ ls') t'' p'' := by
  induction h with
  | refl => exact h'
  | op hword heof hnext hrest ih => exact .op hword heof hnext (ih h')
  | word hget hnext hrest ih => exact .word hget hnext (ih h')

variable {t : Token}

/-- Up to the end of input, there is only one way to read. -/
theorem Scans.eq_of_eof {p p' p'' : List Char} {ls ls' : List Lexeme}
    (h : Scans t p ls .eof p') (h' : Scans t p ls' .eof p'') : ls = ls' := by
  induction ls generalizing t p ls' with
  | nil =>
    cases h
    cases h' with
    | refl => rfl
    | op hword heof => exact absurd rfl heof
  | cons l ls ih =>
    cases h with
    | op hword heof hnext hrest =>
      cases h' with
      | refl => exact absurd rfl heof
      | op hword' heof' hnext' hrest' =>
        rw [hnext] at hnext'
        cases hnext'
        rw [ih hrest hrest']
      | word => exact absurd rfl hword
    | word hget hnext hrest =>
      cases h' with
      | op hword' => exact absurd rfl hword'
      | word hget' hnext' hrest' =>
        rw [hget] at hget'
        cases hget'
        rw [hnext] at hnext'
        cases hnext'
        rw [ih hrest hrest']

/-! ## Functions -/

theorem cruleParsearglistLoop_scans {fuel arglen : ℕ} {args : List (List Char)}
    {currarg p : List Char} {r : ArgResult}
    (h : cruleParsearglistLoop fuel args currarg arglen t p = some r)
    (hok : r.errcode = .noerr) :
    ∃ ls, (∀ l ∈ ls, l.IsArgPart) ∧ Scans t p ls r.nextTok r.ruleptr := by
  have hfail : ∀ (args : List (List Char)) e t p, e ≠ ErrCode.noerr →
      ¬ some (⟨e, args, t, p⟩ : ArgResult) = some r := by
    rintro args e t p he heq
    cases heq
    exact he hok
  induction fuel generalizing args currarg arglen t p with
  | zero => simp [cruleParsearglistLoop] at h
  | succ fuel ih =>
    rw [cruleParsearglistLoop] at h
    split_ifs at h with hword hcomma
    · subst hword
      obtain ⟨t₁, p₁, hnext, h⟩ :=
        nextToken_elim (P := fun x => x = some r) h (hfail _)
      obtain ⟨ls, hls, hscans⟩ := ih h
      refine ⟨.word _ :: ls, ?_, .word rfl hnext hscans⟩
      simpa [Lexeme.IsArgPart] using hls
    · cases h
      exact ⟨[], by simp, .refl t p⟩
    · have hcomma' : t = .comma := not_not.mp hcomma
      subst hcomma'
      obtain ⟨t₁, p₁, hnext, h⟩ :=
        nextToken_elim (P := fun x => x = some r) h (hfail _)
      obtain ⟨ls, hls, hscans⟩ := ih h
      refine ⟨.op .comma :: ls, ?_,
        .op (by decide) (by decide) hnext hscans⟩
      simpa [Lexeme.IsArgPart] using hls

variable {p : List Char} {r : ParseResult}

theorem errcode_of_some {e : ErrCode} {node : Option CRuleNode}
    (hok : r.errcode = .noerr) (h : some ⟨e, node, t, p⟩ = some r) :
    e = .noerr := by
  cases h
  exact hok

theorem nextToken_of_noerr {node : Option CRuleNode}
    {next : Token → List Char → Option ParseResult} (hok : r.errcode = .noerr)
    (h : nextToken p (fun e t p => some ⟨e, node, t, p⟩) next = some r) :
    ∃ t p', cruleGettoken p = (.noerr, t, p') ∧ next t p' = some r :=
  nextToken_elim (P := fun x => x = some r) h fun _ _ _ he heq =>
    he (errcode_of_some hok heq)

theorem cruleParseComparisson_scans {func : FuncListEnt}
    {args : List (List Char)} (h : cruleParseComparisson func args t p = r)
    (hok : r.errcode = .noerr) :
    r.node.isSome ∧
      ∃ ls, Comparison ls ∧ Scans t p ls r.nextTok r.ruleptr := by
  have hfail : ∀ e t p, e ≠ ErrCode.noerr →
      ¬ (⟨e, abortedCall args, t, p⟩ : ParseResult) = r := by
    rintro e t p he rfl
    exact he hok
  unfold cruleParseComparisson at h
  split_ifs at h with htest
  · obtain ⟨t₁, p₁, hnext, h⟩ := nextToken_elim (P := fun x => x = r) h hfail
    split_ifs at h with hword
    · subst h
      cases hok
    · have hword' : t₁ = .word := not_not.mp hword
      subst hword'
      obtain ⟨t₂, p₂, hnext', rfl⟩ :=
        nextToken_elim (P := fun x => x = r) h hfail
      have hne : t ≠ .word ∧ t ≠ .eof := by
        constructor <;> rintro rfl <;> exact absurd htest (by decide)
      exact ⟨rfl, [.op t, .word _], .test htest _,
        .op hne.1 hne.2 hnext (.word rfl hnext' (.refl t₂ p₂))⟩
  · subst h
    exact ⟨rfl, [], .none, .refl t p⟩

/-- The outcome of parsing at `t` and `p`: if there is no error, either a node
for lexemes with the property `P`, or no node and nothing read. -/
def Parses (P : List Lexeme → Prop) (t : Token) (p : List Char)
    (r : ParseResult) : Prop :=
  r.errcode = .noerr →
    (r.node.isSome ∧ ∃ ls, P ls ∧ Scans t p ls r.nextTok r.ruleptr) ∨
      (r.node = none ∧ r.nextTok = t ∧ r.ruleptr = p)

theorem cruleParseArguments_scans {func : FuncListEnt}
    (h : cruleParseArguments func p = some r) (hok : r.errcode = .noerr) :
    r.node.isSome ∧ ∃ args comparison, (∀ l ∈ args, l.IsArgPart) ∧
      Comparison comparison ∧
      Scans .openparen p (.op .openparen ::
        (args ++ .op .closeparen :: comparison)) r.nextTok r.ruleptr := by
  unfold cruleParseArguments at h
  obtain ⟨t₁, p₁, hnext, h⟩ := nextToken_of_noerr hok h
  cases harglist : cruleParsearglist t₁ p₁ with
  | none => simp [harglist] at h
  | some a =>
    simp only [harglist] at h
    split_ifs at h with herr hclose hnumargs
    · exact absurd (errcode_of_some hok h) herr
    · exact absurd (errcode_of_some hok h) (by decide)
    · exact absurd (errcode_of_some hok h) (by decide)
    · have hclose' : a.nextTok = .closeparen := not_not.mp hclose
      obtain ⟨args, hargs, hscans⟩ :=
        cruleParsearglistLoop_scans harglist (not_not.mp herr)
      rw [hclose'] at hscans
      obtain ⟨t₂, p₂, hnext', h⟩ := nextToken_of_noerr hok h
      obtain ⟨hnode, comparison, hcomparison, hrest⟩ :=
        cruleParseComparisson_scans (Option.some.inj h) hok
      refine ⟨hnode, args, comparison, hargs, hcomparison, ?_⟩
      exact .op (by decide) (by decide) hnext
        (hscans.trans (.op (by decide) (by decide) hnext' hrest))

theorem cruleParsefunction_scans (h : cruleParsefunction p = some r)
    (hok : r.errcode = .noerr) :
    r.node.isSome ∧ ∃ ls, Accepts .primary ls ∧
      Scans .word p ls r.nextTok r.ruleptr := by
  unfold cruleParsefunction at h
  obtain ⟨t₁, p₁, hnext, h⟩ := nextToken_of_noerr hok h
  split_ifs at h with hopen
  · subst hopen
    cases hfunc : cruleFunclistFind
        (cstring (cruleGetword (crMaxarglen - 1) p).1) with
    | none =>
      simp only [hfunc] at h
      exact absurd (errcode_of_some hok h) (by decide)
    | some func =>
      simp only [hfunc] at h
      obtain ⟨hnode, args, comparison, hargs, hcomparison, hscans⟩ :=
        cruleParseArguments_scans h hok
      have hknown : KnownFunction (cruleGetword (crMaxarglen - 1) p).1 :=
        ⟨func, bsearchLoop_eq_some hfunc⟩
      exact ⟨hnode, _, .function hknown hargs hcomparison,
        .word rfl hnext hscans⟩
  · exact absurd (errcode_of_some hok h) (by decide)

/-! ## Expressions -/

/-- Operands with the property `P`, joined by `op`; the first operand of an
operator may be missing. -/
inductive Chained (P : List Lexeme → Prop) (op : Token) :
    List Lexeme → Prop where
  | single {ls : List Lexeme} (h : P ls) : Chained P op ls
  | more {ls ls' : List Lexeme} (h : P ls) (h' : Chained P op ls') :
      Chained P op (ls ++ .op op :: ls')
  | missing {ls : List Lexeme} (h : Chained P op ls) :
      Chained P op (.op op :: ls)

variable {parseOperand : Token → List Char → Option ParseResult}

section Operators

variable {P : List Lexeme → Prop} {op : Token} {isOr : Bool}
  {missing : ErrCode} (hword : op ≠ .word) (heof : op ≠ .eof)
  (hmissing : missing ≠ .noerr)
  (hoperand : ∀ t p r, parseOperand t p = some r → Parses P t p r) {fuel : ℕ}

include hword heof hmissing hoperand

/-- The loop over operators reads operands of the given kind, and behind an
operator, at least one. -/
theorem parseOperators_scans {root : Option (Option CRuleNode)}
    (h : parseOperators op isOr missing parseOperand fuel root t p = some r)
    (hok : r.errcode = .noerr) :
    (r.node.isSome ∧ ∃ ls, Chained P op ls ∧
        Scans t p ls r.nextTok r.ruleptr) ∨
      (root = none ∧ r.node = none ∧ r.nextTok = t ∧ r.ruleptr = p) := by
  induction fuel generalizing root t p with
  | zero => simp [parseOperators] at h
  | succ fuel ih =>
    rw [parseOperators] at h
    cases hfirst : parseOperand t p with
    | none => simp [hfirst] at h
    | some r₁ =>
      have hparses := hoperand t p r₁ hfirst
      simp only [hfirst] at h
      by_cases hop : r₁.errcode = .noerr ∧ r₁.nextTok = op
      · -- An operator follows, so the loop goes on behind it.
        rw [if_pos hop] at h
        obtain ⟨hok₁, hop⟩ := hop
        obtain ⟨t₂, p₂, hnext, h⟩ := nextToken_of_noerr hok h
        have hrest := (ih h).resolve_right (by simp)
        obtain ⟨hnode, ls', hchained, hscans⟩ := hrest
        left
        refine ⟨hnode, ?_⟩
        rcases hparses hok₁ with ⟨-, ls, hP, hfirst⟩ | ⟨-, ht, hp⟩
        · rw [hop] at hfirst
          exact ⟨_, .more hP hchained,
            hfirst.trans (.op hword heof hnext hscans)⟩
        · rw [hop] at ht
          subst ht hp
          exact ⟨_, .missing hchained, .op hword heof hnext hscans⟩
      · rw [if_neg hop] at h
        cases root with
        | none =>
          cases h
          rcases hparses hok with ⟨hnode, ls, hP, hscans⟩ | hnothing
          · exact .inl ⟨hnode, ls, .single hP, hscans⟩
          · exact .inr ⟨rfl, hnothing⟩
        | some arg0 =>
          split_ifs at h with hnode
          · cases h
            rcases hparses hok with ⟨-, ls, hP, hscans⟩ | ⟨hnone, -⟩
            · exact .inl ⟨rfl, ls, .single hP, hscans⟩
            · simp [hnone] at hnode
          · cases h
            exact absurd hok hmissing

theorem parseOperators_parses
    (h : parseOperators op isOr missing parseOperand fuel none t p = some r) :
    Parses (Chained P op) t p r := fun hok =>
  (parseOperators_scans hword heof hmissing hoperand h hok).imp_right And.right

end Operators

variable {ls : List Lexeme}

theorem accepts_andexpr_of_chained (h : Chained (Accepts .primary) .and ls) :
    Accepts .andexpr ls := by
  induction h with
  | single h => exact .andSingle h
  | more h _ ih => exact .andMore h ih
  | missing _ ih => exact .andMissing ih

theorem accepts_orexpr_of_chained
    (h : Chained (Chained (Accepts .primary) .and) .or ls) :
    Accepts .orexpr ls := by
  induction h with
  | single h => exact .orSingle (accepts_andexpr_of_chained h)
  | more h _ ih => exact .orMore (accepts_andexpr_of_chained h) ih
  | missing _ ih => exact .orMissing ih

theorem parseOrExprWith_parses
    {parsePrimary : Token → List Char → Option ParseResult}
    (hprimary : ∀ t p r, parsePrimary t p = some r → Parses (Accepts .primary) t p r)
    {fuel : ℕ} (h : parseOrExprWith parsePrimary fuel t p = some r) :
    Parses (Accepts .orexpr) t p r := by
  have hand : ∀ t p r,
      parseOperators .and false .expctprim parsePrimary fuel none t p =
        some r → Parses (Chained (Accepts .primary) .and) t p r :=
    fun t p r => parseOperators_parses (by decide) (by decide) (by decide)
      hprimary
  intro hok
  refine (parseOperators_parses (by decide) (by decide) (by decide) hand h
    hok).imp_left fun ⟨hnode, ls, hls, hscans⟩ => ?_
  exact ⟨hnode, ls, accepts_orexpr_of_chained hls, hscans⟩

@[simp] theorem isSome_negated (nots : ℕ) (node : Option CRuleNode) :
    (negated nots node).isSome = (decide (nots ≠ 0) || node.isSome) := by
  cases nots <;> simp [negated]

/-- A primary that is parsed without error is one of the grammar; only without
negations in front can there be none. -/
theorem cruleParseprimary_scans {fuel nots : ℕ}
    (h : cruleParseprimary fuel nots t p = some r) (hok : r.errcode = .noerr) :
    (r.node.isSome ∧ ∃ ls, Accepts .primary ls ∧
        Scans t p ls r.nextTok r.ruleptr) ∨
      (nots = 0 ∧ r.node = none ∧ r.nextTok = t ∧ r.ruleptr = p) := by
  induction fuel generalizing nots t p r with
  | zero => simp [cruleParseprimary] at h
  | succ fuel ih =>
    by_cases hopen : t = .openparen
    · subst hopen
      have hinner : ∀ t p r, cruleParseprimary fuel 0 t p = some r →
          Parses (Accepts .primary) t p r :=
        fun t p r h hok => (ih h hok).imp_right And.right
      rw [cruleParseprimary] at h
      obtain ⟨t₁, p₁, hnext, h⟩ := nextToken_of_noerr hok h
      cases hor : parseOrExprWith (cruleParseprimary fuel 0) fuel t₁ p₁ with
      | none => simp [hor] at h
      | some r₁ =>
        simp only [hor] at h
        split_ifs at h with herr hnone hclose
        · exact absurd (errcode_of_some hok h) herr
        · exact absurd (errcode_of_some hok h) (by decide)
        · exact absurd (errcode_of_some hok h) (by decide)
        · obtain ⟨t₂, p₂, hnext', h⟩ := nextToken_of_noerr hok h
          cases h
          have hsome : r₁.node.isSome :=
            Option.isSome_iff_ne_none.mpr (by simpa using hnone)
          rcases parseOrExprWith_parses hinner hor (not_not.mp herr) with
            ⟨-, ls, hls, hscans⟩ | ⟨hnull, -⟩
          · rw [not_not.mp hclose] at hscans
            refine .inl ⟨by simp [hsome], _, .parens hls, ?_⟩
            exact .op (by decide) (by decide) hnext
              (hscans.trans (.op (by decide) (by decide) hnext' (.refl _ _)))
          · simp [hnull] at hsome
    by_cases hnot : t = .not
    · subst hnot
      rw [cruleParseprimary] at h
      obtain ⟨t₁, p₁, hnext, h⟩ := nextToken_of_noerr hok h
      obtain ⟨hnode, ls, hls, hscans⟩ := (ih h hok).resolve_right (by simp)
      exact .inl ⟨hnode, _, .not hls,
        .op (by decide) (by decide) hnext hscans⟩
    by_cases hword : t = .word
    · subst hword
      rw [cruleParseprimary] at h
      cases hfunc : cruleParsefunction p with
      | none => simp [hfunc] at h
      | some r₁ =>
        simp only [hfunc] at h
        cases h
        obtain ⟨hnode, ls, hls, hscans⟩ := cruleParsefunction_scans hfunc hok
        exact .inl ⟨by simp [hnode], ls, hls, hscans⟩
    · rw [cruleParseprimary_other hopen hnot hword] at h
      cases h
      by_cases hnots : nots = 0
      · subst hnots
        exact .inr ⟨rfl, rfl, rfl, rfl⟩
      · simp [hnots] at hok

variable {rule : List Char}

theorem parseRule_scans {node : CRuleNode}
    (h : parseRule rule = some (.noerr, some node)) :
    ∃ t p p' ls, cruleGettoken rule = (.noerr, t, p) ∧
      Accepts .orexpr ls ∧ Scans t p ls .eof p' := by
  have hprimary : ∀ fuel t p r, cruleParseprimary fuel 0 t p = some r →
      Parses (Accepts .primary) t p r :=
    fun fuel t p r h hok =>
      (cruleParseprimary_scans h hok).imp_right And.right
  unfold parseRule at h
  obtain ⟨t, p, hnext, h⟩ :=
    nextToken_elim (P := fun x => x = some (ErrCode.noerr, some node)) h
      (by simp)
  cases hor : cruleParseorexpr (2 * rule.length + 2) t p with
  | none => simp [hor] at h
  | some r =>
    have hok : r.errcode = .noerr := by
      by_contra herr
      simp [hor, herr] at h
    cases hnode : r.node with
    | none => simp [hor, hok, hnode] at h
    | some node' =>
      have heof : r.nextTok = .eof := by
        by_contra heof
        simp [hor, hok, hnode, heof] at h
      rcases parseOrExprWith_parses (hprimary _) hor hok with
        ⟨-, ls, hls, hscans⟩ | ⟨hnull, -⟩
      · rw [heof] at hscans
        exact ⟨t, p, r.ruleptr, ls, hnext, hls, hscans⟩
      · rw [hnode] at hnull
        cases hnull

/-! ## Scanning a text -/

theorem cruleGettoken_spelling {text : List Char} (h : (text, t) ∈ spelling)
    (p : List Char) :
    cruleGettoken (text ++ p) = (.noerr, t, p) ∧ t ≠ .word ∧ t ≠ .eof := by
  simp only [spelling, mem_cons, not_mem_nil, or_false, Prod.mk.injEq] at h
  rcases h with ⟨rfl, rfl⟩ | ⟨rfl, rfl⟩ | ⟨rfl, rfl⟩ | ⟨rfl, rfl⟩ |
    ⟨rfl, rfl⟩ | ⟨rfl, rfl⟩ | ⟨rfl, rfl⟩ | ⟨rfl, rfl⟩ | ⟨rfl, rfl⟩ <;>
    exact ⟨rfl, by decide, by decide⟩

theorem cruleGettoken_word
    {c : Char} (hc : isWordChar c = true ∨ c = quote) (p : List Char) :
    cruleGettoken (c :: p) = (.noerr, .word, c :: p) := by
  have hspecial : ∀ d ∈ [' ', '\t', '&', '|', '=', '!', '(', ')', '<', '>',
      ',', ':', nul], ¬ (isWordChar d = true ∨ d = quote) := by
    simp only [forall_mem_cons, not_mem_nil, false_imp_iff,
      implies_true, and_true]
    decide
  have hmem : ¬ c ∈ [' ', '\t', '&', '|', '=', '!', '(', ')', '<', '>',
      ',', ':', nul] := fun h => hspecial c h hc
  simp only [mem_cons, not_mem_nil, or_false, not_or] at hmem
  have hdoubled : doubled c = none := by simp [doubled, hmem]
  have hsingle : single c = none := by simp [single, hmem]
  have hword : (isWordChar c || c == quote) = true := by
    simpa using hc
  simp [cruleGettoken, cruleGettokenLoop, hmem, hdoubled, hsingle, hword]

theorem cruleGetwordLoop_eq {quoted : Bool} {w p : List Char} {maxlen : ℕ}
    (hw : ∀ c ∈ w, (isWordChar c || (quoted && c != quote)) = true)
    (hp : (isWordChar (peek p) || (quoted && peek p != quote)) = false)
    (hfit : w.length ≤ maxlen) :
    cruleGetwordLoop quoted maxlen (w ++ p) = (w, p) := by
  induction w generalizing maxlen with
  | nil => cases maxlen <;> simp [cruleGetwordLoop, hp]
  | cons c w ih =>
    cases maxlen with
    | zero => simp at hfit
    | succ maxlen =>
      have hrest := ih (fun d hd => hw d (by simp [hd]))
        (Nat.le_of_succ_le_succ hfit)
      simp [cruleGetwordLoop, peek, hw c (by simp), hrest]

theorem cruleGetword_unquoted
    {w p : List Char} (hne : w ≠ []) (hw : ∀ c ∈ w, isWordChar c = true)
    (hp : isWordChar (peek p) = false) (hfit : w.length < crMaxarglen) :
    cruleGetword (crMaxarglen - 1) (w ++ p) = (w, p) := by
  have hquote : peek (w ++ p) ≠ quote := by
    obtain ⟨c, w, rfl⟩ := exists_cons_of_ne_nil hne
    intro heq
    have hc := hw c (by simp)
    rw [show c = quote from heq] at hc
    exact absurd hc (by decide)
  rw [cruleGetword, if_neg hquote]
  exact cruleGetwordLoop_eq (by simpa using hw) (by simpa using hp)
    (Nat.le_pred_of_lt hfit)

theorem cruleGetword_quoted {w : List Char} (hw : quote ∉ w)
    (hfit : w.length < crMaxarglen) (p : List Char) :
    cruleGetword (crMaxarglen - 1) (quote :: (w ++ quote :: p)) = (w, p) := by
  have hloop : cruleGetwordLoop true (crMaxarglen - 1) (w ++ quote :: p) =
      (w, quote :: p) := by
    refine cruleGetwordLoop_eq (fun c hc => ?_) rfl (Nat.le_pred_of_lt hfit)
    simp [ne_of_mem_of_not_mem hc hw]
  simp [cruleGetword, peek, hloop]

/-- Every word of the rule fits into the word buffer. -/
def WordsFit (rule : List Char) : Prop :=
  ∀ ls, Lexes rule ls → ∀ w, Lexeme.word w ∈ ls → w.length < crMaxarglen

theorem length_le_of_lexes (h : Lexes rule ls) {w : List Char}
    (hw : Lexeme.word w ∈ ls) : w.length ≤ rule.length := by
  induction h with
  | endOfInput | colon rest => cases hw
  | blank hc hrest ih => exact (ih hw).trans (Nat.le_succ _)
  | op ht hrest ih =>
    have hle := ih (by simpa using hw)
    rw [length_append]
    omega
  | word hne hchars hmax hrest ih =>
    rw [length_append]
    rcases mem_cons.mp hw with heq | hw
    · cases heq
      omega
    · have hle := ih hw
      omega
  | quoted hchars hrest ih =>
    simp only [length_cons, length_append]
    rcases mem_cons.mp hw with heq | hw
    · cases heq
      omega
    · have hle := ih hw
      omega

theorem scans_of_lexes (h : Lexes rule ls)
    (hfit : ∀ w, Lexeme.word w ∈ ls → w.length < crMaxarglen)
    (after : List Char) :
    ∃ t p p', cruleGettoken (memoryOf rule after) = (.noerr, t, p) ∧
      Scans t p ls .eof p' := by
  induction h with
  | endOfInput | colon rest => exact ⟨.eof, _, _, rfl, .refl _ _⟩
  | @blank c rest ls hc hrest ih =>
    obtain ⟨t, p, p', hnext, hscans⟩ := ih hfit
    refine ⟨t, p, p', ?_, hscans⟩
    rw [memoryOf, cons_append, cruleGettoken, cruleGettokenLoop, if_pos hc]
    exact hnext
  | @op text rest t ls ht hrest ih =>
    obtain ⟨t', p, p', hnext, hscans⟩ := ih fun w hw => hfit w (by simp [hw])
    obtain ⟨htoken, hword, heof⟩ :=
      cruleGettoken_spelling ht (memoryOf rest after)
    refine ⟨t, memoryOf rest after, p', ?_, .op hword heof hnext hscans⟩
    rwa [memoryOf, append_assoc]
  | @word w rest ls hne hw hmax hrest ih =>
    obtain ⟨t', p, p', hnext, hscans⟩ := ih fun w hw => hfit w (by simp [hw])
    have hhead : isWordChar (peek (memoryOf rest after)) = false := by
      cases rest with
      | nil => rfl
      | cons c rest => exact hmax c (by simp)
    have hget := cruleGetword_unquoted hne hw hhead (hfit w (by simp))
    obtain ⟨c, w, rfl⟩ := exists_cons_of_ne_nil hne
    refine ⟨.word, c :: w ++ memoryOf rest after, p', ?_,
      .word hget hnext hscans⟩
    rw [memoryOf, append_assoc]
    exact cruleGettoken_word (.inl (hw c (by simp))) _
  | @quoted w rest ls hw hrest ih =>
    obtain ⟨t', p, p', hnext, hscans⟩ := ih fun w hw => hfit w (by simp [hw])
    have hget := cruleGetword_quoted hw (hfit w (by simp))
      (memoryOf rest after)
    refine ⟨.word, quote :: (w ++ quote :: memoryOf rest after), p', ?_,
      .word hget hnext hscans⟩
    have htext : memoryOf (quote :: (w ++ quote :: rest)) after =
        quote :: (w ++ quote :: memoryOf rest after) := by
      simp [memoryOf]
    rw [htext]
    exact cruleGettoken_word (.inr rfl) _

/-! ## Accepted rules -/

theorem errcode_of_parseRule_node {e : ErrCode} {node : CRuleNode}
    (h : parseRule rule = some (e, some node)) : e = .noerr := by
  obtain ⟨t, p, -, h⟩ := nextToken_elim
    (P := fun r => r = some (e, some node)) h (by simp)
  split at h
  · cases h
  · split_ifs at h
    · cases h
    · split at h <;> cases h
      rfl
    · split at h <;> cases h

/-- The rule is accepted, by `crule_parse` with a tree and by `crule_test`
with the result 0. -/
theorem accepted_iff (rule after : List Char) :
    ((cruleParse rule after).isSome ↔
        ∃ node, parseRule (memoryOf rule after) = some (.noerr, some node)) ∧
      (cruleTest rule after = 0 ↔
        ∃ node, parseRule (memoryOf rule after) =
          some (.noerr, some node)) := by
  cases hparse : parseRule (memoryOf rule after) with
  | none => simp [cruleParse, cruleTest, hparse]
  | some r =>
    obtain ⟨e, node⟩ := r
    cases node with
    | none => cases e <;> simp [cruleParse, cruleTest, hparse]
    | some node =>
      cases errcode_of_parseRule_node hparse
      simp [cruleParse, cruleTest, hparse]

/-- For a rule that `crule_parse` or `crule_test` accepts and whose words fit
into the word buffer, belonging to the documented grammar and being clean are
the same. -/
theorem inGrammar_iff_clean_of_accepted
    (rule after : List Char)
    (haccept : (cruleParse rule after).isSome = true ∨
      cruleTest rule after = 0)
    (hfit : WordsFit rule) : InGrammar rule ↔ Clean rule := by
  constructor
  · rintro ⟨ls, hlexes, hderives⟩
    exact ⟨ls, hlexes, (sentence_of_derives hderives).cons (.inl rfl)⟩
  · rintro ⟨ls, hlexes, hchain⟩
    obtain ⟨hparsed, htested⟩ := accepted_iff rule after
    obtain ⟨node, hparse⟩ := haccept.elim hparsed.mp htested.mp
    obtain ⟨t, p, p', ls', hnext, haccepts, hscans⟩ := parseRule_scans hparse
    obtain ⟨t', q, q', hnext', hscans'⟩ :=
      scans_of_lexes hlexes (hfit ls hlexes) after
    rw [hnext] at hnext'
    cases hnext'
    cases hscans.eq_of_eof hscans'
    exact ⟨ls, hlexes, derives_of_accepts haccepts (.inl rfl) hchain⟩

theorem inGrammar_directop :
    (cruleParse "directop()".toList []).isSome = true ∧
      InGrammar "directop()".toList := by
  have hclean : Clean "directop()".toList := by
    have hclose : Lexes [')'] [.op .closeparen] :=
      @Lexes.op [')'] [] _ _ (by decide) .endOfInput
    have hopen : Lexes ['(', ')'] [.op .openparen, .op .closeparen] :=
      @Lexes.op ['('] [')'] _ _ (by decide) hclose
    refine ⟨[.word "directop".toList, .op .openparen, .op .closeparen],
      @Lexes.word "directop".toList ['(', ')'] _ (by decide)
        (all_eq_true.mp (by decide)) (by rintro _ ⟨⟩; decide) hopen, ?_⟩
    refine isChain_cons_cons.mpr ⟨?_, isChain_cons_cons.mpr
      ⟨?_, isChain_cons_cons.mpr ⟨?_, isChain_singleton _⟩⟩⟩ <;>
      constructor <;> simp
  exact ⟨by decide, (inGrammar_iff_clean_of_accepted _ []
    (.inl (by decide)) (fun _ hlexes _ hw =>
      (length_le_of_lexes hlexes hw).trans_lt (by decide))).mpr hclean⟩

/-! ## Rules outside the grammar that are accepted -/

theorem lexes_ampersand {c : Char} {rest : List Char}
    (h : Lexes ('&' :: c :: rest) ls) :
    c = '&' ∧ ∃ ls', ls = .op .and :: ls' := by
  generalize htext : '&' :: c :: rest = text at h
  cases h with
  | endOfInput => cases htext
  | colon rest => simp at htext
  | blank hc hrest =>
    cases htext
    exact absurd hc (by decide)
  | op ht hrest =>
    simp only [spelling, mem_cons, Prod.mk.injEq, not_mem_nil, or_false] at ht
    rcases ht with ⟨rfl, rfl⟩ | ⟨rfl, rfl⟩ | ⟨rfl, rfl⟩ | ⟨rfl, rfl⟩ |
      ⟨rfl, rfl⟩ | ⟨rfl, rfl⟩ | ⟨rfl, rfl⟩ | ⟨rfl, rfl⟩ | ⟨rfl, rfl⟩ <;>
      simp at htext
    exact ⟨htext.1, _, rfl⟩
  | word hne hw hmax hrest =>
    obtain ⟨d, w, rfl⟩ := exists_cons_of_ne_nil hne
    have hd := hw d (by simp)
    rw [← (List.cons.inj htext).1] at hd
    exact absurd hd (by decide)
  | quoted hw hrest =>
    exact absurd (List.cons.inj htext).1 (by decide)

theorem not_inGrammar_ampersand (c : Char) (rest : List Char) :
    ¬ InGrammar ('&' :: c :: rest) := by
  rintro ⟨ls, hlexes, hderives⟩
  obtain ⟨-, ls', rfl⟩ := lexes_ampersand hlexes
  obtain ⟨l, rest, hls, hstarts⟩ := (sentence_of_derives hderives).starts
  cases hls
  simp [Lexeme.StartsOperand] at hstarts

/-- A stray ampersand is skipped, and an operator whose first operand is
missing is accepted. -/
theorem accepted_ampersand_directop :
    ((cruleParse "&directop()".toList []).isSome = true ∧
      cruleTest "&directop()".toList [] = 0 ∧
      ¬ InGrammar "&directop()".toList) ∧
    ((cruleParse "&&directop()".toList []).isSome = true ∧
      cruleTest "&&directop()".toList [] = 0 ∧
      ¬ InGrammar "&&directop()".toList) :=
  ⟨⟨by decide, by decide, not_inGrammar_ampersand _ _⟩,
    ⟨by decide, by decide, not_inGrammar_ampersand _ _⟩⟩

end UnrealIrcd.CRule
