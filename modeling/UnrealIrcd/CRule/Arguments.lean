import UnrealIrcd.CRule.Soundness
import UnrealIrcd.CRule.Termination

/-!
# The arguments of a function call

A node has room for `CR_MAXARGS` arguments.  Their number is only compared with
what the function requires, after all of them were stored.
-/

namespace UnrealIrcd.CRule

open Support

def crMaxargs : ℕ := 5

/-- The number of arguments that words and commas make, up to the token `t`.
The last one is complete unless another word follows. -/
def argCount (t : Token) : Bool → List Lexeme → ℕ
  | pending, [] => if pending ∧ t ≠ .word then 1 else 0
  | pending, .word w :: ls => argCount t (pending || cstring w != []) ls
  | pending, .op _ :: ls => (if pending then 1 else 0) + argCount t false ls

/-- However far words and commas are read from `t` and `p` on, `P` holds of them
and the token behind them. -/
def ReadsArgs (t : Token) (p : List Char) (P : List Lexeme → Token → Prop) :
    Prop :=
  ∀ ls t' p', (∀ l ∈ ls, l.IsArgPart) → Scans t p ls t' p' → P ls t'

theorem cruleGetword_fst_length_le (maxlen : ℕ) (p : List Char) :
    (cruleGetword maxlen p).1.length ≤ maxlen := by
  have hloop : ∀ quoted (p : List Char),
      (cruleGetwordLoop quoted maxlen p).1.length ≤ maxlen := by
    intro quoted
    induction maxlen with
    | zero => simp [cruleGetwordLoop]
    | succ maxlen ih =>
      intro p
      rw [cruleGetwordLoop]
      split
      · exact Nat.succ_le_succ (ih p.tail)
      · simp
  unfold cruleGetword
  split
  · exact hloop true p.tail
  · exact hloop false p

theorem length_addArg (args : List (List Char)) (currarg : List Char) :
    (addArg args currarg).length =
      args.length + if currarg ≠ [] then 1 else 0 := by
  unfold addArg
  split <;> simp

theorem addWord_ne_nil (currarg : List Char) (arglen : ℕ) (word : List Char) :
    ((addWord currarg arglen word).1 != []) =
      (currarg != [] || cstring word != []) := by
  rw [Bool.eq_iff_iff]
  unfold addWord
  split_ifs with hpending hroom <;> simp [hpending]

variable {t : Token} {p : List Char} {args : List (List Char)}

theorem readsArgs_iff {P : List Lexeme → Token → Prop} :
    ReadsArgs t p P ↔ P [] t ∧
      (t = .word → ∀ t₁ p₁,
        cruleGettoken (cruleGetword (crMaxarglen - 1) p).2 = (.noerr, t₁, p₁) →
        ReadsArgs t₁ p₁ fun ls =>
          P (.word (cruleGetword (crMaxarglen - 1) p).1 :: ls)) ∧
      (t = .comma → ∀ t₁ p₁, cruleGettoken p = (.noerr, t₁, p₁) →
        ReadsArgs t₁ p₁ fun ls => P (.op .comma :: ls)) := by
  constructor
  · intro h
    refine ⟨h [] t p (by simp) (.refl t p), ?_, ?_⟩
    · rintro rfl t₁ p₁ hnext ls t' p' hls hscans
      exact h _ t' p' (by simpa [Lexeme.IsArgPart] using hls)
        (.word rfl hnext hscans)
    · rintro rfl t₁ p₁ hnext ls t' p' hls hscans
      exact h _ t' p' (by simpa [Lexeme.IsArgPart] using hls)
        (.op (by decide) (by decide) hnext hscans)
  · rintro ⟨hnil, hword, hcomma⟩ ls t' p' hls hscans
    cases hscans with
    | refl => exact hnil
    | op hne heof hnext hrest =>
      obtain ⟨hl, hls'⟩ := List.forall_mem_cons.1 hls
      obtain heq | ⟨w, heq⟩ := hl <;> cases heq
      exact hcomma rfl _ _ hnext _ t' p' hls' hrest
    | word hget hnext hrest =>
      rw [hget] at hword
      exact hword rfl _ _ hnext _ t' p' (List.forall_mem_cons.1 hls).2 hrest

/-- The arguments stored by the loop, counted by the words and commas it
reads. -/
theorem length_args_le_iff {n fuel arglen : ℕ} {currarg : List Char}
    {r : ArgResult}
    (h : cruleParsearglistLoop fuel args currarg arglen t p = some r) :
    r.args.length ≤ n ↔ ReadsArgs t p fun ls t' =>
      args.length + argCount t' (currarg != []) ls ≤ n := by
  induction fuel generalizing args currarg arglen t p with
  | zero => simp [cruleParsearglistLoop] at h
  | succ fuel ih =>
    rw [cruleParsearglistLoop] at h
    rw [readsArgs_iff]
    split_ifs at h with hword hcomma
    · subst hword
      dsimp only [nextToken] at h
      split at h
      next t₁ p₁ hnext =>
        rw [ih h, addWord_ne_nil]
        refine ⟨fun hall => ⟨?_, fun _ t₂ p₂ hnext' => ?_, (by cases ·)⟩,
          fun hall => hall.2.1 rfl t₁ p₁ hnext⟩
        · have := (readsArgs_iff.1 hall).1
          simp [argCount]
          omega
        · rw [hnext] at hnext'
          cases hnext'
          exact hall
      next e t₁ p₁ herr hnext =>
        cases h
        have herr : e ≠ .noerr := herr
        simp [hnext, herr, argCount]
    · cases h
      simp [hword, hcomma, argCount, length_addArg]
    · have hcomma : t = .comma := not_not.mp hcomma
      subst hcomma
      dsimp only [nextToken] at h
      split at h
      next t₁ p₁ hnext =>
        rw [ih h, length_addArg]
        refine ⟨fun hall => ⟨?_, (by cases ·), fun _ t₂ p₂ hnext' => ?_⟩,
          fun hall => ?_⟩
        · have := (readsArgs_iff.1 hall).1
          simp [argCount] at this ⊢
          omega
        · rw [hnext] at hnext'
          cases hnext'
          simpa [argCount, add_assoc] using hall
        · simpa [argCount, add_assoc] using hall.2.2 rfl t₁ p₁ hnext
      next e t₁ p₁ herr hnext =>
        cases h
        have herr : e ≠ .noerr := herr
        simp [hnext, herr, argCount, length_addArg]

/-- The current argument fits into its buffer, as far as it is in use. -/
def FitsBuffer (currarg : List Char) (arglen : ℕ) : Prop :=
  currarg ≠ [] → currarg.length ≤ arglen ∧ arglen < crMaxarglen

theorem fitsBuffer_addWord {currarg word : List Char} {arglen : ℕ}
    (h : FitsBuffer currarg arglen) (hword : word.length ≤ crMaxarglen - 1) :
    FitsBuffer (addWord currarg arglen word).1
      (addWord currarg arglen word).2 := by
  have hle : (cstring word).length ≤ word.length :=
    (List.takeWhile_sublist _).length_le
  intro hne
  unfold addWord at hne ⊢
  split_ifs with hpending hroom
  · have := h hpending
    simp only [List.length_append, List.length_cons]
    omega
  · exact h hpending
  · simp only [crMaxarglen] at hword ⊢
    omega

theorem length_lt_of_mem_args {fuel arglen : ℕ} {currarg : List Char}
    {r : ArgResult}
    (h : cruleParsearglistLoop fuel args currarg arglen t p = some r)
    (hargs : ∀ arg ∈ args, arg.length < crMaxarglen)
    (hcurrarg : FitsBuffer currarg arglen) :
    ∀ arg ∈ r.args, arg.length < crMaxarglen := by
  induction fuel generalizing args currarg arglen t p with
  | zero => simp [cruleParsearglistLoop] at h
  | succ fuel ih =>
    have hadd : ∀ arg ∈ addArg args currarg, arg.length < crMaxarglen := by
      unfold addArg
      split
      case isTrue hne =>
        have := hcurrarg hne
        simp only [List.forall_mem_append, List.forall_mem_singleton]
        exact ⟨hargs, by omega⟩
      case isFalse => exact hargs
    rw [cruleParsearglistLoop] at h
    dsimp only [nextToken] at h
    split_ifs at h
    · split at h
      · exact ih h hargs
          (fitsBuffer_addWord hcurrarg (cruleGetword_fst_length_le _ p))
      · cases h
        exact hargs
    · cases h
      exact hadd
    · split at h
      · exact ih h hadd (absurd rfl)
      · cases h
        exact hadd

theorem cruleParseArguments_rejects {func : FuncListEnt} {p' : List Char}
    {a : ArgResult} {r : ParseResult} (hfunc : func ∈ cruleFunclist)
    (hnext : cruleGettoken p = (.noerr, t, p'))
    (hargs : cruleParsearglist t p' = some a)
    (hmany : a.args.length > crMaxargs)
    (h : cruleParseArguments func p = some r) : r.errcode ≠ .noerr := by
  have htable : ∀ func ∈ cruleFunclist,
      func.reqnumargs ≠ -1 ∧ func.reqnumargs ≤ crMaxargs := by
    decide
  intro hok
  simp only [cruleParseArguments, nextToken, hnext, hargs] at h
  split_ifs at h with herr hclose hnumargs
  · exact herr (errcode_of_some hok h)
  · exact absurd (errcode_of_some hok h) (by decide)
  · exact absurd (errcode_of_some hok h) (by decide)
  · have := htable func hfunc
    omega

/-- The parser stores arguments that fit into their buffers and rejects a call
with too many of them, but it has room for all that it stores only if the rule
has few enough. -/
theorem cruleParsearglist_bounded_iff {p' : List Char}
    (hnext : cruleGettoken p = (.noerr, t, p')) :
    ∃ a, cruleParsearglist t p' = some a ∧
      (∀ arg ∈ a.args, arg.length < crMaxarglen) ∧
      (a.args.length > crMaxargs → ∀ func ∈ cruleFunclist, ∀ r,
        cruleParseArguments func p = some r → r.errcode ≠ .noerr) ∧
      (a.args.length ≤ crMaxargs ↔ ReadsArgs t p' fun ls t' =>
        argCount t' false ls ≤ crMaxargs) := by
  obtain ⟨-, hword⟩ := scanned_cruleGettokenLoop none p
  rw [← cruleGettoken, hnext] at hword
  obtain ⟨a, ha, -⟩ := cruleParsearglistLoop_ends hword
    (Nat.lt_of_le_of_lt (parsing_le t p') (Nat.lt_succ_self _)) [] [] 0
  refine ⟨a, ha, length_lt_of_mem_args ha (by simp) (absurd rfl), ?_, ?_⟩
  · intro hmany func hfunc r
    exact cruleParseArguments_rejects hfunc hnext ha hmany
  · simpa using length_args_le_iff ha

theorem cruleParsearglist_bounded_single :
    ∃ a, cruleParsearglist .word ['a', ')'] = some a ∧
      (∀ arg ∈ a.args, arg.length < crMaxarglen) := by
  obtain ⟨a, ha, hlength, -⟩ := cruleParsearglist_bounded_iff
    (show cruleGettoken ['a', ')'] = (.noerr, .word, ['a', ')']) by decide)
  exact ⟨a, ha, hlength⟩

/-- Six arguments are stored in a node with room for five. -/
theorem cruleParsearglist_sixArguments :
    ∃ a, cruleParsearglist .word
      ['a', ',', 'b', ',', 'c', ',', 'd', ',', 'e', ',', 'f', ')'] = some a ∧
      crMaxargs < a.args.length :=
  ⟨⟨.noerr, [['a'], ['b'], ['c'], ['d'], ['e'], ['f']], .closeparen, []⟩,
    rfl, by decide⟩

end UnrealIrcd.CRule
