import UnrealIrcd.CRule.Parser
import Mathlib.Data.List.Chain

/-!
# The grammar of connection rules

The grammar documented at the top of `crule.c`, with the comparisons behind a
function call, stated without reference to the scanner and the parser: how a
text is divided into lexemes (`Lexes`), and which sequences of lexemes are
rules (`Derives`).

`Accepts` is the larger grammar that the parser implements: the first operand
of an operator may be missing, and an argument list is any sequence of words
and commas.  The two grammars differ by a condition on neighbouring lexemes,
`Adjacent`.
-/

namespace UnrealIrcd.CRule

open Support List

/-- A word with its text, or one of the other tokens. -/
inductive Lexeme where
  | op (t : Token)
  | word (w : List Char)
  deriving DecidableEq, Repr

/-! ## The documented grammar -/

/-- The operators and punctuation of the grammar with their spelling. -/
def spelling : List (List Char × Token) :=
  [(['&', '&'], .and), (['|', '|'], .or), (['!'], .not),
    (['('], .openparen), ([')'], .closeparen), ([','], .comma),
    (['=', '='], .equal), (['<'], .lessThan), (['>'], .moreThan)]

/-- How a text is divided into lexemes.  It ends at the end of input or at a
colon. -/
inductive Lexes : List Char → List Lexeme → Prop where
  | endOfInput : Lexes [] []
  | colon (rest : List Char) : Lexes (':' :: rest) []
  | blank {c : Char} {rest : List Char} {ls : List Lexeme}
      (hc : c = ' ' ∨ c = '\t') (hrest : Lexes rest ls) :
      Lexes (c :: rest) ls
  | op {text rest : List Char} {t : Token} {ls : List Lexeme}
      (ht : (text, t) ∈ spelling) (hrest : Lexes rest ls) :
      Lexes (text ++ rest) (.op t :: ls)
  | word {w rest : List Char} {ls : List Lexeme}
      (hne : w ≠ []) (hw : ∀ c ∈ w, isWordChar c = true)
      (hmax : ∀ c ∈ rest.head?, isWordChar c = false)
      (hrest : Lexes rest ls) : Lexes (w ++ rest) (.word w :: ls)
  | quoted {w rest : List Char} {ls : List Lexeme}
      (hw : quote ∉ w) (hrest : Lexes rest ls) :
      Lexes (quote :: (w ++ quote :: rest)) (.word w :: ls)

inductive ArgList : List Lexeme → Prop where
  | single (w : List Char) : ArgList [.word w]
  | cons (w : List Char) {ls : List Lexeme} (h : ArgList ls) :
      ArgList (.word w :: .op .comma :: ls)

def KnownFunction (name : List Char) : Prop :=
  ∃ entry ∈ cruleFunclist, strcasecmp (cstring name) entry.name.toList = .eq

/-- What may follow a function call: nothing, or a comparison with a value. -/
inductive Comparison : List Lexeme → Prop where
  | none : Comparison []
  | test {t : Token} (ht : t.isComparisson = true) (value : List Char) :
      Comparison [.op t, .word value]

inductive Nonterminal where
  | orexpr
  | andexpr
  | primary
  deriving DecidableEq, Repr

/-- The production rules. -/
inductive Derives : Nonterminal → List Lexeme → Prop where
  | orSingle {ls : List Lexeme} (h : Derives .andexpr ls) : Derives .orexpr ls
  | orMore {ls ls' : List Lexeme} (h : Derives .andexpr ls)
      (h' : Derives .orexpr ls') : Derives .orexpr (ls ++ .op .or :: ls')
  | andSingle {ls : List Lexeme} (h : Derives .primary ls) :
      Derives .andexpr ls
  | andMore {ls ls' : List Lexeme} (h : Derives .primary ls)
      (h' : Derives .andexpr ls') : Derives .andexpr (ls ++ .op .and :: ls')
  | function {name : List Char} {args comparison : List Lexeme}
      (hname : KnownFunction name) (hargs : args = [] ∨ ArgList args)
      (hcomparison : Comparison comparison) :
      Derives .primary (.word name :: .op .openparen ::
        (args ++ .op .closeparen :: comparison))
  | not {ls : List Lexeme} (h : Derives .primary ls) :
      Derives .primary (.op .not :: ls)
  | parens {ls : List Lexeme} (h : Derives .orexpr ls) :
      Derives .primary (.op .openparen :: (ls ++ [.op .closeparen]))

/-- The rule belongs to the documented grammar. -/
def InGrammar (rule : List Char) : Prop :=
  ∃ ls, Lexes rule ls ∧ Derives .orexpr ls

/-! ## The grammar of the parser -/

def Lexeme.IsArgPart (l : Lexeme) : Prop :=
  l = .op .comma ∨ ∃ w, l = .word w

/-- The production rules that the parser implements. -/
inductive Accepts : Nonterminal → List Lexeme → Prop where
  | orSingle {ls : List Lexeme} (h : Accepts .andexpr ls) : Accepts .orexpr ls
  | orMore {ls ls' : List Lexeme} (h : Accepts .andexpr ls)
      (h' : Accepts .orexpr ls') : Accepts .orexpr (ls ++ .op .or :: ls')
  | orMissing {ls : List Lexeme} (h : Accepts .orexpr ls) :
      Accepts .orexpr (.op .or :: ls)
  | andSingle {ls : List Lexeme} (h : Accepts .primary ls) :
      Accepts .andexpr ls
  | andMore {ls ls' : List Lexeme} (h : Accepts .primary ls)
      (h' : Accepts .andexpr ls') : Accepts .andexpr (ls ++ .op .and :: ls')
  | andMissing {ls : List Lexeme} (h : Accepts .andexpr ls) :
      Accepts .andexpr (.op .and :: ls)
  | function {name : List Char} {args comparison : List Lexeme}
      (hname : KnownFunction name) (hargs : ∀ l ∈ args, l.IsArgPart)
      (hcomparison : Comparison comparison) :
      Accepts .primary (.word name :: .op .openparen ::
        (args ++ .op .closeparen :: comparison))
  | not {ls : List Lexeme} (h : Accepts .primary ls) :
      Accepts .primary (.op .not :: ls)
  | parens {ls : List Lexeme} (h : Accepts .orexpr ls) :
      Accepts .primary (.op .openparen :: (ls ++ [.op .closeparen]))

/-! ## Where the two grammars differ -/

def Lexeme.EndsOperand (l : Lexeme) : Prop :=
  l = .op .closeparen ∨ ∃ w, l = .word w

/-- The condition on neighbours: an `&&` or `||` stands behind an operand, a
comma stands between two words, and no word directly follows another. -/
structure Adjacent (l l' : Lexeme) : Prop where
  operator : l' = .op .and ∨ l' = .op .or → l.EndsOperand
  before_comma : l' = .op .comma → ∃ w, l = .word w
  after_comma : l = .op .comma → ∃ w, l' = .word w
  words : ∀ w w', ¬ (l = .word w ∧ l' = .word w')

/-- The condition on a whole rule.  The parenthesis in front stands for the
beginning, where no operator may follow either. -/
def Clean (rule : List Char) : Prop :=
  ∃ ls, Lexes rule ls ∧ (.op .openparen :: ls).IsChain Adjacent

def Lexeme.ExpectsOperand (l : Lexeme) : Prop :=
  l = .op .openparen ∨ l = .op .not ∨ l = .op .and ∨ l = .op .or

variable {l : Lexeme}

theorem Lexeme.ExpectsOperand.not_endsOperand (h : l.ExpectsOperand) :
    ¬ l.EndsOperand := by
  rcases h with rfl | rfl | rfl | rfl <;> simp [Lexeme.EndsOperand]

/-- Words and commas with only allowed neighbours form an argument list, which
may be empty only directly behind the parenthesis. -/
theorem argList_of_isChain :
    ∀ {l : Lexeme} {args rest : List Lexeme},
      l = .op .openparen ∨ l = .op .comma →
      (∀ a ∈ args, a.IsArgPart) →
      (l :: (args ++ .op .closeparen :: rest)).IsChain Adjacent →
      (args = [] ∧ l = .op .openparen) ∨ ArgList args
  | l, [], rest, hl, _, h => by
      rcases hl with rfl | rfl
      · exact .inl ⟨rfl, rfl⟩
      · obtain ⟨w, hw⟩ := (isChain_cons_cons.mp h).1.after_comma rfl
        cases hw
  | l, [a], rest, hl, hargs, h => by
      right
      rcases hargs a (by simp) with rfl | ⟨w, rfl⟩
      · obtain ⟨w, rfl⟩ := (isChain_cons_cons.mp h).1.before_comma rfl
        rcases hl with hl | hl <;> cases hl
      · exact .single w
  | l, a :: b :: args, rest, hl, hargs, h => by
      right
      simp only [cons_append, isChain_cons_cons] at h
      obtain ⟨hfirst, hsecond, h⟩ := h
      rcases hargs a (by simp) with rfl | ⟨w, rfl⟩
      · obtain ⟨w, rfl⟩ := hfirst.before_comma rfl
        rcases hl with hl | hl <;> cases hl
      · rcases hargs b (by simp) with rfl | ⟨w', rfl⟩
        · have hrest : ∀ a ∈ args, a.IsArgPart := fun a ha =>
            hargs a (by simp [ha])
          rcases argList_of_isChain (.inr rfl) hrest h with ⟨-, hl'⟩ | hlist
          · cases hl'
          · exact .cons w hlist
        · exact absurd ⟨rfl, rfl⟩ (hsecond.words w w')

variable {ls : List Lexeme}

/-- The parser's grammar without the forbidden neighbours is the documented
one. -/
theorem derives_of_accepts {n : Nonterminal} (h : Accepts n ls)
    (hl : l.ExpectsOperand) (hchain : (l :: ls).IsChain Adjacent) :
    Derives n ls := by
  induction h generalizing l with
  | orSingle h ih => exact .orSingle (ih hl hchain)
  | @orMore ls ls' h h' ih ih' =>
    have hboth := isChain_append.mp
      (show ((l :: ls) ++ .op .or :: ls').IsChain Adjacent from hchain)
    exact .orMore (ih hl hboth.1)
      (ih' (.inr (.inr (.inr rfl))) hboth.2.1)
  | orMissing h ih =>
    have hfirst := (isChain_cons_cons.mp hchain).1
    exact absurd (hfirst.operator (.inr rfl)) hl.not_endsOperand
  | andSingle h ih => exact .andSingle (ih hl hchain)
  | @andMore ls ls' h h' ih ih' =>
    have hboth := isChain_append.mp
      (show ((l :: ls) ++ .op .and :: ls').IsChain Adjacent from hchain)
    exact .andMore (ih hl hboth.1)
      (ih' (.inr (.inr (.inl rfl))) hboth.2.1)
  | andMissing h ih =>
    have hfirst := (isChain_cons_cons.mp hchain).1
    exact absurd (hfirst.operator (.inl rfl)) hl.not_endsOperand
  | function hname hargs hcomparison =>
    have hcall := (isChain_cons_cons.mp (isChain_cons_cons.mp hchain).2).2
    refine .function hname ?_ hcomparison
    exact (argList_of_isChain (.inl rfl) hargs hcall).imp_left And.left
  | not h ih =>
    have hrest := (isChain_cons_cons.mp hchain).2
    exact .not (ih (.inr (.inl rfl)) hrest)
  | @parens ls h ih =>
    have hrest := (isChain_cons_cons.mp hchain).2
    have hinner := (isChain_append.mp
      (show ((Lexeme.op .openparen :: ls) ++ [Lexeme.op .closeparen]).IsChain
        Adjacent from hrest)).1
    exact .parens (ih (.inl rfl) hinner)

/-! ## Rules of the documented grammar are clean -/

def Lexeme.StartsOperand (l : Lexeme) : Prop :=
  l = .op .openparen ∨ l = .op .not ∨ ∃ w, l = .word w

theorem adjacent_of_expectsOperand
    {l l' : Lexeme} (hl : l.ExpectsOperand) (hl' : l'.StartsOperand) :
    Adjacent l l' := by
  rcases hl with rfl | rfl | rfl | rfl <;>
    rcases hl' with rfl | rfl | ⟨w, rfl⟩ <;>
    constructor <;> simp [Lexeme.EndsOperand]

/-- What the sentences of the grammar have in common. -/
structure Sentence (ls : List Lexeme) : Prop where
  starts : ∃ l rest, ls = l :: rest ∧ l.StartsOperand
  ends : ∃ init l, ls = init ++ [l] ∧ l.EndsOperand
  chain : ls.IsChain Adjacent

theorem Sentence.cons
    {ls : List Lexeme} (h : Sentence ls) {l : Lexeme} (hl : l.ExpectsOperand) :
    (l :: ls).IsChain Adjacent := by
  obtain ⟨first, rest, rfl, hfirst⟩ := h.starts
  exact isChain_cons_cons.mpr
    ⟨adjacent_of_expectsOperand hl hfirst, h.chain⟩

theorem Sentence.append_cons {ls rest : List Lexeme} (h : Sentence ls)
    (hl : l = .op .and ∨ l = .op .or ∨ l = .op .closeparen)
    (hrest : (l :: rest).IsChain Adjacent) :
    (ls ++ l :: rest).IsChain Adjacent := by
  obtain ⟨init, last, rfl, hlast⟩ := h.ends
  refine h.chain.append hrest ?_
  simp only [getLast?_append, getLast?_singleton, Option.some_or,
    Option.mem_def, Option.some.injEq, head?_cons, forall_eq']
  rcases hlast with rfl | ⟨w, rfl⟩ <;> rcases hl with rfl | rfl | rfl <;>
    constructor <;> simp [Lexeme.EndsOperand]

theorem Sentence.join {ls ls' : List Lexeme} (h : Sentence ls)
    (h' : Sentence ls') (hl : l = .op .and ∨ l = .op .or) :
    Sentence (ls ++ l :: ls') := by
  have hexpects : l.ExpectsOperand := by
    rcases hl with rfl | rfl
    · exact .inr (.inr (.inl rfl))
    · exact .inr (.inr (.inr rfl))
  refine ⟨?_, ?_, ?_⟩
  · obtain ⟨first, rest, rfl, hfirst⟩ := h.starts
    exact ⟨first, rest ++ l :: ls', rfl, hfirst⟩
  · obtain ⟨init, last, rfl, hlast⟩ := h'.ends
    exact ⟨ls ++ l :: init, last, by simp, hlast⟩
  · exact h.append_cons (by tauto) (h'.cons hexpects)

theorem sentence_argList (h : ArgList ls) : Sentence ls := by
  induction h with
  | single w =>
    exact ⟨⟨_, [], rfl, .inr (.inr ⟨w, rfl⟩)⟩,
      ⟨[], _, rfl, .inr ⟨w, rfl⟩⟩, isChain_singleton _⟩
  | @cons w ls hlist ih =>
    obtain ⟨init, last, hls, hlast⟩ := ih.ends
    refine ⟨⟨_, _, rfl, .inr (.inr ⟨w, rfl⟩)⟩,
      ⟨.word w :: .op .comma :: init, last, by simp [hls], hlast⟩, ?_⟩
    have hword : ∃ w' rest, ls = .word w' :: rest := by
      cases hlist with
      | single w' => exact ⟨w', [], rfl⟩
      | cons w' h => exact ⟨w', _, rfl⟩
    obtain ⟨w', rest, rfl⟩ := hword
    refine isChain_cons_cons.mpr ⟨?_, isChain_cons_cons.mpr
      ⟨?_, ih.chain⟩⟩ <;> constructor <;> simp

theorem isChain_closeparen_comparison
    {comparison : List Lexeme} (h : Comparison comparison) :
    (.op .closeparen :: comparison).IsChain Adjacent := by
  cases h with
  | none => exact isChain_singleton _
  | @test t ht value =>
    have hne : t ≠ .and ∧ t ≠ .or ∧ t ≠ .comma := by
      refine ⟨?_, ?_, ?_⟩ <;> rintro rfl <;> exact absurd ht (by decide)
    refine isChain_cons_cons.mpr
      ⟨?_, isChain_cons_cons.mpr ⟨?_, isChain_singleton _⟩⟩ <;>
      constructor <;> simp [hne]

theorem sentence_function {args comparison : List Lexeme} (name : List Char)
    (hargs : args = [] ∨ ArgList args) (hcomparison : Comparison comparison) :
    Sentence (.word name :: .op .openparen ::
      (args ++ .op .closeparen :: comparison)) := by
  have hend := isChain_closeparen_comparison hcomparison
  have hopen : (.op .openparen :: (args ++ .op .closeparen :: comparison) :
      List Lexeme).IsChain Adjacent := by
    rcases hargs with rfl | hlist
    · refine isChain_cons_cons.mpr ⟨?_, hend⟩
      constructor <;> simp
    · have hsentence := sentence_argList hlist
      have hrest := hsentence.append_cons (by tauto) hend
      obtain ⟨first, rest, rfl, hfirst⟩ := hsentence.starts
      exact isChain_cons_cons.mpr
        ⟨adjacent_of_expectsOperand (.inl rfl) hfirst, hrest⟩
  refine ⟨⟨_, _, rfl, .inr (.inr ⟨name, rfl⟩)⟩, ?_,
    isChain_cons_cons.mpr ⟨by constructor <;> simp, hopen⟩⟩
  cases hcomparison with
  | none =>
    exact ⟨.word name :: .op .openparen :: args, _, by simp, .inl rfl⟩
  | @test t ht value =>
    exact ⟨.word name :: .op .openparen ::
      (args ++ [.op .closeparen, .op t]), _, by simp, .inr ⟨value, rfl⟩⟩

theorem sentence_of_derives {n : Nonterminal} (h : Derives n ls) :
    Sentence ls := by
  induction h with
  | orSingle h ih | andSingle h ih => exact ih
  | orMore h h' ih ih' => exact ih.join ih' (.inr rfl)
  | andMore h h' ih ih' => exact ih.join ih' (.inl rfl)
  | function hname hargs hcomparison =>
    exact sentence_function _ hargs hcomparison
  | @not ls h ih =>
    have hnot : Lexeme.ExpectsOperand (.op .not) := .inr (.inl rfl)
    obtain ⟨init, last, hls, hlast⟩ := ih.ends
    exact ⟨⟨_, _, rfl, .inr (.inl rfl)⟩,
      ⟨.op .not :: init, last, by simp [hls], hlast⟩, ih.cons hnot⟩
  | @parens ls h ih =>
    refine ⟨⟨_, _, rfl, .inl rfl⟩, ⟨.op .openparen :: ls, _, rfl, .inl rfl⟩, ?_⟩
    have hend : (ls ++ [Lexeme.op .closeparen]).IsChain Adjacent :=
      ih.append_cons (by tauto) (isChain_singleton _)
    obtain ⟨first, rest, rfl, hfirst⟩ := ih.starts
    exact isChain_cons_cons.mpr
      ⟨adjacent_of_expectsOperand (.inl rfl) hfirst, hend⟩

end UnrealIrcd.CRule
