import UnrealIrcd.Support.Decimal
import UnrealIrcd.Support.Network
import Mathlib.Combinatorics.SimpleGraph.Acyclic

/-!
# The reputation of an address

The command `REPUTATION` between servers, for one address
(`src/modules/reputation.c`).  A server that gets a score answers when its own is
higher, takes the score over when its own is lower, and passes it on.

* `reputationServerCmd` follows the handler of the command.
* `handleReputation` is the handler as part of a network of servers.
* `announce` is the network when a server has just announced its score.
-/

namespace UnrealIrcd.Reputation

open Support

def reputationScoreCap : ℕ := 10000

def updateScoreMargin : ℕ := 1

/-- The score of an entry, an `unsigned short`. -/
structure Score where
  value : ℕ
  lt_size : value < 2 ^ 16
deriving DecidableEq

/-- The score that is taken for a number that was read. -/
def Score.clamp (n : ℤ) : Score :=
  ⟨(max 0 (min n reputationScoreCap)).toNat, by
    unfold reputationScoreCap
    omega⟩

def scoreOf (e : Option Score) : ℕ := e.elim 0 Score.value

/-- What the handler leaves behind: the entry, the answer in the direction of the
sender and the text that is passed on in all other directions. -/
structure Outcome where
  entry : Option Score
  reply : Option (List Char)
  forward : Option (List Char)

def updateEntry (e : Option Score) (score : Score) (forced : Bool) :
    Option Score :=
  match e with
  | some e => if e.value < score.value || forced then some score else some e
  | none => if 0 < score.value then some score else none

def replyScore (e : Option Score) (score : Score) (allowReply : Bool) :
    Option Score :=
  e.filter fun e =>
    allowReply && decide (score.value + updateScoreMargin < e.value)

/-- The body of `reputation_server_cmd` once the parameter was read. -/
def applyScore (e : Option Score) (score : Score) (allowReply forced : Bool) :
    Outcome :=
  let reply := replyScore e score allowReply
  let score := reply.getD score
  { entry := updateEntry e score forced
    reply := reply.map fun e => '*' :: decimal e.value
    forward := some ((if allowReply then [] else ['*']) ++
      decimal score.value ++ if forced then ['*'] else []) }

/-- `reputation_server_cmd` on the entry of the address and the parameter with the
score. -/
def reputationServerCmd (e : Option Score) (param : List Char) : Outcome :=
  match param with
  | [] => ⟨e, none, none⟩
  | '*' :: rest =>
    applyScore e (.clamp (atoi rest)) false (rest.getLast? == some '*')
  | param => applyScore e (.clamp (atoi param)) true false

/-! ## The network -/

section Servers

variable {V : Type*} [DecidableEq V] (G : SimpleGraph V) [DecidableRel G.Adj]

/-- A server handles `REPUTATION`: the answer goes back over the link that the
command came from and `sendto_server` leaves that link out. -/
def handleReputation : Handler V (Option Score) (List Char) :=
  fun v e u param =>
    let outcome := reputationServerCmd e param
    (outcome.entry, fun y =>
      if y = u then outcome.reply.toList
      else if G.Adj v y then outcome.forward.toList
      else [])

/-- `reputation_pre_lconnect` of a server announces its score to all servers that
it is linked to. -/
def announce (entry : V → Option Score) (a : V) :
    Network V (Option Score) (List Char) where
  state := entry
  queue x y :=
    if x = a ∧ G.Adj a y then [decimal (scoreOf (entry a))] else []

end Servers

/-! ## The texts of the command -/

/-- A score as it travels.  With the star nobody answers. -/
def scoreText (starred : Bool) (k : ℕ) : List Char :=
  (if starred then ['*'] else []) ++ decimal k

/-- The number that is read, cut off at the cap. -/
def cut (k : ℕ) : ℕ := min k reputationScoreCap

theorem clamp_natCast (k : ℕ) : (Score.clamp (k : ℤ)).value = cut k := by
  have : (Score.clamp (k : ℤ)).value =
      (max 0 (min (k : ℤ) reputationScoreCap)).toNat := rfl
  unfold cut
  omega

theorem cut_lt_size (k : ℕ) : cut k < 2 ^ 16 := by
  unfold cut reputationScoreCap
  omega

theorem exists_cons_decimal (k : ℕ) :
    ∃ c cs, decimal (k : ℤ) = c :: cs ∧ c.isDigit = true := by
  have hnonneg : ¬ (k : ℤ) < 0 := by omega
  rw [decimal, if_neg hnonneg]
  exact exists_cons_toDigits _

theorem getLast?_decimal_ne (k : ℕ) :
    ((decimal (k : ℤ)).getLast? == some '*') = false := by
  rw [beq_eq_false_iff_ne]
  intro hlast
  have hnonneg : ¬ (k : ℤ) < 0 := by omega
  rw [decimal, if_neg hnonneg] at hlast
  have hdigit := isDigit_of_mem_toDigits _ (List.mem_of_getLast? hlast)
  cases hdigit

theorem clamp_atoi_decimal {k : ℕ} (hk : k < 2 ^ 16) :
    Score.clamp (atoi (decimal (k : ℤ))) = ⟨cut k, cut_lt_size k⟩ := by
  rw [atoi_decimal (by omega) (by omega)]
  exact (Score.mk.injEq ..).mpr (clamp_natCast k)

theorem reputationServerCmd_scoreText
    (e : Option Score) (starred : Bool) {k : ℕ} (hk : k < 2 ^ 16) :
    reputationServerCmd e (scoreText starred k) =
      applyScore e ⟨cut k, cut_lt_size k⟩ (!starred) false := by
  have hscore := clamp_atoi_decimal hk
  cases starred with
  | true =>
    have htext : scoreText true k = '*' :: decimal (k : ℤ) := rfl
    rw [htext, reputationServerCmd, getLast?_decimal_ne, hscore]
    rfl
  | false =>
    have htext : scoreText false k = decimal (k : ℤ) := rfl
    obtain ⟨c, cs, hcs, hc⟩ := exists_cons_decimal k
    rw [htext, hcs, reputationServerCmd, ← hcs, hscore]
    · rfl
    · intro h
      cases h
    · intro rest h
      cases h
      cases hc

theorem applyScore_forward (e : Option Score) (score : Score) (starred : Bool) :
    (applyScore e score (!starred) false).forward =
      some (scoreText starred
        ((replyScore e score (!starred)).getD score).value) := by
  cases starred <;> simp [applyScore, scoreText]

theorem scoreOf_updateEntry (e : Option Score) (score : Score) :
    scoreOf (updateEntry e score false) = max (scoreOf e) score.value := by
  cases e with
  | none =>
    by_cases hpos : 0 < score.value
    · simp [updateEntry, scoreOf, hpos]
    · simp [updateEntry, scoreOf, hpos]
      omega
  | some e =>
    by_cases hlt : e.value < score.value
    · simp [updateEntry, scoreOf, hlt]
      omega
    · simp [updateEntry, scoreOf, hlt]
      omega

/-- What the handler does with a score that it got: it passes on `k'`, which is
that score or its own higher one, and in the second case it answers. -/
structure Handled (e : Option Score) (starred : Bool) (k k' : ℕ)
    (outcome : Outcome) : Prop where
  cut_le : cut k ≤ k'
  lt_size : k' < 2 ^ 16
  forward : outcome.forward = some (scoreText starred k')
  scoreOf_entry : scoreOf outcome.entry = max (scoreOf e) k'
  reply : k' = cut k ∧ outcome.reply = none ∧
      (starred = false → scoreOf e ≤ k' + updateScoreMargin) ∨
    k' = scoreOf e ∧ starred = false ∧
      outcome.reply = some (scoreText true k')

theorem exists_handled
    (e : Option Score) (starred : Bool) {k : ℕ} (hk : k < 2 ^ 16) :
    ∃ k', Handled e starred k k'
      (reputationServerCmd e (scoreText starred k)) := by
  rw [reputationServerCmd_scoreText e starred hk]
  set score : Score := ⟨cut k, cut_lt_size k⟩
  have hforward := applyScore_forward e score starred
  cases hreply : replyScore e score (!starred) with
  | none =>
    rw [hreply] at hforward
    refine ⟨cut k, le_refl _, cut_lt_size k, hforward, ?_, .inl ⟨rfl, ?_, ?_⟩⟩
    · simp only [applyScore, hreply]
      exact scoreOf_updateEntry e score
    · simp only [applyScore, hreply]
      rfl
    · intro hstar
      cases e with
      | none => exact Nat.zero_le _
      | some e => simpa [replyScore, hstar, scoreOf, score] using hreply
  | some own =>
    rw [hreply] at hforward
    obtain ⟨hown, hworth⟩ := Option.filter_eq_some_iff.mp hreply
    obtain ⟨hstar, hlt⟩ := Bool.and_eq_true_iff.mp hworth
    have hlt := of_decide_eq_true hlt
    have hscore : scoreOf e = own.value := by
      rw [hown]
      rfl
    refine ⟨own.value, ?_, own.lt_size, hforward, ?_,
      .inr ⟨hscore.symm, by simpa using hstar, ?_⟩⟩
    · have : score.value = cut k := rfl
      omega
    · simp only [applyScore, hreply]
      exact scoreOf_updateEntry e own
    · simp only [applyScore, hreply]
      rfl

end UnrealIrcd.Reputation
