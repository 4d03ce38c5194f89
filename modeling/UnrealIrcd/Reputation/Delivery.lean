import UnrealIrcd.Reputation.Model
import UnrealIrcd.Support.TreeSides

/-!
# The messages after an announcement

What every delivery keeps: the messages are scores on links of the network, no
score exceeds the highest one at the start, and no score goes down
(`Bounded.receive`).

On a tree every message is worth more than all the messages that it causes
(`lowers_textWeight`), so the deliveries come to an end.
-/

namespace UnrealIrcd.Reputation

open Support
open Fintype (card)

/-! ## Telling the texts apart -/

theorem decimal_natCast_injective {j k : ℕ}
    (h : decimal (j : ℤ) = decimal (k : ℤ)) : j = k := by
  have hdigits : ∀ n : ℕ, decimal (n : ℤ) = Nat.toDigits 10 n := by
    intro n
    rw [decimal, if_neg (by omega), Int.natAbs_natCast]
  rw [hdigits, hdigits] at h
  have hj := digitsValue_toDigits_append j noDigit_nil
  rw [h, digitsValue_toDigits_append k noDigit_nil] at hj
  exact hj.symm

theorem star_ne_decimal (rest : List Char) (k : ℕ) :
    '*' :: rest ≠ decimal (k : ℤ) := by
  obtain ⟨c, cs, hcs, hc⟩ := exists_cons_decimal k
  rw [hcs]
  intro h
  cases h
  cases hc

theorem scoreText_inj {starred starred' : Bool} {j k : ℕ} :
    scoreText starred j = scoreText starred' k ↔
      starred = starred' ∧ j = k := by
  constructor
  · intro h
    cases starred <;> cases starred'
    · exact ⟨rfl, decimal_natCast_injective h⟩
    · exact absurd h.symm (star_ne_decimal _ _)
    · exact absurd h (star_ne_decimal _ _)
    · exact ⟨rfl, decimal_natCast_injective (List.cons.inj h).2⟩
  · rintro ⟨rfl, rfl⟩
    rfl

/-! ## One delivery -/

section Servers

variable {V : Type*} [DecidableEq V] {G : SimpleGraph V} [DecidableRel G.Adj]
  {s : Network V (Option Score) (List Char)} {u v : V} {starred : Bool}
  {k k' : ℕ} {rest : List (List Char)}

theorem mem_handleReputation {e : Option Score} {y : V} {m : List Char}
    (hk : Handled e starred k k'
      (reputationServerCmd e (scoreText starred k))) :
    m ∈ (handleReputation G v e u (scoreText starred k)).2 y ↔
      y = u ∧ k' = scoreOf e ∧ starred = false ∧ m = scoreText true k' ∧
          (reputationServerCmd e (scoreText starred k)).reply = some m ∨
        y ≠ u ∧ G.Adj v y ∧ m = scoreText starred k' := by
  unfold handleReputation
  by_cases hy : y = u
  · rcases hk.reply with ⟨hown, hreply, hclose⟩ | ⟨hown, hstar, hreply⟩
    · simp [hy, hreply]
    · simp only [hy, hreply, if_true, Option.toList_some, List.mem_singleton,
        true_and, ne_eq, not_true, false_and, or_false, Option.some.injEq]
      constructor
      · rintro rfl
        exact ⟨hown, hstar, rfl, rfl⟩
      · rintro ⟨-, -, rfl, -⟩
        rfl
  · by_cases hadj : G.Adj v y
    · simp [hy, hadj, hk.forward]
    · simp [hy, hadj]

theorem scoreOf_receive
    (hk : Handled (s.state v) starred k k'
      (reputationServerCmd (s.state v) (scoreText starred k))) (x : V) :
    scoreOf ((s.receive (handleReputation G) u v (scoreText starred k)).state
      x) = if x = v then max (scoreOf (s.state v)) k'
        else scoreOf (s.state x) := by
  by_cases hx : x = v
  · subst hx
    rw [if_pos rfl, state_receive_self]
    exact hk.scoreOf_entry
  · rw [if_neg hx, state_receive_of_ne hx]

theorem scoreOf_le_receive
    (hk : Handled (s.state v) starred k k'
      (reputationServerCmd (s.state v) (scoreText starred k))) (x : V) :
    scoreOf (s.state x) ≤ scoreOf
      ((s.receive (handleReputation G) u v (scoreText starred k)).state
        x) := by
  rw [scoreOf_receive hk]
  split
  · next hx =>
      subst hx
      exact le_max_left _ _
  · exact le_refl _

end Servers

/-! ## Scores and messages stay in bounds -/

section Bounds

variable {V : Type*} [DecidableEq V] [Fintype V] {G : SimpleGraph V}
  [DecidableRel G.Adj] {entry : V → Option Score}
  {s : Network V (Option Score) (List Char)} {u v : V}

def highest (entry : V → Option Score) : ℕ :=
  Finset.univ.sup fun v => scoreOf (entry v)

omit [DecidableEq V] in
theorem scoreOf_le_highest (entry : V → Option Score) (v : V) :
    scoreOf (entry v) ≤ highest entry :=
  Finset.le_sup (f := fun v => scoreOf (entry v)) (Finset.mem_univ v)

theorem scoreOf_lt_size (e : Option Score) : scoreOf e < 2 ^ 16 := by
  cases e with
  | none => exact Nat.two_pow_pos 16
  | some e => exact e.lt_size

/-- The network stays in the bounds of the scores `entry` at the start. -/
structure Bounded (G : SimpleGraph V) (entry : V → Option Score)
    (s : Network V (Option Score) (List Char)) : Prop where
  adj : ∀ {u v m}, m ∈ s.queue u v → G.Adj u v
  text : ∀ {u v m}, m ∈ s.queue u v →
    ∃ starred k, m = scoreText starred k ∧ k < 2 ^ 16 ∧ k ≤ highest entry
  le_score : ∀ v, scoreOf (entry v) ≤ scoreOf (s.state v)
  score_le : ∀ v, scoreOf (s.state v) ≤ highest entry
  score_le_cap : ∀ v,
    scoreOf (s.state v) ≤ max (scoreOf (entry v)) reputationScoreCap

omit [Fintype V] in
theorem mem_queue_announce {a x y : V} {m : List Char} :
    m ∈ (announce G entry a).queue x y ↔
      x = a ∧ G.Adj a y ∧ m = scoreText false (scoreOf (entry a)) := by
  have hqueue : (announce G entry a).queue x y = if x = a ∧ G.Adj a y then
      [scoreText false (scoreOf (entry a))] else [] := rfl
  rw [hqueue]
  split
  · next h => simp [h]
  · next h =>
      constructor
      · intro hm
        cases hm
      · rintro ⟨hx, hadj, -⟩
        exact absurd ⟨hx, hadj⟩ h

theorem bounded_announce (entry : V → Option Score) (a : V) :
    Bounded G entry (announce G entry a) where
  adj := by
    intro u v m hm
    obtain ⟨rfl, hadj, -⟩ := mem_queue_announce.mp hm
    exact hadj
  text := by
    intro u v m hm
    obtain ⟨-, -, rfl⟩ := mem_queue_announce.mp hm
    exact ⟨false, _, rfl, scoreOf_lt_size _, scoreOf_le_highest entry a⟩
  le_score _ := le_refl _
  score_le := scoreOf_le_highest entry
  score_le_cap _ := le_max_left _ _

theorem cut_le_self (k : ℕ) : cut k ≤ k := min_le_left _ _

theorem cut_le_cap (k : ℕ) : cut k ≤ reputationScoreCap := min_le_right _ _

theorem Bounded.receive {m : List Char} {rest : List (List Char)}
    (hs : Bounded G entry s) (hqueue : s.queue u v = m :: rest) :
    Bounded G entry (s.receive (handleReputation G) u v m) := by
  have hm : m ∈ s.queue u v := hqueue ▸ List.mem_cons_self
  obtain ⟨starred, k, rfl, hsize, hhighest⟩ := hs.text hm
  obtain ⟨k', hk⟩ := exists_handled (s.state v) starred hsize
  have hpassed : k' ≤ max (cut k) (scoreOf (s.state v)) := by
    rcases hk.reply with ⟨hown, -⟩ | ⟨hown, -⟩
    · exact hown.le.trans (le_max_left _ _)
    · exact hown.le.trans (le_max_right _ _)
  have hcut := cut_le_self k
  have hcap := cut_le_cap k
  have hold := hs.score_le v
  refine ⟨?_, ?_, ?_, ?_, ?_⟩
  · intro x y m' hm'
    rcases mem_queue_receive.mp hm' with hpop | ⟨rfl, hnew⟩
    · exact hs.adj (mem_pop hpop)
    · rcases (mem_handleReputation hk).mp hnew with ⟨rfl, -⟩ | ⟨-, hadj, -⟩
      · exact (hs.adj hm).symm
      · exact hadj
  · intro x y m' hm'
    rcases mem_queue_receive.mp hm' with hpop | ⟨rfl, hnew⟩
    · exact hs.text (mem_pop hpop)
    · have hbound : k' ≤ highest entry := by omega
      rcases (mem_handleReputation hk).mp hnew with
        ⟨-, -, -, rfl, -⟩ | ⟨-, -, rfl⟩
      · exact ⟨true, k', rfl, hk.lt_size, hbound⟩
      · exact ⟨starred, k', rfl, hk.lt_size, hbound⟩
  · intro x
    exact (hs.le_score x).trans (scoreOf_le_receive hk x)
  · intro x
    rw [scoreOf_receive hk]
    split
    · omega
    · exact hs.score_le x
  · intro x
    have hx := hs.score_le_cap x
    rw [scoreOf_receive hk]
    split
    · next heq =>
        subst heq
        omega
    · exact hx

/-! ## The deliveries end -/

open Classical in
/-- What a message from `u` to `v` is worth: one unit for every server that it can
reach, and for a score without a star also one for every answer. -/
noncomputable def textWeight (G : SimpleGraph V) (u v : V) (m : List Char) :
    ℕ :=
  (if m.head? = some '*' then 1 else Fintype.card V + 1) * (side G u v).card

omit [DecidableEq V] [DecidableRel G.Adj] in
theorem textWeight_star (u v : V) (k : ℕ) :
    textWeight G u v (scoreText true k) = (side G u v).card := by
  have hhead : (scoreText true k).head? = some '*' := rfl
  rw [textWeight, if_pos hhead, Nat.one_mul]

omit [DecidableEq V] [DecidableRel G.Adj] in
theorem textWeight_plain (u v : V) (k : ℕ) :
    textWeight G u v (scoreText false k) =
      (card V + 1) * (side G u v).card := by
  obtain ⟨c, cs, hcs, hc⟩ := exists_cons_decimal k
  have hhead : (scoreText false k).head? ≠ some '*' := by
    have htext : scoreText false k = decimal (k : ℤ) := rfl
    rw [htext, hcs]
    intro h
    cases h
    cases hc
  rw [textWeight, if_neg hhead]

theorem lowers_textWeight (hG : G.IsTree) (entry : V → Option Score) :
    Lowers (handleReputation G) (textWeight G) (fun _ _ => 0)
      (Bounded G entry) := by
  classical
  intro s u v m rest hs hqueue
  have hm : m ∈ s.queue u v := hqueue ▸ List.mem_cons_self
  have huv := hs.adj hm
  obtain ⟨starred, k, rfl, hsize, -⟩ := hs.text hm
  obtain ⟨k', hk⟩ := exists_handled (s.state v) starred hsize
  have hreply : ((reputationServerCmd (s.state v)
      (scoreText starred k)).reply.toList.map (textWeight G v u)).sum ≤
        if starred then 0 else card V := by
    rcases hk.reply with ⟨-, hnone, -⟩ | ⟨-, rfl, hsome⟩
    · rw [hnone]
      exact Nat.zero_le _
    · rw [hsome]
      simp only [Option.toList_some, List.map_cons, List.map_nil,
        List.sum_cons, List.sum_nil, Nat.add_zero, textWeight_star]
      exact Finset.card_le_univ _
  have hout : ∀ y, (((handleReputation G v (s.state v) u
      (scoreText starred k)).2 y).map (textWeight G v y)).sum ≤
        (if G.Adj v y ∧ y ≠ u then textWeight G v y (scoreText starred k')
          else 0) +
        if y = u then (if starred then 0 else card V) else 0 := by
    intro y
    unfold handleReputation
    by_cases hy : y = u
    · subst hy
      simpa using hreply
    · by_cases hadj : G.Adj v y
      · simp [hy, hadj, hk.forward]
      · simp [hy, hadj]
  rw [LowersAt, Nat.zero_add, Nat.zero_add]
  calc
    ∑ y, (((handleReputation G v (s.state v) u
        (scoreText starred k)).2 y).map (textWeight G v y)).sum ≤ _ :=
      Finset.sum_le_sum fun y _ => hout y
    _ = (∑ y, if G.Adj v y ∧ y ≠ u then
          textWeight G v y (scoreText starred k') else 0) +
        (if starred then 0 else card V) := by
      rw [Finset.sum_add_distrib, Finset.sum_ite_eq',
        if_pos (Finset.mem_univ u)]
    _ < textWeight G u v (scoreText starred k) := by
      have hlt := sum_card_side_lt hG huv
      rw [← Finset.sum_filter]
      cases starred with
      | true =>
        simp only [textWeight_star, if_true, Nat.add_zero]
        convert hlt
      | false =>
        simp only [textWeight_plain, ← Finset.mul_sum, Bool.false_eq_true,
          if_false]
        have hmul := Nat.mul_le_mul_left (card V + 1) hlt
        rw [Nat.mul_succ] at hmul
        have hcard : ∀ c : ℕ, c = card V → c < card V + 1 := by
          omega
        convert Nat.lt_of_lt_of_le (Nat.add_lt_add_left (hcard _ rfl) _) hmul

end Bounds

end UnrealIrcd.Reputation
