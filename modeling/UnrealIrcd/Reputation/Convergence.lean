import UnrealIrcd.Reputation.Delivery

/-!
# The announcement of a score converges

One server of a tree announces its score.  However the messages are interleaved,
they come to an end, and then all servers have a score near the highest one.

The cap decides when that is so (`converges_iff`): a score above it is announced
as it is, and whoever gets it cuts it off.  Of the ways to set a score only the
ban action `set REPUTATION=...` goes above the cap.

The proof keeps track of what was sent over every link (`Spread`).  A score that
some server has sent over all its links reaches every server
(`Spread.le_score_of_broadcast`), and every server that got a score without a star
knows of such a score near its own.
-/

namespace UnrealIrcd.Reputation

open Support

variable {V : Type*} {G : SimpleGraph V}
  {entry : V → Option Score} {s : Network V (Option Score) (List Char)}
  {sent : V → V → Set ℕ} {visited : Set V} {u v : V} {k : ℕ}

/-- Some server with at least the score `k` has sent it over all its links. -/
def Broadcast (G : SimpleGraph V)
    (s : Network V (Option Score) (List Char)) (sent : V → V → Set ℕ) (k : ℕ) :
    Prop :=
  ∃ w, k ≤ scoreOf (s.state w) ∧ ∀ n, G.Adj w n → ∃ k' ∈ sent w n, k ≤ k'

/-- The score `k` from `u` has arrived at `v` and was passed on. -/
def Arrived (G : SimpleGraph V)
    (s : Network V (Option Score) (List Char)) (sent : V → V → Set ℕ) (u v : V)
    (k : ℕ) : Prop :=
  cut k ≤ scoreOf (s.state v) ∧
    ∀ n, G.Adj v n → n ≠ u → ∃ k' ∈ sent v n, cut k ≤ k'

/-- How far the announcement has spread: `sent` holds the scores that were sent
over each link and `visited` the servers that got a score without a star. -/
structure Spread (G : SimpleGraph V) (entry : V → Option Score)
    (s : Network V (Option Score) (List Char)) (sent : V → V → Set ℕ)
    (visited : Set V) : Prop where
  mem_sent : ∀ {u v starred k}, scoreText starred k ∈ s.queue u v → k ∈ sent u v
  arrived : ∀ {u v k}, k ∈ sent u v →
    (∃ starred, scoreText starred k ∈ s.queue u v) ∨ Arrived G s sent u v k
  plain : ∀ {u v k}, scoreText false k ∈ s.queue u v →
    Broadcast G s sent (cut k) ∧ u ∈ visited
  near : ∀ {v}, v ∈ visited → ∃ k ≤ reputationScoreCap, Broadcast G s sent k ∧
    min (scoreOf (entry v)) (reputationScoreCap + updateScoreMargin) ≤
      k + updateScoreMargin
  next : ∀ {v n}, v ∈ visited → G.Adj v n →
    n ∈ visited ∨ ∃ k, scoreText false k ∈ s.queue v n

section Mono

variable {s' : Network V (Option Score) (List Char)} {sent' : V → V → Set ℕ}
  (hscore : ∀ v, scoreOf (s.state v) ≤ scoreOf (s'.state v))
  (hsent : ∀ u v, sent u v ⊆ sent' u v)

include hscore hsent

theorem Broadcast.mono (h : Broadcast G s sent k) : Broadcast G s' sent' k := by
  obtain ⟨w, hw, hlinks⟩ := h
  refine ⟨w, hw.trans (hscore w), ?_⟩
  intro n hn
  obtain ⟨k', hk', hle⟩ := hlinks n hn
  exact ⟨k', hsent w n hk', hle⟩

theorem Arrived.mono (h : Arrived G s sent u v k) :
    Arrived G s' sent' u v k := by
  refine ⟨h.1.trans (hscore v), ?_⟩
  intro n hn hne
  obtain ⟨k', hk', hle⟩ := h.2 n hn hne
  exact ⟨k', hsent v n hk', hle⟩

end Mono

/-! ## When no message is left -/

section

variable (hs : Spread G entry s sent visited)

include hs

theorem Spread.le_score_of_path (hquiet : s.Quiet)
    (hk : k ≤ reputationScoreCap) {x y : V} (p : G.Walk x y) (hp : p.IsPath)
    {z : V} (hz : z ∉ p.support) {j : ℕ} (hj : j ∈ sent z x) (hkj : k ≤ j) :
    k ≤ scoreOf (s.state y) := by
  induction p generalizing z j with
  | nil =>
    rcases hs.arrived hj with ⟨b, hb⟩ | ⟨hle, -⟩
    · rw [hquiet] at hb
      cases hb
    · exact (le_min hkj hk).trans hle
  | @cons x n y hadj p ih =>
    rw [SimpleGraph.Walk.cons_isPath_iff] at hp
    rw [SimpleGraph.Walk.support_cons, List.mem_cons, not_or] at hz
    rcases hs.arrived hj with ⟨b, hb⟩ | ⟨-, hlinks⟩
    · rw [hquiet] at hb
      cases hb
    · have hne : n ≠ z := by
        rintro rfl
        exact hz.2 p.start_mem_support
      obtain ⟨j', hj', hle⟩ := hlinks n hadj hne
      exact ih hp.1 hp.2 hj' ((le_min hkj hk).trans hle)

/-- What some server has sent over all its links reaches every server. -/
theorem Spread.le_score_of_broadcast (hG : G.Connected) (hquiet : s.Quiet)
    (hk : k ≤ reputationScoreCap) (h : Broadcast G s sent k) (v : V) :
    k ≤ scoreOf (s.state v) := by
  obtain ⟨w, hw, hlinks⟩ := h
  obtain ⟨p, hp⟩ := (hG.preconnected w v).exists_isPath
  cases p with
  | nil => exact hw
  | cons hadj p =>
    rw [SimpleGraph.Walk.cons_isPath_iff] at hp
    obtain ⟨j, hj, hle⟩ := hlinks _ hadj
    exact hs.le_score_of_path hquiet hk p hp.1 hp.2 hj hle

theorem Spread.mem_visited (hG : G.Connected) (hquiet : s.Quiet) {a : V}
    (ha : a ∈ visited) (v : V) : v ∈ visited := by
  obtain ⟨p⟩ := hG.preconnected a v
  induction p with
  | nil => exact ha
  | cons hadj p ih =>
    refine ih ?_
    rcases hs.next ha hadj with hin | ⟨k, hk⟩
    · exact hin
    · rw [hquiet] at hk
      cases hk

end

variable [DecidableEq V] [DecidableRel G.Adj]

/-! ## The announcement -/

theorem spread_announce (entry : V → Option Score) (a : V) :
    Spread G entry (announce G entry a)
      (fun u v => {k | ∃ starred,
        scoreText starred k ∈ (announce G entry a).queue u v}) {a} := by
  have hbroadcast : Broadcast G (announce G entry a)
      (fun u v => {k | ∃ starred,
        scoreText starred k ∈ (announce G entry a).queue u v})
      (cut (scoreOf (entry a))) := by
    refine ⟨a, cut_le_self _, ?_⟩
    intro n hn
    exact ⟨scoreOf (entry a), ⟨false, mem_queue_announce.mpr ⟨rfl, hn, rfl⟩⟩,
      cut_le_self _⟩
  refine ⟨?_, ?_, ?_, ?_, ?_⟩
  · intro u v starred k hk
    exact ⟨starred, hk⟩
  · intro u v k hk
    exact .inl hk
  · intro u v k hk
    obtain ⟨rfl, -, htext⟩ := mem_queue_announce.mp hk
    obtain ⟨-, rfl⟩ := scoreText_inj.mp htext
    exact ⟨hbroadcast, rfl⟩
  · rintro v rfl
    refine ⟨_, cut_le_cap _, hbroadcast, ?_⟩
    unfold cut
    omega
  · rintro v n rfl hn
    exact .inr ⟨_, mem_queue_announce.mpr ⟨rfl, hn, rfl⟩⟩

/-! ## One delivery -/

section Receive

variable {starred : Bool} {k' : ℕ}

/-- What was sent before and what is on the link now. -/
def sentAfter (s' : Network V (Option Score) (List Char))
    (sent : V → V → Set ℕ) (u v : V) : Set ℕ :=
  {k | k ∈ sent u v ∨ ∃ starred, scoreText starred k ∈ s'.queue u v}

theorem forward_mem
    (hk : Handled (s.state v) starred k k'
      (reputationServerCmd (s.state v) (scoreText starred k)))
    {n : V} (hn : G.Adj v n) (hne : n ≠ u) :
    scoreText starred k' ∈
      (s.receive (handleReputation G) u v (scoreText starred k)).queue v n :=
  mem_queue_receive.mpr
    (.inr ⟨rfl, (mem_handleReputation hk).mpr (.inr ⟨hne, hn, rfl⟩)⟩)

/-- What is passed on without a star was sent by some server over all its
links. -/
theorem broadcast_receive
    (hk : Handled (s.state v) false k k'
      (reputationServerCmd (s.state v) (scoreText false k)))
    (hold : Broadcast G s sent (cut k)) :
    Broadcast G (s.receive (handleReputation G) u v (scoreText false k))
      (sentAfter (s.receive (handleReputation G) u v (scoreText false k)) sent)
      (cut k') := by
  rcases hk.reply with ⟨hown, -, -⟩ | ⟨hown, -, hreply⟩
  · have hcut : cut k' = cut k := by
      rw [hown]
      exact min_eq_left (cut_le_cap k)
    rw [hcut]
    exact hold.mono (scoreOf_le_receive hk) fun x y j hj => .inl hj
  · refine ⟨v, ?_, ?_⟩
    · rw [scoreOf_receive hk, if_pos rfl]
      exact (cut_le_self k').trans (le_max_right _ _)
    · intro n hn
      refine ⟨k', ?_, cut_le_self k'⟩
      by_cases hne : n = u
      · subst hne
        refine .inr ⟨true, mem_queue_receive.mpr (.inr ⟨rfl, ?_⟩)⟩
        exact (mem_handleReputation hk).mpr
          (.inl ⟨rfl, hown, rfl, rfl, hreply⟩)
      · exact .inr ⟨false, forward_mem hk hn hne⟩

theorem Spread.receive {rest : List (List Char)}
    (hs : Spread G entry s sent visited)
    (hlower : ∀ v, scoreOf (entry v) ≤ scoreOf (s.state v))
    (hqueue : s.queue u v = scoreText starred k :: rest)
    (hk : Handled (s.state v) starred k k'
      (reputationServerCmd (s.state v) (scoreText starred k))) :
    Spread G entry
      (s.receive (handleReputation G) u v (scoreText starred k))
      (sentAfter (s.receive (handleReputation G) u v (scoreText starred k))
        sent)
      {x | x ∈ visited ∨ x = v ∧ starred = false} := by
  have hm : scoreText starred k ∈ s.queue u v := hqueue ▸ List.mem_cons_self
  have hscore := scoreOf_le_receive (G := G) (u := u) hk
  set s' := s.receive (handleReputation G) u v (scoreText starred k) with hs'
  have hsent : ∀ x y, sent x y ⊆ sentAfter s' sent x y :=
    fun x y j hj => .inl hj
  -- a message stays on its link unless it is the one that is delivered
  have hstay : ∀ {x y b j}, scoreText b j ∈ s.queue x y →
      scoreText b j ∈ s'.queue x y ∨
        x = u ∧ y = v ∧ b = starred ∧ j = k := by
    intro x y b j hj
    rcases mem_pop_of_ne hqueue hj with hpop | ⟨hx, hy, htext⟩
    · exact .inl (mem_queue_receive.mpr (.inl hpop))
    · exact .inr ⟨hx, hy, scoreText_inj.mp htext⟩
  refine ⟨?_, ?_, ?_, ?_, ?_⟩
  · intro x y b j hj
    exact .inr ⟨b, hj⟩
  · rintro x y j (hj | hj)
    · rcases hs.arrived hj with ⟨b, hb⟩ | harrived
      · rcases hstay hb with hin | ⟨rfl, rfl, rfl, rfl⟩
        · exact .inl ⟨b, hin⟩
        · refine .inr ⟨?_, ?_⟩
          · rw [hs', scoreOf_receive hk, if_pos rfl]
            exact hk.cut_le.trans (le_max_right _ _)
          · intro n hn hne
            exact ⟨k', .inr ⟨b, forward_mem hk hn hne⟩, hk.cut_le⟩
      · exact .inr (harrived.mono hscore hsent)
    · exact .inl hj
  · intro x y j hj
    rcases mem_queue_receive.mp hj with hpop | ⟨rfl, hnew⟩
    · obtain ⟨hbroadcast, hx⟩ := hs.plain (mem_pop hpop)
      exact ⟨hbroadcast.mono hscore hsent, .inl hx⟩
    · rcases (mem_handleReputation hk).mp hnew with
        ⟨-, -, -, htext, -⟩ | ⟨-, -, htext⟩
      · cases (scoreText_inj.mp htext).1
      · obtain ⟨rfl, rfl⟩ := scoreText_inj.mp htext
        exact ⟨broadcast_receive hk (hs.plain hm).1, .inr ⟨rfl, rfl⟩⟩
  · rintro x (hx | ⟨rfl, rfl⟩)
    · obtain ⟨j, hj, hbroadcast, hle⟩ := hs.near hx
      exact ⟨j, hj, hbroadcast.mono hscore hsent, hle⟩
    · refine ⟨cut k', cut_le_cap k', broadcast_receive hk (hs.plain hm).1, ?_⟩
      have hx := hlower x
      have hclose : scoreOf (s.state x) ≤ k' + updateScoreMargin := by
        rcases hk.reply with ⟨-, -, hclose⟩ | ⟨hown, -⟩
        · exact hclose rfl
        · omega
      unfold cut
      omega
  · rintro x n (hx | ⟨rfl, rfl⟩) hn
    · rcases hs.next hx hn with hin | ⟨j, hj⟩
      · exact .inl (.inl hin)
      · rcases hstay hj with hin | ⟨-, rfl, rfl, -⟩
        · exact .inr ⟨j, hin⟩
        · exact .inl (.inr ⟨rfl, rfl⟩)
    · by_cases hne : n = u
      · subst hne
        exact .inl (.inl (hs.plain hm).2)
      · exact .inr ⟨k', forward_mem hk hn hne⟩

end Receive

/-! ## Whole runs -/

section Converges

variable [Fintype V]

/-- What holds of every network that a run reaches. -/
def Reached (G : SimpleGraph V) (entry : V → Option Score) (a : V)
    (s : Network V (Option Score) (List Char)) : Prop :=
  Bounded G entry s ∧
    ∃ sent visited, Spread G entry s sent visited ∧ a ∈ visited

theorem Reached.receive {a : V} {m : List Char} {rest : List (List Char)}
    (hs : Reached G entry a s) (hqueue : s.queue u v = m :: rest) :
    Reached G entry a (s.receive (handleReputation G) u v m) := by
  obtain ⟨hbounded, sent, visited, hspread, ha⟩ := hs
  refine ⟨hbounded.receive hqueue, ?_⟩
  have hm : m ∈ s.queue u v := hqueue ▸ List.mem_cons_self
  obtain ⟨starred, k, rfl, hsize, -⟩ := hbounded.text hm
  obtain ⟨k', hk⟩ := exists_handled (s.state v) starred hsize
  exact ⟨_, _, hspread.receive hbounded.le_score hqueue hk, .inl ha⟩

/-- The announcement converges: there is a bound on the deliveries, every run can
go on until no message is left, and then every score is near the highest one at
the start and none is above it. -/
def Converges (G : SimpleGraph V) [DecidableRel G.Adj]
    (entry : V → Option Score) (a : V) : Prop :=
  (∃ bound, ∀ links s,
    (announce G entry a).run (handleReputation G) links = some s →
      links.length ≤ bound) ∧
  (∀ links s,
    (announce G entry a).run (handleReputation G) links = some s →
      ∃ more s', s.run (handleReputation G) more = some s' ∧ s'.Quiet) ∧
  ∀ links s,
    (announce G entry a).run (handleReputation G) links = some s → s.Quiet →
      ∀ v, highest entry ≤ scoreOf (s.state v) + updateScoreMargin ∧
        scoreOf (s.state v) ≤ highest entry

section Run

variable {a : V} {links : List (V × V)}
  (h : (announce G entry a).run (handleReputation G) links = some s)

include h

theorem reached_run : Reached G entry a s :=
  run_invariant (fun _ _ _ _ _ hs hqueue => hs.receive hqueue)
    ⟨bounded_announce entry a, _, _, spread_announce entry a, rfl⟩ h

theorem length_run_le (hG : G.IsTree) :
    links.length ≤ (announce G entry a).weight (textWeight G) fun _ _ => 0 := by
  have hle := length_run_add_le
    (fun _ _ _ _ _ hs hqueue => Bounded.receive hs hqueue)
    (lowers_textWeight hG entry) (bounded_announce entry a) h
  omega

theorem exists_quiet_of_run (hG : G.IsTree) :
    ∃ more s', s.run (handleReputation G) more = some s' ∧ s'.Quiet :=
  exists_quiet (fun _ _ _ _ _ hs hqueue => Bounded.receive hs hqueue)
    (lowers_textWeight hG entry) (reached_run h).1

end Run

/-- A score above the cap stays out of reach of whoever is below it. -/
theorem not_converges (hG : G.IsTree) {a : V} {v w : V}
    (hcap : reputationScoreCap + updateScoreMargin < scoreOf (entry w))
    (hfar : scoreOf (entry v) + updateScoreMargin < scoreOf (entry w)) :
    ¬ Converges G entry a := by
  rintro ⟨-, -, hnear⟩
  obtain ⟨links, s, hrun, hquiet⟩ :=
    @exists_quiet_of_run _ _ entry _ _ _ _ a [] rfl hG
  have hle := (hnear links s hrun hquiet v).1
  have hscore := (reached_run hrun).1.score_le_cap v
  have hhighest := scoreOf_le_highest entry w
  omega

/-- The announcement converges exactly when no score is above the cap, give or
take the margin, or all scores are within the margin anyway. -/
theorem converges_iff (hG : G.IsTree) (entry : V → Option Score) (a : V) :
    Converges G entry a ↔
      (∀ v, scoreOf (entry v) ≤ reputationScoreCap + updateScoreMargin) ∨
        ∀ v w, scoreOf (entry w) ≤ scoreOf (entry v) + updateScoreMargin := by
  constructor
  · intro hconverges
    by_contra hnot
    simp only [not_or, not_forall, not_le] at hnot
    obtain ⟨⟨x, hx⟩, v, w, hfar⟩ := hnot
    -- the server with the highest score is above the cap and far from `v`
    rcases le_total (scoreOf (entry x)) (scoreOf (entry w)) with hle | hle
    · exact not_converges hG (hx.trans_le hle) hfar hconverges
    · exact not_converges hG hx (hfar.trans_le hle) hconverges
  · intro hscores
    refine ⟨⟨_, fun links s h => length_run_le h hG⟩,
      fun links s h => exists_quiet_of_run h hG, ?_⟩
    intro links s hrun hquiet v
    obtain ⟨hbounded, sent, visited, hspread, ha⟩ := reached_run hrun
    refine ⟨Finset.sup_le fun w _ => ?_, hbounded.score_le v⟩
    rcases hscores with hcap | hclose
    · -- every server ends near every score at the start
      obtain ⟨k, hk, hbroadcast, hnear⟩ := hspread.near
        (hspread.mem_visited hG.connected hquiet ha w)
      have hle :=
        hspread.le_score_of_broadcast hG.connected hquiet hk hbroadcast v
      have hcap := hcap w
      omega
    · exact (hclose v w).trans
        (Nat.add_le_add_right (hbounded.le_score v) _)

end Converges

/-! ## Two servers -/

theorem isTree_pair : (⊤ : SimpleGraph Bool).IsTree := by
  rw [SimpleGraph.isTree_iff_connected_and_card]
  refine ⟨SimpleGraph.connected_top, ?_⟩
  rw [Nat.card_eq_fintype_card, Nat.card_eq_fintype_card]
  decide

/-- One server has an entry for the address and the other one has none. -/
def pairEntry (score : Score) : Bool → Option Score
  | true => some score
  | false => none

theorem converges_pair :
    (⊤ : SimpleGraph Bool).IsTree ∧
      Converges ⊤ (pairEntry ⟨300, by decide⟩) false :=
  ⟨isTree_pair, (converges_iff isTree_pair _ false).mpr (.inl (by decide))⟩

/-- After the ban action `set REPUTATION=20000` on one server the other one stays
at the cap. -/
theorem not_converges_pair :
    (⊤ : SimpleGraph Bool).IsTree ∧
      ¬ Converges ⊤ (pairEntry ⟨20000, by decide⟩) false :=
  ⟨isTree_pair,
    @not_converges _ _ _ _ _ _ isTree_pair false false true
      (by decide) (by decide)⟩

end UnrealIrcd.Reputation
