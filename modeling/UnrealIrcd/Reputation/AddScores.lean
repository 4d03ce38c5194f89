import UnrealIrcd.Reputation.Model

/-!
# Raising the scores

The event `add_scores`, which raises the score of every address that has a counted
client.  A marker in the entry says whether the address was raised in this call,
and whether for a client that is logged in.
-/

namespace UnrealIrcd.Reputation

abbrev Ip := List Char

/-- What `add_scores` reads of a client, where `channelMembers` is
`highest_channel_member_count(client)`. -/
structure Client where
  isUser : Bool
  ip : Option Ip
  channelMembers : ℤ
  isLoggedIn : Bool

/-- `ReputationEntry`. -/
structure Entry where
  score : ℕ
  lastSeen : ℤ
  marker : ℕ

/-- An entry as `safe_alloc` makes it. -/
def Entry.new : Entry := ⟨0, 0, 0⟩

def entryAt (entries : Ip → Option Entry) (ip : Ip) : Entry :=
  (entries ip).getD .new

/-- The table with the marker of the last call.  Only `add_scores` sets the markers of
entries, so that they are not ahead of it. -/
structure Table where
  entries : Ip → Option Entry
  marker : ℕ
  marker_lt : ∀ ip, (entryAt entries ip).marker < marker + 2

/-- The table when the module is loaded. -/
def Table.empty : Table := ⟨fun _ => none, 0, fun _ => Nat.two_pos⟩

def Table.score (T : Table) (ip : Ip) : ℕ := (entryAt T.entries ip).score

/-- The address of a client that counts, where `minimum` is
`cfg.require_minimum_channel_members`. -/
def Client.countedIp (minimum : ℤ) (client : Client) : Option Ip :=
  if client.isUser ∧ ¬ (0 < minimum ∧ client.channelMembers < minimum) then
    client.ip
  else none

def bump (marker : ℕ) (isLoggedIn : Bool) (e : Entry) : Entry :=
  if e.marker ≠ marker ∧ e.marker ≠ marker + 1 then
    if e.score < reputationScoreCap then
      if isLoggedIn ∧ e.score + 1 < reputationScoreCap then
        { e with score := e.score + 2, marker := marker + 1 }
      else { e with score := e.score + 1, marker := marker }
    else { e with marker := marker }
  else if e.marker = marker ∧ isLoggedIn ∧ e.score < reputationScoreCap then
    { e with score := e.score + 1, marker := marker + 1 }
  else e

/-- One client of `client_list`. -/
def addScore (minimum now : ℤ) (marker : ℕ) (entries : Ip → Option Entry)
    (client : Client) : Ip → Option Entry :=
  match client.countedIp minimum with
  | none => entries
  | some ip =>
    Function.update entries ip (some
      { bump marker client.isLoggedIn (entryAt entries ip) with lastSeen := now })

def points (minimum : ℤ) (clients : List Client) (ip : Ip) : ℕ :=
  if ∃ client ∈ clients, client.countedIp minimum = some ip ∧ client.isLoggedIn
  then 2
  else if ∃ client ∈ clients, client.countedIp minimum = some ip then 1 else 0

/-- The entry has got `c` points of the call, up to the cap. -/
def Raised (marker s c : ℕ) (e : Entry) : Prop :=
  e.score = s + min (reputationScoreCap - s) c ∧
    (e.marker < marker ∧ c = 0 ∨
      e.marker = marker ∧ (c = 1 ∨ c = 2 ∧ reputationScoreCap ≤ e.score) ∨
      e.marker = marker + 1 ∧ c = 2)

variable {minimum now : ℤ} {marker s c : ℕ} {e : Entry}
  {entries : Ip → Option Entry} {ip : Ip}

theorem Raised.bump (h : Raised marker s c e) (isLoggedIn : Bool) :
    Raised marker s (max c (if isLoggedIn then 2 else 1))
      (bump marker isLoggedIn e) := by
  obtain ⟨score, lastSeen, mark⟩ := e
  obtain ⟨hscore, hmarker⟩ := h
  dsimp only at hscore hmarker
  unfold Raised Reputation.bump
  cases isLoggedIn with
  | false =>
    simp only [Bool.false_eq_true, false_and, and_false, if_false]
    split_ifs <;> dsimp only <;> omega
  | true =>
    simp only [true_and, if_true]
    split_ifs <;> dsimp only <;> omega

theorem points_concat (clients : List Client) (client : Client) :
    points minimum (clients ++ [client]) ip =
      if client.countedIp minimum = some ip then
        max (points minimum clients ip) (if client.isLoggedIn then 2 else 1)
      else points minimum clients ip := by
  simp only [points, List.mem_append, List.mem_singleton, or_and_right,
    exists_or, exists_eq_left]
  by_cases hip : client.countedIp minimum = some ip
  · cases client.isLoggedIn with
    | false =>
      simp only [hip, Bool.false_eq_true, and_false, or_false, or_true, if_true,
        if_false]
      split_ifs <;> rfl
    | true =>
      simp only [hip, and_self, or_true, if_true]
      split_ifs <;> rfl
  · simp only [hip, false_and, or_false, if_false]

theorem entryAt_addScore (client : Client) :
    entryAt (addScore minimum now marker entries client) ip =
      if client.countedIp minimum = some ip then
        { bump marker client.isLoggedIn (entryAt entries ip) with lastSeen := now }
      else entryAt entries ip := by
  unfold addScore
  cases hip : client.countedIp minimum with
  | none => rfl
  | some ip' =>
    dsimp only [entryAt]
    rw [Function.update_apply]
    by_cases heq : ip = ip'
    · subst heq
      rw [if_pos rfl, if_pos rfl]
      rfl
    · rw [if_neg heq, if_neg (mt Option.some.inj (Ne.symm heq))]

theorem raised_foldl (h : (entryAt entries ip).marker < marker)
    (clients : List Client) :
    Raised marker (entryAt entries ip).score (points minimum clients ip)
      (entryAt (clients.foldl (addScore minimum now marker) entries) ip) := by
  induction clients using List.reverseRecOn with
  | nil => exact ⟨by simp [points], .inl ⟨h, by simp [points]⟩⟩
  | append_singleton clients client ih =>
    rw [List.foldl_append, List.foldl_cons, List.foldl_nil, entryAt_addScore,
      points_concat]
    split
    · exact ih.bump client.isLoggedIn
    · exact ih

theorem Raised.marker_lt (h : Raised marker s c e) : e.marker < marker + 2 := by
  have hmarker := h.2
  omega

def addScores (minimum now : ℤ) (clients : List Client) (T : Table) : Table where
  entries := clients.foldl (addScore minimum now (T.marker + 2)) T.entries
  marker := T.marker + 2
  marker_lt ip := (raised_foldl (T.marker_lt ip) clients).marker_lt

/-- A call raises every score by its points, as far as the cap allows. -/
theorem score_addScores (minimum now : ℤ) (clients : List Client) (T : Table)
    (ip : Ip) :
    (addScores minimum now clients T).score ip = T.score ip +
      min (reputationScoreCap - T.score ip) (points minimum clients ip) :=
  (raised_foldl (T.marker_lt ip) clients).1

end UnrealIrcd.Reputation
