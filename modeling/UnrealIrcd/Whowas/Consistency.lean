import Mathlib.Data.List.Find
import Mathlib.Data.Int.ModEq
import Mathlib.Algebra.Order.Group.Abs
import UnrealIrcd.Whowas.Model

/-!
# The nick history holds the last additions

The abstract history is the list of all additions, newest first, each with the
client that is still online under its old nick.  The array holds a window of it:
the last `NICKNAMEHISTORYLENGTH` additions, addition number `n` in the slot
`n % NICKNAMEHISTORYLENGTH`.  Both kinds of chains are the window, filtered.
-/

namespace UnrealIrcd.Whowas

open Support ChainFamily List Function
open Option (map_some bind_some or_none)

/-! ## The abstract history -/

structure Entry where
  name : Nick
  event : WhoWasEvent
  logoff : ℤ
  online : Option ClientId
deriving DecidableEq, Repr

/-- The client is no longer online. -/
def Entry.clear (client : ClientId) (e : Entry) : Entry :=
  if e.online = some client then { e with online := none } else e

/-- The history after a call, newest first. -/
def historyStep (history : List Entry) : Call → List Entry
  | .addHistory client name now online event =>
    ⟨name, event, now, if online then some client else none⟩ :: history
  | .offHistory client => history.map (Entry.clear client)
  | .getHistory _ _ _ => history

/-- All additions that a sequence of calls makes. -/
def historyOf (calls : List Call) : List Entry := calls.foldl historyStep []

def numbered : List Entry → List (ℕ × Entry)
  | [] => []
  | e :: older => (older.length, e) :: numbered older

variable {cfg : Config}

/-- The last `NICKNAMEHISTORYLENGTH` additions, newest first. -/
def recent (cfg : Config) (history : List Entry) : List (ℕ × Entry) :=
  (numbered history).take cfg.nicknameHistoryLength

def slotOf (cfg : Config) (p : ℕ × Entry) : Slot :=
  p.1 % cfg.nicknameHistoryLength

def record (cfg : Config) (e : Entry) : WhoWas :=
  ⟨some (cfg.hashWhowasName e.name), e.name, e.event, e.logoff, e.online⟩

/-! ## The window -/

theorem numbered_map (f : Entry → Entry) (history : List Entry) :
    numbered (history.map f) =
      (numbered history).map (fun p => (p.1, f p.2)) := by
  induction history with
  | nil => rfl
  | cons e older ih => simp [numbered, ih]

variable {history : List Entry} {p : ℕ × Entry}

theorem numbered_getElem {i : ℕ} (h : (numbered history)[i]? = some p) :
    p.1 + i + 1 = history.length := by
  induction history generalizing i with
  | nil => simp [numbered] at h
  | cons e older ih =>
    cases i with
    | zero =>
      simp only [numbered, getElem?_cons_zero, Option.some.injEq] at h
      subst h
      simp
    | succ i =>
      simp only [numbered, getElem?_cons_succ] at h
      have := ih h
      simp
      omega

theorem nodup_slots (history : List Entry) :
    ((recent cfg history).map (slotOf cfg)).Nodup := by
  rw [nodup_iff_getElem?_ne_getElem?]
  intro i j hij hj heq
  simp only [recent, length_map, length_take] at hj
  have hget : ∀ k, k < cfg.nicknameHistoryLength →
      ((recent cfg history).map (slotOf cfg))[k]? =
        (numbered history)[k]?.map (slotOf cfg) := by
    intro k hk
    rw [getElem?_map, recent, getElem?_take_of_lt hk]
  rw [hget i (by omega), hget j (by omega)] at heq
  obtain ⟨q, hq⟩ : ∃ q, (numbered history)[j]? = some q :=
    ⟨_, getElem?_eq_getElem (by omega)⟩
  obtain ⟨p, hp⟩ : ∃ p, (numbered history)[i]? = some p :=
    ⟨_, getElem?_eq_getElem (by omega)⟩
  rw [hp, hq, map_some, map_some, Option.some.injEq] at heq
  have hpn := numbered_getElem hp
  have hqn := numbered_getElem hq
  have hmod : p.1 ≡ q.1 [MOD cfg.nicknameHistoryLength] := heq
  have habs : |(q.1 : ℤ) - p.1| < cfg.nicknameHistoryLength := by
    rw [abs_lt]
    omega
  have := hmod.eq_of_abs_lt habs
  omega

theorem length_recent_le (history : List Entry) :
    (recent cfg history).length ≤ cfg.nicknameHistoryLength :=
  length_take_le _ _

/-- A new addition comes to the front of the window; what stays is the window
itself, or all of it but an addition in the slot of the new one. -/
theorem recent_cons (e : Entry) (history : List Entry) :
    ∃ keep, recent cfg (e :: history) = (history.length, e) :: keep ∧
      (recent cfg history = keep ∨
        ∃ old, recent cfg history = keep ++ [old] ∧
          slotOf cfg old = slotOf cfg (history.length, e)) := by
  obtain ⟨m, hm⟩ := Nat.exists_eq_add_one.mpr cfg.nicknameHistoryLength_pos
  refine ⟨(numbered history).take m, ?_, ?_⟩
  · rw [recent, numbered, hm, take_succ_cons]
  · unfold recent
    rw [hm, take_add_one]
    cases hold : (numbered history)[m]? with
    | none => exact .inl (by simp)
    | some old =>
      refine .inr ⟨old, by simp, ?_⟩
      have hnum := numbered_getElem hold
      unfold slotOf
      rw [← hnum, add_assoc, ← hm, Nat.add_mod_right]

/-! ## The chains of the window -/

variable {old : ℕ × Entry} {window : List (ℕ × Entry)}

section Chains

variable {ι : Type} {sel : ι → ℕ × Entry → Bool}

/-- The slots of the window that belong to each chain, newest first. -/
def chainsOf (cfg : Config) (sel : ι → ℕ × Entry → Bool)
    (window : List (ℕ × Entry)) (i : ι) : List Slot :=
  (window.filter (sel i)).map (slotOf cfg)

theorem mem_chainsOf {i : ι} {s : Slot} :
    s ∈ chainsOf cfg sel window i ↔
      ∃ p ∈ window, sel i p = true ∧ slotOf cfg p = s := by
  simp [chainsOf, and_assoc]

theorem not_mem_chainsOf {s : Slot} (h : s ∉ window.map (slotOf cfg)) (i : ι) :
    s ∉ chainsOf cfg sel window i := by
  intro hmem
  obtain ⟨p, hp, -, hslot⟩ := mem_chainsOf.mp hmem
  exact h (hslot ▸ mem_map_of_mem hp)

theorem length_chainsOf_le (i : ι) :
    (chainsOf cfg sel window i).length ≤ window.length := by
  rw [chainsOf, length_map]
  exact length_filter_le _ _

variable [DecidableEq ι] {chain : Option ι} {c : ChainFamily ι}

theorem represents_cons (hsel : ∀ i, sel i p = true ↔ chain = some i)
    (h : c.Represents (chainsOf cfg sel window))
    (hnew : slotOf cfg p ∉ window.map (slotOf cfg)) :
    ∃ c', (chain.elim (some c) fun i => c.push i (slotOf cfg p)) = some c' ∧
      c'.Represents (chainsOf cfg sel (p :: window)) := by
  have hcons : ∀ j, chainsOf cfg sel (p :: window) j =
      if chain = some j then slotOf cfg p :: chainsOf cfg sel window j
      else chainsOf cfg sel window j := by
    intro j
    simp only [chainsOf, filter_cons, hsel]
    split <;> rfl
  cases chain with
  | none =>
    rw [funext hcons]
    exact ⟨c, rfl, h⟩
  | some i =>
    obtain ⟨c', hpush, hrepresents⟩ := h.push i (not_mem_chainsOf hnew)
    refine ⟨c', hpush, ?_⟩
    convert hrepresents using 1
    funext j
    rw [hcons, update_apply]
    simp only [Option.some.injEq, @eq_comm _ i]
    split
    case isTrue hj => rw [hj]
    case isFalse => rfl

theorem represents_concat (hsel : ∀ i, sel i old = true ↔ chain = some i)
    (h : c.Represents (chainsOf cfg sel (window ++ [old])))
    (hold : slotOf cfg old ∉ window.map (slotOf cfg)) :
    ∃ c', (chain.elim (some c) fun i => c.unlink i (slotOf cfg old)) = some c' ∧
      c'.Represents (chainsOf cfg sel window) := by
  have hconcat : ∀ j, chainsOf cfg sel (window ++ [old]) j =
      if chain = some j then chainsOf cfg sel window j ++ [slotOf cfg old]
      else chainsOf cfg sel window j := by
    intro j
    simp only [chainsOf, filter_append, filter_cons, hsel]
    split <;> simp
  cases chain with
  | none =>
    rw [funext hconcat] at h
    exact ⟨c, rfl, h⟩
  | some i =>
    have hown := hconcat i
    rw [if_pos rfl] at hown
    obtain ⟨c', hunlink, hrepresents⟩ := h.unlink (i := i)
      (e := slotOf cfg old) (by rw [hown]; simp)
    refine ⟨c', hunlink, ?_⟩
    convert hrepresents using 1
    funext j
    rw [update_apply]
    split
    case isTrue hj =>
      rw [hj, hown, erase_append_right _ (not_mem_chainsOf hold i)]
      simp
    case isFalse hj => rw [hconcat, if_neg (by simpa using Ne.symm hj)]

end Chains

/-! ## The array holds the window -/

def inHashChain (cfg : Config) (hashv : ℕ) (p : ℕ × Entry) : Bool :=
  cfg.hashWhowasName p.2.name = hashv

def inClientChain (client : ClientId) (p : ℕ × Entry) : Bool :=
  p.2.online = some client

/-- The array and its chains hold exactly the additions of the window. -/
structure Holds (cfg : Config) (S : State) (window : List (ℕ × Entry)) : Prop where
  distinct : (window.map (slotOf cfg)).Nodup
  occupied : ∀ p ∈ window, S.slots (slotOf cfg p) = record cfg p.2
  free : ∀ s, (∀ p ∈ window, slotOf cfg p ≠ s) → (S.slots s).hashv = none
  hashChains : S.hashChains.Represents
    (chainsOf cfg (inHashChain cfg) window)
  clientChains : S.clientChains.Represents (chainsOf cfg inClientChain window)

variable {S : State}

theorem Holds.exists_of_occupied (h : Holds cfg S window) {s : Slot}
    (hocc : (S.slots s).hashv ≠ none) : ∃ p ∈ window, slotOf cfg p = s := by
  by_contra hno
  exact hocc (h.free s fun p hp heq => hno ⟨p, hp, heq⟩)

theorem holds_init : Holds cfg initwhowas [] where
  distinct := nodup_nil
  occupied _ h := absurd h not_mem_nil
  free _ _ := rfl
  hashChains := represents_empty _
  clientChains := represents_empty _

theorem inHashChain_iff (p : ℕ × Entry) (h : ℕ) :
    inHashChain cfg h p = true ↔ some (cfg.hashWhowasName p.2.name) = some h := by
  simp [inHashChain]

variable {client : ClientId}

theorem inClientChain_iff (p : ℕ × Entry) (c : ClientId) :
    inClientChain c p = true ↔ p.2.online = some c := by
  simp [inClientChain]

theorem Holds.freeWhowasEntry {keep : List (ℕ × Entry)}
    (h : Holds cfg S (keep ++ [old])) :
    ∃ S', freeWhowasEntry S (slotOf cfg old)
        (cfg.hashWhowasName old.2.name) = some S' ∧
      Holds cfg S' keep ∧ S'.whowasNext = S.whowasNext ∧
      ∀ s, s ≠ slotOf cfg old → S'.slots s = S.slots s := by
  have hrecord := h.occupied old (by simp)
  have hnodup := h.distinct
  rw [map_append, nodup_append_comm, map_singleton,
    singleton_append, nodup_cons] at hnodup
  obtain ⟨hold, hdistinct⟩ := hnodup
  obtain ⟨hashChains, hunlink, hhash⟩ :=
    represents_concat (inHashChain_iff old) h.hashChains hold
  obtain ⟨clientChains, hclientUnlink, hclientChains⟩ :=
    represents_concat (inClientChain_iff old) h.clientChains hold
  -- The client's chain is touched only while the client is online.
  have hdel : delFromClientChain S.clientChains old.2.online (slotOf cfg old) =
      some clientChains := by
    rw [← hclientUnlink]
    cases old.2.online <;> rfl
  refine ⟨{ slots := update S.slots (slotOf cfg old)
              (freeWhowasFields (S.slots (slotOf cfg old)))
            hashChains := hashChains
            clientChains := clientChains
            whowasNext := S.whowasNext }, ?_, ?_, rfl, ?_⟩
  · unfold Whowas.freeWhowasEntry
    simp only [update_self, freeWhowasFields, hrecord, record]
    rw [hdel, bind_some]
    exact congrArg (Option.map _) hunlink
  · refine ⟨hdistinct, ?_, ?_, hhash, hclientChains⟩
    · intro p hp
      have hother : slotOf cfg p ≠ slotOf cfg old := fun heq =>
        hold (heq ▸ mem_map_of_mem hp)
      simp only [update_of_ne hother]
      exact h.occupied p (mem_append_left _ hp)
    · intro s hs
      by_cases hsold : s = slotOf cfg old
      · subst hsold
        simp [freeWhowasFields]
      · simp only [update_of_ne hsold]
        exact h.free s (forall_mem_append.mpr
          ⟨hs, forall_mem_singleton.mpr (Ne.symm hsold)⟩)
  · intro s hs
    exact update_of_ne hs _ _

/-- `whowas_next++; if (whowas_next == NICKNAMEHISTORYLENGTH) whowas_next = 0`. -/
theorem next_slot (n : ℕ) :
    (if n % cfg.nicknameHistoryLength + 1 = cfg.nicknameHistoryLength then 0
      else n % cfg.nicknameHistoryLength + 1) =
      (n + 1) % cfg.nicknameHistoryLength := by
  have hlt := Nat.mod_lt n cfg.nicknameHistoryLength_pos
  rw [← Nat.mod_add_mod n]
  split
  case isTrue hend => rw [hend, Nat.mod_self]
  case isFalse hend => exact (Nat.mod_eq_of_lt (by omega)).symm

theorem Holds.storeEntry {keep : List (ℕ × Entry)} (h : Holds cfg S keep)
    {n : ℕ} {name : Nick} {now : ℤ} {online : Bool} {event : WhoWasEvent}
    {e : Entry}
    (he : e = ⟨name, event, now, if online then some client else none⟩)
    (hdistinct : (((n, e) :: keep).map (slotOf cfg)).Nodup)
    (hnext : S.whowasNext = slotOf cfg (n, e)) :
    ∃ S', storeEntry cfg S client name now online event = some S' ∧
      Holds cfg S' ((n, e) :: keep) ∧
      S'.whowasNext = (n + 1) % cfg.nicknameHistoryLength ∧
      ∀ s, s ≠ slotOf cfg (n, e) → S'.slots s = S.slots s := by
  have hnew : slotOf cfg (n, e) ∉ keep.map (slotOf cfg) :=
    (nodup_cons.mp hdistinct).1
  obtain ⟨hashChains, hpush, hhash⟩ :=
    represents_cons (inHashChain_iff (n, e)) h.hashChains hnew
  obtain ⟨clientChains, hclientPush, hclientChains⟩ :=
    represents_cons (inClientChain_iff (n, e)) h.clientChains hnew
  have hlink : (if online then S.clientChains.push client (slotOf cfg (n, e))
      else some S.clientChains) = some clientChains := by
    rw [← hclientPush, he]
    cases online <;> rfl
  have hname : S.hashChains.push (cfg.hashWhowasName name) (slotOf cfg (n, e)) =
      some hashChains := by
    rw [← hpush, he]
    rfl
  refine ⟨{ slots := update S.slots (slotOf cfg (n, e)) (record cfg e)
            hashChains := hashChains
            clientChains := clientChains
            whowasNext := (n + 1) % cfg.nicknameHistoryLength }, ?_, ?_, rfl, ?_⟩
  · unfold Whowas.storeEntry
    simp only [hnext]
    rw [hlink, bind_some, hname, map_some]
    rw [slotOf, next_slot]
    simp [createWhowasEntry, record, he]
  · refine ⟨hdistinct, ?_, ?_, hhash, hclientChains⟩
    · refine forall_mem_cons.mpr ⟨update_self _ _ _, ?_⟩
      intro p hp
      have hne : slotOf cfg p ≠ slotOf cfg (n, e) := fun heq =>
        hnew (heq ▸ mem_map_of_mem hp)
      simp only [update_of_ne hne]
      exact h.occupied p hp
    · intro s hs
      obtain ⟨hne, hs⟩ := forall_mem_cons.mp hs
      simp only [update_of_ne hne.symm]
      exact h.free s hs
  · intro s hs
    exact update_of_ne hs _ _

/-! ## Going offline -/

/-- The loop of `off_history` empties the chain of the client.  The induction is
on the records still in the chain. -/
theorem offHistoryLoop_spec {L : ClientId → List Slot} {S : State}
    (hchains : S.clientChains.Represents L) {n : ℕ}
    (hn : (L client).length ≤ n) :
    ∃ S', offHistoryLoop client n (L client).head? S = some S' ∧
      S'.clientChains.Represents (update L client []) ∧
      S'.hashChains = S.hashChains ∧ S'.whowasNext = S.whowasNext ∧
      ∀ s, S'.slots s = if s ∈ L client then { S.slots s with online := none }
        else S.slots s := by
  generalize hrest : L client = rest
  rw [hrest] at hn
  induction rest generalizing L S n with
  | nil =>
    refine ⟨S, by cases n <;> rfl, ?_, rfl, rfl, fun s => by simp⟩
    rw [← hrest, update_eq_self]
    exact hchains
  | cons temp rest ih =>
    obtain ⟨m, rfl⟩ : ∃ m, n = m + 1 := ⟨n - 1, by simp at hn; omega⟩
    obtain ⟨clientChains, hunlink, hchains'⟩ :=
      hchains.unlink (i := client) (e := temp) (by rw [hrest]; simp)
    rw [hrest, erase_cons_head] at hchains'
    have hseg := hchains.seg client
    rw [hrest, cells_cons, Seg, firstPtr_cells, or_none] at hseg
    obtain ⟨S', hloop, hclients, hhash, hnext, hslots⟩ :=
      @ih (update L client rest)
        { S with
          slots := update S.slots temp
            { S.slots temp with online := none }
          clientChains := clientChains } hchains' m
        (by simpa using hn) (update_self client rest L)
    have hnodup := hchains.nodup client
    rw [hrest, nodup_cons] at hnodup
    refine ⟨S', ?_, ?_, hhash, hnext, fun s => ?_⟩
    · rw [head?_cons, offHistoryLoop, hseg.1, bind_some, hunlink,
        bind_some]
      exact hloop
    · rwa [update_idem] at hclients
    · rw [hslots]
      by_cases hs : s = temp
      · subst hs
        simp [hnodup.1]
      · simp [hs]

theorem online_clear (client c : ClientId) (e : Entry) :
    (e.clear client).online = some c ↔ e.online = some c ∧ c ≠ client := by
  unfold Entry.clear
  split
  case isTrue h => simp [h, eq_comm]
  case isFalse h =>
    refine (and_iff_left_of_imp ?_).symm
    rintro hc rfl
    exact h hc

theorem chainsOf_clear (client : ClientId) (window : List (ℕ × Entry)) :
    chainsOf cfg inClientChain
        (window.map fun p => (p.1, p.2.clear client)) =
      update (chainsOf cfg inClientChain window) client [] := by
  funext c
  unfold chainsOf
  rw [filter_map, map_map]
  by_cases hc : c = client
  · subst hc
    rw [update_self, map_eq_nil_iff, filter_eq_nil_iff]
    intro p _ hp
    exact ((online_clear c c p.2).mp (by simpa [inClientChain] using hp)).2 rfl
  · rw [update_of_ne hc]
    refine congrArg (List.map (slotOf cfg)) (filter_congr fun p _ => ?_)
    simp [inClientChain, online_clear, hc]

theorem Holds.offHistory (h : Holds cfg S window)
    (hlen : window.length ≤ cfg.nicknameHistoryLength) (client : ClientId) :
    ∃ S', offHistory cfg S client = some S' ∧
      Holds cfg S' (window.map fun p => (p.1, p.2.clear client)) ∧
      S'.whowasNext = S.whowasNext ∧
      ∀ s, (S.slots s).online = none → (S'.slots s).online = none := by
  obtain ⟨S', hloop, hclients, hhash, hnext, hslots⟩ :=
    offHistoryLoop_spec h.clientChains ((length_chainsOf_le client).trans hlen)
  refine ⟨S', ?_, ?_, hnext, ?_⟩
  · rw [Whowas.offHistory, h.clientChains.head_eq]
    exact hloop
  · refine ⟨?_, ?_, ?_, ?_, ?_⟩
    · rw [map_map]
      exact h.distinct
    · intro q hq
      obtain ⟨p, hp, rfl⟩ := mem_map.mp hq
      have hslot : slotOf cfg (p.1, p.2.clear client) = slotOf cfg p := rfl
      have hmem : slotOf cfg p ∈ chainsOf cfg inClientChain window client ↔
          p.2.online = some client := by
        rw [mem_chainsOf]
        constructor
        · rintro ⟨q, hq, hsel, heq⟩
          obtain rfl := inj_on_of_nodup_map h.distinct hq hp heq
          exact (inClientChain_iff q client).mp hsel
        · intro honline
          exact ⟨p, hp, (inClientChain_iff p client).mpr honline, rfl⟩
      rw [hslot, hslots, h.occupied p hp]
      simp only [hmem, Entry.clear]
      split <;> rfl
    · intro s hs
      have hfree : (S.slots s).hashv = none := by
        refine h.free s fun p hp => ?_
        exact hs (p.1, p.2.clear client) (mem_map.mpr ⟨p, hp, rfl⟩)
      rw [hslots]
      split <;> exact hfree
    · rw [hhash]
      have hsame : chainsOf cfg (inHashChain cfg)
          (window.map fun p => (p.1, p.2.clear client)) =
          chainsOf cfg (inHashChain cfg) window := by
        funext hashv
        unfold chainsOf
        rw [filter_map, map_map]
        refine congrArg (List.map (slotOf cfg)) (filter_congr fun p _ => ?_)
        unfold inHashChain Entry.clear comp
        dsimp only
        split <;> rfl
      rw [hsame]
      exact h.hashChains
    · rw [chainsOf_clear]
      exact hclients
  · intro s honline
    rw [hslots]
    split
    · rfl
    · exact honline

/-! ## Looking a nick up -/

theorem getHistoryLoop_eq {nick : Nick} {timelimit : ℤ} {l : List Slot}
    {before : Option ℕ} (hseg : Seg S.hashChains.nodes before (cells l) none)
    {n : ℕ} (hn : l.length ≤ n) :
    getHistoryLoop cfg S nick timelimit n l.head? =
      some ((l.find? fun s => cfg.casing.same nick (S.slots s).name &&
        decide (timelimit ≤ (S.slots s).logoff)).bind
          fun s => (S.slots s).online) := by
  induction l generalizing before n with
  | nil => cases n <;> rfl
  | cons temp rest ih =>
    obtain ⟨m, rfl⟩ : ∃ m, n = m + 1 := ⟨n - 1, by simp at hn; omega⟩
    rw [cells_cons, Seg, firstPtr_cells, or_none] at hseg
    have hrest := @ih (some temp) hseg.2 m (by simpa using hn)
    rw [head?_cons, getHistoryLoop, hseg.1, bind_some]
    by_cases hname : cfg.casing.same nick (S.slots temp).name = true
    · by_cases htime : (S.slots temp).logoff < timelimit
      · simp only [hname, not_true_eq_false, if_false, htime, if_true]
        rw [hrest, find?_cons_of_neg (by simpa using fun _ => htime)]
      · simp only [hname, not_true_eq_false, if_false, htime]
        rw [find?_cons_of_pos (by simpa [hname] using htime)]
        rfl
    · simp only [hname, if_true, Bool.false_eq_true, not_false_eq_true]
      rw [hrest, find?_cons_of_neg (by simp [hname])]

theorem Holds.getHistory (h : Holds cfg S window)
    (hlen : window.length ≤ cfg.nicknameHistoryLength) (nick : Nick)
    (now timelimit : ℤ) :
    getHistory cfg S nick now timelimit =
      some ((window.find? fun p => cfg.casing.same nick p.2.name &&
        decide (now - timelimit ≤ p.2.logoff)).bind fun p => p.2.online) := by
  rw [Whowas.getHistory, h.hashChains.head_eq,
    getHistoryLoop_eq (h.hashChains.seg _) ((length_chainsOf_le _).trans hlen),
    Option.some.injEq, chainsOf, find?_map, find?_filter, Option.bind_map,
    @List.find?_congr _ _ (fun p => cfg.casing.same nick p.2.name &&
      decide (now - timelimit ≤ p.2.logoff)) window]
  · refine Option.bind_congr fun p hp => ?_
    simp only [comp_apply, h.occupied p (mem_of_find?_eq_some hp), record]
  · intro p hp
    simp only [comp_apply, h.occupied p hp, record]
    cases hsame : cfg.casing.same nick p.2.name with
    | false => simp
    | true =>
      -- A nick that is the same has the same hash value.
      have hhash : inHashChain cfg (cfg.hashWhowasName nick) p = true := by
        rw [inHashChain_iff, Option.some.injEq]
        exact (Casing.bucket_eq (Casing.same_iff.mp hsame) _).symm
      simp [hhash]

/-! ## Runs -/

/-- The invariant between two calls. -/
structure Inv (cfg : Config) (S : State) (history : List Entry) : Prop where
  holds : Holds cfg S (recent cfg history)
  next : S.whowasNext = history.length % cfg.nicknameHistoryLength
  offline : ∀ s, (∀ p ∈ recent cfg history, slotOf cfg p ≠ s) →
    (S.slots s).online = none

theorem inv_init : Inv cfg initwhowas [] where
  holds := by
    rw [recent, numbered, take_nil]
    exact holds_init
  next := (Nat.zero_mod _).symm
  offline _ _ := rfl

theorem Inv.addHistory (h : Inv cfg S history) (client : ClientId) (name : Nick)
    (now : ℤ) (online : Bool) (event : WhoWasEvent) :
    ∃ S', addHistory cfg S client name now online event = some S' ∧
      Inv cfg S' (historyStep history
        (.addHistory client name now online event)) := by
  simp only [historyStep]
  generalize he : (⟨name, event, now, if online then some client else none⟩ :
    Entry) = e
  obtain ⟨keep, hrecent, hold⟩ := @recent_cons cfg e history
  have hdistinct := @nodup_slots cfg (e :: history)
  rw [hrecent] at hdistinct
  have hnew : ∀ p ∈ keep, slotOf cfg p ≠ slotOf cfg (history.length, e) := by
    intro p hp heq
    exact (nodup_cons.mp hdistinct).1 (heq ▸ mem_map_of_mem hp)
  -- After the slot has been freed the array holds what stays of the window.
  have hfreed : ∃ S₁, freeNextSlot S = some S₁ ∧ Holds cfg S₁ keep ∧
      S₁.whowasNext = S.whowasNext ∧
      ∀ s, s ≠ slotOf cfg (history.length, e) → S₁.slots s = S.slots s := by
    have hnext : S.whowasNext = slotOf cfg (history.length, e) := h.next
    rcases hold with hsame | ⟨old, hsame, hslot⟩
    · have hholds := h.holds
      rw [hsame] at hholds
      refine ⟨S, ?_, hholds, rfl, fun _ _ => rfl⟩
      rw [freeNextSlot, hnext, hholds.free _ hnew]
    · have hholds := h.holds
      rw [hsame] at hholds
      obtain ⟨S₁, hfree, hkeep, hnext₁, hslots⟩ := hholds.freeWhowasEntry
      refine ⟨S₁, ?_, hkeep, hnext₁, fun s hs => hslots s (hslot ▸ hs)⟩
      rw [freeNextSlot, hnext, ← hslot, hholds.occupied old (by simp)]
      exact hfree
  obtain ⟨S₁, hfree, hkeep, hnext₁, hslots₁⟩ := hfreed
  obtain ⟨S', hstore, hholds, hnext', hslots'⟩ :=
    hkeep.storeEntry he.symm hdistinct (hnext₁.trans h.next)
  refine ⟨S', ?_, ?_, ?_, ?_⟩
  · rw [Whowas.addHistory, hfree]
    exact hstore
  · rw [hrecent]
    exact hholds
  · rw [hnext', length_cons]
  · rw [hrecent]
    intro s hs
    rw [forall_mem_cons] at hs
    rw [hslots' s hs.1.symm, hslots₁ s hs.1.symm]
    apply h.offline s
    rcases hold with hsame | ⟨old, hsame, hslot⟩
    · rw [hsame]
      exact hs.2
    · rw [hsame, forall_mem_append, forall_mem_singleton, hslot]
      exact ⟨hs.2, hs.1⟩

theorem recent_map (f : Entry → Entry) (history : List Entry) :
    recent cfg (history.map f) =
      (recent cfg history).map fun p => (p.1, f p.2) := by
  rw [recent, numbered_map, ← map_take]
  rfl

/-- Every call ends and keeps the invariant. -/
theorem step_inv (h : Inv cfg S history) (call : Call) :
    ∃ S', step cfg S call = some S' ∧ Inv cfg S' (historyStep history call) := by
  cases call with
  | addHistory client name now online event =>
    exact h.addHistory client name now online event
  | offHistory client =>
    obtain ⟨S', hoff, hholds, hnext, honline⟩ :=
      h.holds.offHistory (length_recent_le history) client
    refine ⟨S', hoff, ?_, ?_, ?_⟩
    · rw [historyStep, recent_map]
      exact hholds
    · rw [hnext, h.next, historyStep, length_map]
    · rw [historyStep, recent_map]
      intro s hs
      refine honline s (h.offline s fun p hp => ?_)
      exact hs (p.1, p.2.clear client) (mem_map.mpr ⟨p, hp, rfl⟩)
  | getHistory nick now timelimit =>
    refine ⟨S, ?_, h⟩
    rw [step, h.holds.getHistory (length_recent_le history)]
    rfl

theorem run_inv (h : Inv cfg S history) (calls : List Call) :
    ∃ S', run cfg S calls = some S' ∧
      Inv cfg S' (calls.foldl historyStep history) := by
  induction calls generalizing S history with
  | nil => exact ⟨S, rfl, h⟩
  | cons call calls ih =>
    obtain ⟨S', hstep, hinv⟩ := step_inv h call
    obtain ⟨S'', hrun, hinv'⟩ := ih hinv
    refine ⟨S'', ?_, hinv'⟩
    rw [run, hstep]
    exact hrun

def State.hashChain (cfg : Config) (S : State) (hashv : ℕ) : Option (List Slot) :=
  walk S.hashChains.nodes cfg.nicknameHistoryLength (S.hashChains.head hashv)

def State.clientChain (cfg : Config) (S : State) (client : ClientId) :
    Option (List Slot) :=
  walk S.clientChains.nodes cfg.nicknameHistoryLength
    (S.clientChains.head client)

/-- The array, its hash chains and its client chains fit to the history. -/
structure Consistent (cfg : Config) (S : State) (history : List Entry) : Prop where
  /-- The array holds exactly the last additions, each in its own slot. -/
  distinct : ((recent cfg history).map (slotOf cfg)).Nodup
  last_additions : ∀ p ∈ recent cfg history,
    S.slots (slotOf cfg p) = record cfg p.2
  nothing_else : ∀ s, (S.slots s).hashv ≠ none →
    ∃ p ∈ recent cfg history, slotOf cfg p = s
  /-- A hash chain lists, newest first, the slots of the additions with that
  hash value: an occupied slot is in the chain of its nick and in no other. -/
  hash_chain : ∀ hashv, S.hashChain cfg hashv =
    some (((recent cfg history).filter fun p =>
      cfg.hashWhowasName p.2.name = hashv).map (slotOf cfg))
  own_chain : ∀ s hashv l, S.hashChain cfg hashv = some l →
    (s ∈ l ↔ (S.slots s).hashv ≠ none ∧
      cfg.hashWhowasName (S.slots s).name = hashv)
  /-- The chain of a client has the slots that point to the client. -/
  client_chain : ∀ client, ∃ l, S.clientChain cfg client = some l ∧ l.Nodup ∧
    ∀ s, s ∈ l ↔ (S.slots s).online = some client
  /-- Both kinds of chains are linked backwards as well. -/
  back_links :
    S.hashChains.Represents
        (chainsOf cfg (inHashChain cfg) (recent cfg history)) ∧
      S.clientChains.Represents
        (chainsOf cfg inClientChain (recent cfg history))

/-- In an occupied slot the hash value is that of the nick. -/
theorem Inv.mem_hashChain (h : Inv cfg S history) (s : Slot) (hashv : ℕ) :
    s ∈ chainsOf cfg (inHashChain cfg) (recent cfg history) hashv ↔
      (S.slots s).hashv ≠ none ∧
        cfg.hashWhowasName (S.slots s).name = hashv := by
  rw [mem_chainsOf]
  constructor
  · rintro ⟨p, hp, hsel, rfl⟩
    rw [h.holds.occupied p hp]
    exact ⟨Option.some_ne_none _,
      Option.some.inj ((inHashChain_iff p hashv).mp hsel)⟩
  · rintro ⟨hocc, hhash⟩
    obtain ⟨p, hp, rfl⟩ := h.holds.exists_of_occupied hocc
    rw [h.holds.occupied p hp] at hhash
    exact ⟨p, hp, (inHashChain_iff p hashv).mpr (congrArg some hhash), rfl⟩

theorem Inv.mem_clientChain (h : Inv cfg S history) (s : Slot)
    (client : ClientId) :
    s ∈ chainsOf cfg inClientChain (recent cfg history) client ↔
      (S.slots s).online = some client := by
  rw [mem_chainsOf]
  constructor
  · rintro ⟨p, hp, hsel, rfl⟩
    rw [h.holds.occupied p hp]
    exact (inClientChain_iff p client).mp hsel
  · intro honline
    obtain ⟨p, hp, rfl⟩ : ∃ p ∈ recent cfg history, slotOf cfg p = s := by
      by_contra hno
      rw [h.offline s fun p hp heq => hno ⟨p, hp, heq⟩] at honline
      cases honline
    rw [h.holds.occupied p hp] at honline
    exact ⟨p, hp, (inClientChain_iff p client).mpr honline, rfl⟩

theorem Inv.walk_eq {ι : Type} [DecidableEq ι] {c : ChainFamily ι}
    {sel : ι → ℕ × Entry → Bool}
    (hchains : c.Represents (chainsOf cfg sel (recent cfg history))) (i : ι) :
    walk c.nodes cfg.nicknameHistoryLength (c.head i) =
      some (chainsOf cfg sel (recent cfg history) i) := by
  exact hchains.walk i ((length_chainsOf_le i).trans (length_recent_le history))

theorem Inv.consistent (h : Inv cfg S history) :
    Consistent cfg S history where
  distinct := h.holds.distinct
  last_additions := h.holds.occupied
  nothing_else _ hocc := h.holds.exists_of_occupied hocc
  hash_chain hashv := Inv.walk_eq h.holds.hashChains hashv
  own_chain s hashv l hl := by
    have hwalk := Inv.walk_eq h.holds.hashChains hashv
    rw [State.hashChain, hwalk, Option.some.injEq] at hl
    rw [← hl]
    exact h.mem_hashChain s hashv
  client_chain client :=
    ⟨_, Inv.walk_eq h.holds.clientChains client, h.holds.clientChains.nodup client,
      fun s => h.mem_clientChain s client⟩
  back_links := ⟨h.holds.hashChains, h.holds.clientChains⟩

/-- Over every sequence of calls the nick history is consistent: it holds
exactly the last `NICKNAMEHISTORYLENGTH` additions, in the chains they belong
to. -/
theorem run_history_consistent (cfg : Config) (calls : List Call) :
    ∃ S, run cfg initwhowas calls = some S ∧
      Consistent cfg S (historyOf calls) := by
  obtain ⟨S, hrun, hinv⟩ := run_inv inv_init calls
  exact ⟨S, hrun, hinv.consistent⟩

end UnrealIrcd.Whowas
