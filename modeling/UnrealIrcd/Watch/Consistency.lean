import UnrealIrcd.Watch.Model

/-!
# The watch tables stay consistent

The two kinds of lists mirror each other: a client is in the list of a header
exactly if the header is in the list of the client, with the same flags.  Both
`watch_add` and the removals change the two lists together: each of them is
either no change at all, or sets the watchers of one header and the list of one
client (`Sets`), one pair of links at a time.
-/

namespace UnrealIrcd.Watch

open Support List Function
open Link (value fits)

variable {C : Casing} {S S' : State} {p q : WatchPtr} {w : Watch} {nick : Nick}
  {key : List Char} {client c : ClientId} {f flags : Flags}

/-- The watchers in the header at the address. -/
def State.watchersAt (S : State) (p : WatchPtr) : List Link :=
  ((S.heap p).map Watch.watch).getD []

theorem watchersAt_of_heap (hw : S.heap p = some w) :
    S.watchersAt p = w.watch := by
  rw [State.watchersAt, hw]
  rfl

/-- The joint invariant: the headers, the chains and the clients' lists fit
together. -/
structure Inv (C : Casing) (S : State) : Prop where
  heap_lt : ∀ p w, S.heap p = some w → p < S.brk
  chain_nodup : ∀ i, (S.watchTable i).Nodup
  mem_chain : ∀ i p, p ∈ S.watchTable i ↔
    ∃ w, S.heap p = some w ∧ hashWatchNickName C w.nick = i
  nick_inj : ∀ p q w w', S.heap p = some w → S.heap q = some w' →
    C.key w.nick = C.key w'.nick → p = q
  nonempty : ∀ p w, S.heap p = some w → w.watch ≠ []
  watchers_nodup : ∀ p, ((S.watchersAt p).map Link.value).Nodup
  list_nodup : ∀ c, ((S.watchList c).map Link.value).Nodup
  mirror : ∀ c p f, (⟨p, f⟩ : Link) ∈ S.watchList c ↔
    (⟨c, f⟩ : Link) ∈ S.watchersAt p
  counter : ∀ c, S.watches c = (S.watchList c).length

theorem inv_init : Inv C State.init := by
  refine ⟨?_, ?_, ?_, ?_, ?_, ?_, ?_, ?_, ?_⟩ <;>
    simp [State.init, State.watchersAt]

namespace Inv

variable (hinv : Inv C S)

include hinv

theorem mem_list_iff (hw : S.heap p = some w) :
    ⟨p, f⟩ ∈ S.watchList c ↔ ⟨c, f⟩ ∈ w.watch := by
  rw [hinv.mirror, watchersAt_of_heap hw]

theorem header_of_mem {link : Link} (h : link ∈ S.watchList client) :
    ∃ w, S.heap link.value = some w ∧
      ⟨client, link.flags⟩ ∈ w.watch := by
  have hmem := (hinv.mirror client link.value link.flags).mp h
  cases hw : S.heap link.value with
  | none => simp [State.watchersAt, hw] at hmem
  | some w => exact ⟨w, rfl, watchersAt_of_heap hw ▸ hmem⟩

theorem nodup_of_heap (hw : S.heap p = some w) :
    (w.watch.map value).Nodup :=
  watchersAt_of_heap hw ▸ hinv.watchers_nodup p

theorem watchGet_eq_some :
    watchGet C S nick = some p ↔
      ∃ w, S.heap p = some w ∧ C.key w.nick = C.key nick := by
  have hsound : ∀ p, watchGet C S nick = some p →
      ∃ w, S.heap p = some w ∧ C.key w.nick = C.key nick := by
    intro p h
    have hfound := find?_some h
    rw [Option.any_eq_true] at hfound
    obtain ⟨w, hw, hsame⟩ := hfound
    exact ⟨w, hw, Casing.same_iff.mp hsame⟩
  constructor
  · exact hsound p
  · rintro ⟨w, hw, hkey⟩
    have hmem : p ∈ S.watchTable (hashWatchNickName C nick) :=
      (hinv.mem_chain _ p).mpr ⟨w, hw, Casing.bucket_eq hkey _⟩
    cases hget : watchGet C S nick with
    | none =>
      have hno := find?_eq_none.mp hget p hmem
      rw [hw] at hno
      exact absurd (Casing.same_iff.mpr hkey) hno
    | some q =>
      obtain ⟨w', hw', hkey'⟩ := hsound q hget
      rw [hinv.nick_inj p q w w' hw hw' (hkey.trans hkey'.symm)]

theorem watchGet_eq_none (h : watchGet C S nick = none)
    (hw : S.heap p = some w) : C.key w.nick ≠ C.key nick := by
  intro hkey
  rw [(hinv.watchGet_eq_some).mpr ⟨w, hw, hkey⟩] at h
  cases h

end Inv

/-! ## The links as a relation -/

/-- Some header with the nick has the client as a watcher, with the flags. -/
def State.Links (C : Casing) (S : State) (key : List Char) (client : ClientId)
    (flags : Flags) : Prop :=
  ∃ p w, S.heap p = some w ∧ C.key w.nick = key ∧
    (⟨client, flags⟩ : Link) ∈ w.watch

/-- The address is the place of the nick: a header stands there exactly if it
has the nick. -/
def State.Owns (C : Casing) (S : State) (p : WatchPtr) (nick : Nick) : Prop :=
  ∀ q w, S.heap q = some w → (q = p ↔ C.key w.nick = C.key nick)

theorem Inv.owns (hinv : Inv C S) (hw : S.heap p = some w) :
    S.Owns C p w.nick := by
  intro q v hv
  constructor
  · rintro rfl
    rw [hw] at hv
    cases hv
    rfl
  · exact hinv.nick_inj q p v w hv hw

theorem State.Owns.links_iff (h : S.Owns C p nick) :
    S.Links C (C.key nick) client f ↔
      ⟨client, f⟩ ∈ S.watchersAt p := by
  constructor
  · rintro ⟨q, w, hw, hkey, hmem⟩
    obtain rfl := (h q w hw).mpr hkey
    rwa [watchersAt_of_heap hw]
  · intro hmem
    cases hw : S.heap p with
    | none => simp [State.watchersAt, hw] at hmem
    | some w =>
      rw [watchersAt_of_heap hw] at hmem
      exact ⟨p, w, hw, (h p w hw).mp rfl, hmem⟩

theorem Inv.links_unique (hinv : Inv C S) {f' : Flags}
    (h : S.Links C key client f) (h' : S.Links C key client f') : f = f' := by
  obtain ⟨p, w, hw, rfl, hmem⟩ := h
  rw [(hinv.owns hw).links_iff, watchersAt_of_heap hw] at h'
  exact congrArg Link.flags
    (inj_on_of_nodup_map (hinv.nodup_of_heap hw) hmem h' rfl)

/-! ## Setting one header and one list -/

/-- The header of the nick at `p` gets the watchers, or goes away if there are
none, and the client gets the list. -/
structure Sets (C : Casing) (S S' : State) (p : WatchPtr) (nick : Nick)
    (client : ClientId) (watchers list : List Link) : Prop where
  heap : ∀ q, S'.heap q =
    if q = p then if watchers = [] then none else some ⟨nick, watchers⟩
    else S.heap q
  chain_nodup : ∀ i, (S'.watchTable i).Nodup
  mem_chain : ∀ i q, q ∈ S'.watchTable i ↔
    if q = p then watchers ≠ [] ∧ hashWatchNickName C nick = i
    else q ∈ S.watchTable i
  brk_le : S.brk ≤ S'.brk
  lt_brk : p < S'.brk
  watchList : S'.watchList = Function.update S.watchList client list
  watches : S'.watches = Function.update S.watches client list.length

namespace Sets

variable {watchers list : List Link}

section

variable (h : Sets C S S' p nick client watchers list)

include h

theorem heap_cases (hw : S'.heap q = some w) :
    q = p ∧ watchers ≠ [] ∧ w = ⟨nick, watchers⟩ ∨
      q ≠ p ∧ S.heap q = some w := by
  rw [h.heap] at hw
  split at hw
  case isTrue hq =>
    split at hw
    case isTrue => cases hw
    case isFalse hne =>
      cases hw
      exact .inl ⟨hq, hne, rfl⟩
  case isFalse hq => exact .inr ⟨hq, hw⟩

theorem watchersAt (q : WatchPtr) :
    S'.watchersAt q = if q = p then watchers else S.watchersAt q := by
  unfold State.watchersAt
  rw [h.heap]
  split
  case isTrue =>
    split
    case isTrue hnil => rw [hnil]; rfl
    case isFalse => rfl
  case isFalse => rfl

/-- The invariant is kept if the two lists still mirror each other. -/
theorem inv (hinv : Inv C S) (howns : S.Owns C p nick)
    (hwatchers : (watchers.map value).Nodup)
    (hlist : (list.map value).Nodup)
    (hself : ∀ f, ⟨p, f⟩ ∈ list ↔ ⟨client, f⟩ ∈ watchers)
    (hclient : ∀ q f, q ≠ p → (⟨q, f⟩ ∈ list ↔ ⟨q, f⟩ ∈ S.watchList client))
    (hheader : ∀ c f, c ≠ client →
      (⟨c, f⟩ ∈ watchers ↔ ⟨c, f⟩ ∈ S.watchersAt p)) :
    Inv C S' where
  heap_lt q w hw := by
    obtain ⟨rfl, -, -⟩ | ⟨-, hw⟩ := h.heap_cases hw
    · exact h.lt_brk
    · exact (hinv.heap_lt q w hw).trans_le h.brk_le
  chain_nodup := h.chain_nodup
  mem_chain i q := by
    rw [h.mem_chain, h.heap]
    split
    case isTrue => split <;> simp [*]
    case isFalse => exact hinv.mem_chain i q
  nick_inj q r w w' hw hw' hkey := by
    obtain ⟨rfl, -, rfl⟩ | ⟨hq, hw⟩ := h.heap_cases hw
    · obtain ⟨rfl, -, -⟩ | ⟨hr, hw'⟩ := h.heap_cases hw'
      · rfl
      · exact absurd ((howns r w' hw').mpr hkey.symm) hr
    · obtain ⟨rfl, -, rfl⟩ | ⟨-, hw'⟩ := h.heap_cases hw'
      · exact absurd ((howns q w hw).mpr hkey) hq
      · exact hinv.nick_inj q r w w' hw hw' hkey
  nonempty q w hw := by
    obtain ⟨-, hne, rfl⟩ | ⟨-, hw⟩ := h.heap_cases hw
    · exact hne
    · exact hinv.nonempty q w hw
  watchers_nodup q := by
    rw [h.watchersAt]
    split
    case isTrue => exact hwatchers
    case isFalse => exact hinv.watchers_nodup q
  list_nodup c := by
    rw [h.watchList, update_apply]
    split
    case isTrue => exact hlist
    case isFalse => exact hinv.list_nodup c
  mirror c q f := by
    rw [h.watchersAt, h.watchList, update_apply]
    by_cases hc : c = client
    · subst hc
      rw [if_pos rfl]
      by_cases hq : q = p
      · subst hq
        rw [if_pos rfl, hself]
      · rw [if_neg hq, hclient q f hq, hinv.mirror]
    · rw [if_neg hc, hinv.mirror]
      split
      case isTrue hq => rw [hq, hheader c f hc]
      case isFalse => rfl
  counter c := by
    rw [h.watches, h.watchList, update_apply, update_apply]
    split
    case isTrue => rfl
    case isFalse => exact hinv.counter c

theorem links (howns : S.Owns C p nick) :
    S'.Links C key c f ↔ if key = C.key nick then ⟨c, f⟩ ∈ watchers
      else S.Links C key c f := by
  by_cases hkey : key = C.key nick
  · have howns' : S'.Owns C p nick := by
      intro q w hw
      obtain ⟨rfl, -, rfl⟩ | ⟨-, hw⟩ := h.heap_cases hw
      · simp
      · exact howns q w hw
    rw [if_pos hkey, hkey, howns'.links_iff, h.watchersAt, if_pos rfl]
  · rw [if_neg hkey]
    refine exists_congr fun q => exists_congr fun w => ?_
    rw [h.heap]
    by_cases hq : q = p
    · -- no link of another nick is here, before or after
      refine iff_of_false ?_ ?_
      · rintro ⟨hw, rfl, -⟩
        rw [if_pos hq] at hw
        split at hw
        · cases hw
        · cases hw
          exact hkey rfl
      · rintro ⟨hw, rfl, -⟩
        exact hkey ((howns q w hw).mp hq)
    · rw [if_neg hq]

end

end Sets

/-! ## Adding -/

theorem Inv.heap_safeAlloc (hinv : Inv C S) (addr : WatchPtr) :
    S.heap (safeAlloc S addr) = none := by
  unfold safeAlloc
  split
  case isTrue =>
    rw [Option.eq_none_iff_forall_ne_some]
    intro w hw
    exact absurd (hinv.heap_lt _ w hw) (lt_irrefl _)
  case isFalse hfree => simpa using hfree

theorem makeLinks_sets (hinv : Inv C S) (hw : S.heap p = some w)
    (client : ClientId) (flags : Flags) :
    Sets C S (makeLinks S p w client flags) p w.nick client
      (⟨client, flags⟩ :: S.watchersAt p)
      (⟨p, flags⟩ :: S.watchList client) where
  heap q := by simp [makeLinks, update_apply, watchersAt_of_heap hw]
  chain_nodup := hinv.chain_nodup
  mem_chain i q := by
    split
    case isTrue hq =>
      subst hq
      refine (hinv.mem_chain i q).trans ?_
      simp [hw]
    case isFalse => rfl
  brk_le := le_rfl
  lt_brk := hinv.heap_lt p w hw
  watchList := rfl
  watches := by simp [makeLinks, hinv.counter]

theorem makeHeader_sets (hinv : Inv C S) (hfree : S.heap p = none)
    (nick : Nick) (client : ClientId) (flags : Flags) :
    Sets C S (makeLinks (makeHeader C S p nick) p ⟨nick, []⟩ client flags) p
      nick client (⟨client, flags⟩ :: S.watchersAt p)
      (⟨p, flags⟩ :: S.watchList client) := by
  have hout : ∀ i, p ∉ S.watchTable i := by
    intro i hmem
    obtain ⟨w, hw, -⟩ := (hinv.mem_chain _ _).mp hmem
    rw [hfree] at hw
    cases hw
  constructor
  case heap =>
    intro q
    simp only [makeLinks, makeHeader, update_apply, State.watchersAt, hfree]
    split <;> simp
  case chain_nodup =>
    intro i
    simp only [makeLinks, makeHeader, update_apply]
    split
    case isTrue => exact nodup_cons.mpr ⟨hout _, hinv.chain_nodup _⟩
    case isFalse => exact hinv.chain_nodup i
  case mem_chain =>
    intro i q
    simp only [makeLinks, makeHeader, update_apply]
    by_cases hi : i = hashWatchNickName C nick
    · subst hi
      by_cases hq : q = p <;> simp [hq]
    · by_cases hq : q = p
      · simp [hi, hq, hout, Ne.symm hi]
      · simp [hi, hq]
  case brk_le => exact le_max_left _ _
  case lt_brk => exact lt_max_of_lt_right (Nat.lt_succ_self p)
  case watchList => rfl
  case watches => simp [makeLinks, makeHeader, hinv.counter]

section

variable (hinv : Inv C S) (addr : WatchPtr) (nick : Nick) (client : ClientId)
  (flags : Flags)

include hinv

/-- `watch_add` changes nothing if the client has a link for the nick, of
whatever kind; otherwise it makes a pair of links. -/
theorem watchAdd_cases :
    (watchAdd C S addr nick client flags = S ∧
      ∃ f, S.Links C (C.key nick) client f) ∨
    ∃ p nick', C.key nick' = C.key nick ∧ S.Owns C p nick' ∧
      (∀ f, ⟨client, f⟩ ∉ S.watchersAt p) ∧
      Sets C S (watchAdd C S addr nick client flags) p nick' client
        (⟨client, flags⟩ :: S.watchersAt p)
        (⟨p, flags⟩ :: S.watchList client) := by
  unfold watchAdd
  cases hget : watchGet C S nick with
  | some p =>
    obtain ⟨w, hw, hkey⟩ := (hinv.watchGet_eq_some).mp hget
    simp only [hw]
    split
    case isTrue hany =>
      obtain ⟨⟨c, f⟩, hmem, rfl⟩ : ∃ lp ∈ w.watch, lp.value = client := by
        simpa using hany
      exact .inl ⟨rfl, f, p, w, hw, hkey, hmem⟩
    case isFalse hany =>
      refine .inr ⟨p, w.nick, hkey, hinv.owns hw, fun f hmem => hany ?_,
        makeLinks_sets hinv hw client flags⟩
      rw [watchersAt_of_heap hw] at hmem
      exact any_eq_true.mpr ⟨_, hmem, by simp⟩
  | none =>
    have hfree := hinv.heap_safeAlloc addr
    refine .inr ⟨_, nick, rfl, fun q w hw => iff_of_false ?_ ?_, fun f => ?_,
      makeHeader_sets hinv hfree nick client flags⟩
    · rintro rfl
      rw [hfree] at hw
      cases hw
    · exact hinv.watchGet_eq_none hget hw
    · simp [State.watchersAt, hfree]

theorem Inv.watchAdd : Inv C (watchAdd C S addr nick client flags) := by
  obtain ⟨heq, -⟩ | ⟨p, nick', -, howns, hnew, hsets⟩ :=
    watchAdd_cases hinv addr nick client flags
  · rw [heq]
    exact hinv
  · have hlist : ∀ f, ⟨p, f⟩ ∉ S.watchList client := by
      intro f
      rw [hinv.mirror]
      exact hnew f
    refine hsets.inv hinv howns (nodup_cons.mpr ⟨?_, hinv.watchers_nodup p⟩)
      (nodup_cons.mpr ⟨?_, hinv.list_nodup client⟩) ?_ ?_ ?_
    · rintro hmem
      obtain ⟨⟨c, f⟩, hlink, rfl⟩ := mem_map.mp hmem
      exact hnew f hlink
    · rintro hmem
      obtain ⟨⟨q, f⟩, hlink, rfl⟩ := mem_map.mp hmem
      exact hlist f hlink
    · simp [hinv.mirror]
    · simp +contextual
    · simp +contextual

theorem links_watchAdd (key : List Char) (c : ClientId) (f : Flags) :
    (watchAdd C S addr nick client flags).Links C key c f ↔
      S.Links C key c f ∨ (key = C.key nick ∧ c = client ∧ f = flags ∧
        ∀ f', ¬ S.Links C key c f') := by
  obtain ⟨heq, f', hhas⟩ | ⟨p, nick', hkey, howns, hnew, hsets⟩ :=
    watchAdd_cases hinv addr nick client flags
  · rw [heq]
    refine (or_iff_left ?_).symm
    rintro ⟨rfl, rfl, -, hno⟩
    exact hno f' hhas
  · rw [hsets.links howns, hkey]
    split
    case isTrue hk =>
      simp only [hk, ← hkey, howns.links_iff, mem_cons, Link.mk.injEq]
      rw [or_comm]
      refine or_congr_right ?_
      constructor
      · rintro ⟨rfl, rfl⟩
        exact ⟨trivial, rfl, rfl, hnew⟩
      · rintro ⟨-, hc, hf, -⟩
        exact ⟨hc, hf⟩
    case isFalse hk => simp [hk]

end

/-! ## Removing a pair of links -/

/-- The links between a header and a client are taken out on both sides. -/
def unlink (C : Casing) (S : State) (p : WatchPtr) (w : Watch)
    (client : ClientId) : State :=
  { storeWatchers C S p w (eraseKey Link.value client w.watch) with
    watchList := Function.update S.watchList client
      (eraseKey Link.value p (S.watchList client))
    watches := Function.update S.watches client (S.watches client - 1) }

section

variable (hinv : Inv C S) (hw : S.heap p = some w)
  (hmem : (⟨client, f⟩ : Link) ∈ w.watch)

include hinv hw hmem

theorem unlink_sets :
    Sets C S (unlink C S p w client) p w.nick client
      (eraseKey value client w.watch)
      (eraseKey value p (S.watchList client)) := by
  have hchain : ∀ i, p ∈ S.watchTable i ↔ hashWatchNickName C w.nick = i := by
    intro i
    rw [hinv.mem_chain]
    simp [hw]
  have hlen := @length_eraseKey _ _ _ value _ p _
    ((hinv.mem_list_iff hw).mpr hmem) rfl
  constructor
  case heap =>
    intro q
    simp only [unlink, storeWatchers, List.isEmpty_iff]
    split <;> by_cases hq : q = p <;> simp [hq]
  case chain_nodup =>
    intro i
    simp only [unlink, storeWatchers]
    split
    case isTrue =>
      simp only [update_apply]
      split
      · exact (hinv.chain_nodup _).erase p
      · exact hinv.chain_nodup i
    case isFalse => exact hinv.chain_nodup i
  case mem_chain =>
    intro i q
    simp only [unlink, storeWatchers, List.isEmpty_iff]
    split
    case isTrue hleft =>
      simp only [update_apply]
      by_cases hi : i = hashWatchNickName C w.nick
      · rw [if_pos hi, (hinv.chain_nodup _).mem_erase_iff]
        by_cases hq : q = p <;> simp [hq, hleft, hi]
      · by_cases hq : q = p
        · simp [hq, hleft, hi, hchain, Ne.symm hi]
        · simp [hq, hi]
    case isFalse hleft =>
      by_cases hq : q = p
      · simp [hq, hleft, hchain]
      · simp [hq]
  case brk_le | lt_brk =>
    have hlt := hinv.heap_lt p w hw
    simp only [unlink, storeWatchers]
    split
    · simp [hlt]
    · simp [hlt]
  case watchList => rfl
  case watches =>
    simp only [unlink]
    rw [hinv.counter, ← hlen]
    simp

theorem Inv.unlink : Inv C (unlink C S p w client) := by
  have hnodup := hinv.nodup_of_heap hw
  refine (unlink_sets hinv hw hmem).inv hinv (hinv.owns hw)
    (nodup_eraseKey hnodup) (nodup_eraseKey (hinv.list_nodup client)) ?_ ?_ ?_
  · simp [mem_eraseKey hnodup, mem_eraseKey (hinv.list_nodup client)]
  · intro q f hq
    simp [mem_eraseKey (hinv.list_nodup client), hq]
  · intro c f hc
    simp [mem_eraseKey hnodup, hc, watchersAt_of_heap hw]

theorem links_unlink {f' : Flags} :
    (unlink C S p w client).Links C key c f' ↔
      S.Links C key c f' ∧ ¬ (key = C.key w.nick ∧ c = client) := by
  rw [(unlink_sets hinv hw hmem).links (hinv.owns hw)]
  split
  case isTrue hkey =>
    rw [hkey, (hinv.owns hw).links_iff, watchersAt_of_heap hw,
      mem_eraseKey (hinv.nodup_of_heap hw)]
    simp
  case isFalse hkey => simp [hkey]

end

/-! ## The removals -/

section

variable (hinv : Inv C S) (nick : Nick) (client : ClientId) (flags : Flags)

include hinv

/-- `watch_del` changes nothing, or removes the pair of links of the client and
the nick. -/
theorem watchDel_cases :
    (watchDel C S nick client flags = S ∧
      ∀ p w f, S.heap p = some w → C.key w.nick = C.key nick →
        ⟨client, f⟩ ∈ w.watch → f &&& flags ≠ flags) ∨
    ∃ p w f, S.heap p = some w ∧ C.key w.nick = C.key nick ∧
      ⟨client, f⟩ ∈ w.watch ∧ f &&& flags = flags ∧
      watchDel C S nick client flags = unlink C S p w client := by
  unfold watchDel
  cases hget : watchGet C S nick with
  | none =>
    refine .inl ⟨rfl, fun p w f hw hkey => ?_⟩
    exact absurd hkey (hinv.watchGet_eq_none hget hw)
  | some p =>
    obtain ⟨w, hw, hkey⟩ := (hinv.watchGet_eq_some).mp hget
    simp only [hw]
    split
    case isFalse hnone =>
      refine .inl ⟨rfl, fun q v f hv hvkey hmem hfits => hnone ?_⟩
      obtain rfl := (hinv.owns hw q v hv).mpr (hvkey.trans hkey.symm)
      rw [hw] at hv
      cases hv
      rw [any_eq_true]
      exact ⟨⟨client, f⟩, hmem, by simp [fits, hfits]⟩
    case isTrue hany =>
      obtain ⟨⟨c, f⟩, hmem, htest⟩ := any_eq_true.mp hany
      simp only [Bool.and_eq_true, decide_eq_true_eq] at htest
      obtain ⟨rfl, hfits⟩ := htest
      refine .inr ⟨p, w, f, hw, hkey, hmem, by simpa [fits] using hfits,
        ?_⟩
      rw [eraseP_eq_eraseKey (hinv.nodup_of_heap hw) hmem
        (by simp [hfits]) (by simp +contextual)]
      rfl

theorem links_watchDel (key : List Char) (c : ClientId) (f : Flags) :
    (watchDel C S nick client flags).Links C key c f ↔ S.Links C key c f ∧
      ¬ (key = C.key nick ∧ c = client ∧ f &&& flags = flags) := by
  obtain ⟨heq, hno⟩ | ⟨p, w, f', hw, hkey, hmem, hfits, heq⟩ :=
    watchDel_cases hinv nick client flags
  · rw [heq]
    refine (and_iff_left_of_imp ?_).symm
    rintro ⟨p, w, hw, hkey, hmem⟩ ⟨rfl, rfl, hfits⟩
    exact hno p w f hw hkey hmem hfits
  · rw [heq, links_unlink hinv hw hmem, hkey]
    refine and_congr_right fun h => not_congr (and_congr_right ?_)
    rintro rfl
    refine (and_iff_left_of_imp ?_).symm
    rintro rfl
    rw [hinv.links_unique h ⟨p, w, hw, hkey, hmem⟩]
    exact hfits

theorem Inv.watchDel : Inv C (watchDel C S nick client flags) := by
  obtain ⟨heq, -⟩ | ⟨p, w, f, hw, -, hmem, -, heq⟩ :=
    watchDel_cases hinv nick client flags
  · rw [heq]
    exact hinv
  · rw [heq]
    exact hinv.unlink hw hmem

end

section

variable (hinv : Inv C S) {link : Link} {kept rest : List Link}

include hinv

theorem dropLink_eq (hlist : S.watchList client = kept ++ link :: rest) :
    ∃ w, S.heap link.value = some w ∧ ⟨client, link.flags⟩ ∈ w.watch ∧
      dropLink C S client link (kept ++ rest) =
        some (unlink C S link.value w client) := by
  have hmem : link ∈ S.watchList client := by
    rw [hlist]
    exact mem_append_right _ mem_cons_self
  obtain ⟨w, hw, hback⟩ := hinv.header_of_mem hmem
  refine ⟨w, hw, hback, ?_⟩
  have hany : w.watch.any (fun lp => lp.value = client) = true :=
    any_eq_true.mpr ⟨_, hback, by simp⟩
  have hnodup := hinv.list_nodup client
  rw [hlist] at hnodup
  have hleft := eraseKey_append_cons hnodup
  rw [← hlist] at hleft
  unfold dropLink unlink
  simp only [hw, hany, if_true, hleft]

/-- The loop ends, keeps the invariant and removes what fits the flags.  The
induction is on the links ahead; the links passed over do not fit. -/
theorem delListLoop_spec (hlist : S.watchList client = kept ++ rest)
    (hkept : ∀ link ∈ kept, ¬ link.flags &&& flags = flags) :
    ∃ S', delListLoop C client flags kept rest S = some S' ∧ Inv C S' ∧
      ∀ key c f, S'.Links C key c f ↔
        S.Links C key c f ∧ ¬ (c = client ∧ f &&& flags = flags) := by
  induction rest generalizing kept S with
  | nil =>
    refine ⟨S, rfl, hinv, fun key c f => ?_⟩
    refine (and_iff_left_of_imp ?_).symm
    rintro ⟨p, w, hw, -, hmem⟩ ⟨rfl, hfits⟩
    have hback := (hinv.mem_list_iff hw).mpr hmem
    rw [hlist, append_nil] at hback
    exact hkept _ hback hfits
  | cons link rest ih =>
    unfold delListLoop
    by_cases hfits : link.flags &&& flags = flags
    · obtain ⟨w, hw, hmem, hdrop⟩ := dropLink_eq hinv hlist
      have hleft : (unlink C S link.value w client).watchList client =
          kept ++ rest := by
        have hnodup := hinv.list_nodup client
        rw [hlist] at hnodup
        rw [(unlink_sets hinv hw hmem).watchList, update_self, hlist,
          eraseKey_append_cons hnodup]
      obtain ⟨S', hloop, hinv', hlinks⟩ := ih (hinv.unlink hw hmem) hleft hkept
      refine ⟨S', ?_, hinv', fun key c f => ?_⟩
      · rw [if_pos (by simpa [fits] using hfits), hdrop]
        exact hloop
      · rw [hlinks, links_unlink hinv hw hmem, and_assoc]
        -- The removed link was the only one of the client for this nick.
        refine and_congr_right fun h => and_iff_right_of_imp ?_
        rintro hnot ⟨rfl, rfl⟩
        have hf := hinv.links_unique h ⟨_, w, hw, rfl, hmem⟩
        exact hnot ⟨rfl, hf ▸ hfits⟩
    · have hlist' : S.watchList client = (kept ++ [link]) ++ rest := by
        rw [hlist, append_assoc]
        rfl
      have hkept' : ∀ l ∈ kept ++ [link], ¬ l.flags &&& flags = flags :=
        forall_mem_append.mpr ⟨hkept, forall_mem_singleton.mpr hfits⟩
      rw [if_neg (by simpa [fits] using hfits)]
      exact ih hinv hlist' hkept'

theorem watchDelList_spec (client : ClientId) (flags : Flags) :
    ∃ S', watchDelList C S client flags = some S' ∧ Inv C S' ∧
      ∀ key c f, S'.Links C key c f ↔
        S.Links C key c f ∧ ¬ (c = client ∧ f &&& flags = flags) := by
  obtain ⟨S', hloop, hinv', hlinks⟩ :=
    @delListLoop_spec C S client flags hinv [] (S.watchList client)
      (nil_append _).symm (fun _ h => absurd h not_mem_nil)
  unfold watchDelList
  rw [hloop, Option.map_some]
  by_cases hflags : flags = 0
  · rw [if_pos hflags]
    -- Every link fits no flags at all, so that the list is empty by now.
    have hempty : S'.watchList client = [] := by
      rw [eq_nil_iff_forall_not_mem]
      intro link hlink
      obtain ⟨w, hw, hmem⟩ := hinv'.header_of_mem hlink
      exact ((hlinks (C.key w.nick) client link.flags).mp
        ⟨link.value, w, hw, rfl, hmem⟩).2 ⟨rfl, by simp [hflags]⟩
    have hsame : { S' with watches := update S'.watches client 0 } = S' := by
      have hzero : S'.watches client = 0 := by
        rw [hinv'.counter, hempty]
        rfl
      rw [← hzero, update_eq_self]
    exact ⟨S', by rw [hsame], hinv', hlinks⟩
  · rw [if_neg hflags]
    exact ⟨S', rfl, hinv', hlinks⟩

/-! ## Runs -/

/-- No call reads through a stale pointer, and each keeps the invariant. -/
theorem step_inv (call : Call) : ∃ S', step C S call = some S' ∧ Inv C S' := by
  cases call with
  | add addr nick client flags =>
    exact ⟨_, rfl, hinv.watchAdd addr nick client flags⟩
  | del nick client flags => exact ⟨_, rfl, hinv.watchDel nick client flags⟩
  | delList client flags =>
    obtain ⟨S', hS', hinv', -⟩ := watchDelList_spec hinv client flags
    exact ⟨S', hS', hinv'⟩
  | quit client =>
    obtain ⟨S', hS', hinv', -⟩ := watchDelList_spec hinv client 0
    exact ⟨S', hS', hinv'⟩

theorem run_inv (calls : List Call) :
    ∃ S', run C S calls = some S' ∧ Inv C S' := by
  induction calls generalizing S with
  | nil => exact ⟨S, rfl, hinv⟩
  | cons call calls ih =>
    obtain ⟨S', hstep, hinv'⟩ := step_inv hinv call
    obtain ⟨S'', hrun, hinv''⟩ := ih hinv'
    refine ⟨S'', ?_, hinv''⟩
    unfold run
    rw [hstep]
    exact hrun

end

def watchersOf (C : Casing) (S : State) (nick : Nick) : List Link :=
  match (watchGet C S nick).bind S.heap with
  | some w => w.watch
  | none => []

def pointsTo (C : Casing) (S : State) (nick : Nick) (link : Link) : Bool :=
  (S.heap link.value).any (fun w => C.same w.nick nick)

/-- What the tables promise to their users. -/
structure Consistent (C : Casing) (S : State) : Prop where
  /-- One link for a client and a nick, in either list. -/
  one_watcher : ∀ client nick,
    (watchersOf C S nick).countP (fun lp => lp.value = client) ≤ 1
  one_watched : ∀ client nick,
    (S.watchList client).countP (pointsTo C S nick) ≤ 1
  /-- The two lists agree, also in the flags. -/
  same_links : ∀ client nick flags,
    (⟨client, flags⟩ : Link) ∈ watchersOf C S nick ↔
      ∃ link ∈ S.watchList client,
        pointsTo C S nick link = true ∧ link.flags = flags
  /-- The counter is the length of the client's list, and every link of the list
  points to a header. -/
  counter : ∀ client, S.watches client = (S.watchList client).length
  live : ∀ client, ∀ link ∈ S.watchList client, (S.heap link.value).isSome
  /-- A header is there exactly while its nick has a watcher, and every header
  in memory is the one that a search for its nick finds. -/
  header_iff : ∀ nick, (watchGet C S nick).isSome ↔
    ∃ client, ∃ link ∈ S.watchList client, pointsTo C S nick link = true
  found : ∀ p w, S.heap p = some w → w.watch ≠ [] ∧ watchGet C S w.nick = some p

theorem mem_watchersOf (hinv : Inv C S) :
    ⟨client, flags⟩ ∈ watchersOf C S nick ↔
      S.Links C (C.key nick) client flags := by
  unfold watchersOf
  cases hget : watchGet C S nick with
  | none =>
    simp only [Option.bind_none, not_mem_nil, false_iff]
    rintro ⟨p, w, hw, hkey, -⟩
    exact hinv.watchGet_eq_none hget hw hkey
  | some p =>
    obtain ⟨w, hw, hkey⟩ := (hinv.watchGet_eq_some).mp hget
    simp only [Option.bind_some, hw]
    rw [← hkey, (hinv.owns hw).links_iff, watchersAt_of_heap hw]

theorem pointsTo_iff (hinv : Inv C S) {link : Link} :
    pointsTo C S nick link = true ↔ watchGet C S nick = some link.value := by
  rw [hinv.watchGet_eq_some, pointsTo, Option.any_eq_true]
  refine exists_congr fun w => and_congr_right fun _ => ?_
  exact Casing.same_iff

theorem Inv.watchersOf_nodup (hinv : Inv C S) (nick : Nick) :
    ((watchersOf C S nick).map value).Nodup := by
  unfold watchersOf
  split
  case h_1 w hw =>
    obtain ⟨p, -, hp⟩ := Option.bind_eq_some_iff.mp hw
    exact hinv.nodup_of_heap hp
  case h_2 => exact nodup_nil

theorem countP_value_le_one {l : List Link} (h : (l.map value).Nodup)
    (n : ℕ) : l.countP (fun lp => lp.value = n) ≤ 1 := by
  have hcount := nodup_iff_count_le_one.mp h n
  rw [List.count, countP_map] at hcount
  refine le_trans (le_of_eq (countP_congr fun lp _ => ?_)) hcount
  simp [comp_apply]

theorem Inv.consistent (hinv : Inv C S) : Consistent C S where
  one_watcher client nick :=
    countP_value_le_one (hinv.watchersOf_nodup nick) client
  one_watched client nick := by
    cases hget : watchGet C S nick with
    | none =>
      refine le_trans (le_of_eq (countP_eq_zero.mpr ?_)) zero_le_one
      intro link _ hpoints
      rw [(pointsTo_iff hinv).mp hpoints] at hget
      cases hget
    | some p =>
      refine le_trans (le_of_eq (countP_congr fun link _ => ?_))
        (countP_value_le_one (hinv.list_nodup client) p)
      rw [pointsTo_iff hinv, hget, Option.some.injEq, decide_eq_true_eq]
      exact eq_comm
  same_links client nick flags := by
    rw [mem_watchersOf hinv]
    constructor
    · rintro ⟨p, w, hw, hkey, hmem⟩
      refine ⟨⟨p, flags⟩, (hinv.mem_list_iff hw).mpr hmem, ?_, rfl⟩
      rw [pointsTo_iff hinv, hinv.watchGet_eq_some]
      exact ⟨w, hw, hkey⟩
    · rintro ⟨link, hlink, hpoints, rfl⟩
      rw [pointsTo_iff hinv, hinv.watchGet_eq_some] at hpoints
      obtain ⟨w, hw, hkey⟩ := hpoints
      rw [← hkey, (hinv.owns hw).links_iff, ← hinv.mirror]
      exact hlink
  counter := hinv.counter
  live client link hlink := by
    obtain ⟨w, hw, -⟩ := hinv.header_of_mem hlink
    rw [hw]
    rfl
  header_iff nick := by
    rw [Option.isSome_iff_exists]
    constructor
    · rintro ⟨p, hget⟩
      obtain ⟨w, hw, hkey⟩ := (hinv.watchGet_eq_some).mp hget
      obtain ⟨⟨client, flags⟩, hmem⟩ :=
        exists_mem_of_ne_nil _ (hinv.nonempty p w hw)
      refine ⟨client, ⟨p, flags⟩, (hinv.mem_list_iff hw).mpr hmem, ?_⟩
      exact (pointsTo_iff hinv).mpr hget
    · rintro ⟨client, link, -, hpoints⟩
      exact ⟨link.value, (pointsTo_iff hinv).mp hpoints⟩
  found p w hw :=
    ⟨hinv.nonempty p w hw, (hinv.watchGet_eq_some).mpr ⟨w, hw, rfl⟩⟩

/-- Over every sequence of calls and quits the tables are consistent, and no
call reads through a pointer to a header that is gone. -/
theorem run_consistent (C : Casing) (calls : List Call) :
    ∃ S, run C State.init calls = some S ∧ Consistent C S := by
  obtain ⟨S, hrun, hinv⟩ := run_inv inv_init calls
  exact ⟨S, hrun, hinv.consistent⟩

end UnrealIrcd.Watch
