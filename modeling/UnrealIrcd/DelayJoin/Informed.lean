import UnrealIrcd.DelayJoin.ModeView

/-!
# The list of members that a local user builds

At every point of a run the list of a local user should have exactly the members
that `user_can_see_member` lets it see.  Joins, parts, kicks and messages keep
it so, as long as no member is invisible and has a status at the same time.  A
mode change does not always: a user that loses one of `hoaq` is sent PARTs
whatever status it keeps, and a user that gains one is not told about a member
that became visible earlier in the same change.
-/

namespace UnrealIrcd.DelayJoin

open Support Visibility List

variable {myConnect : ClientId → Bool} {ch : Channel} {c : ClientId}

/-! ## What a mode change leaves alone -/

/-- Membership and invisibility are the same in both channels. -/
structure SameMembers (ch ch' : Channel) : Prop where
  isMember : ∀ m, ch'.isMember m = ch.isMember m
  invisibleUser : ∀ m, ch'.invisibleUser m = ch.invisibleUser m
  distinct : ch.Distinct → ch'.Distinct

theorem sameMembers_refl (ch : Channel) : SameMembers ch ch :=
  ⟨fun _ => rfl, fun _ => rfl, id⟩

theorem SameMembers.trans {ch₁ ch₂ ch₃ : Channel} (h : SameMembers ch₁ ch₂)
    (h' : SameMembers ch₂ ch₃) : SameMembers ch₁ ch₃ where
  isMember m := (h'.isMember m).trans (h.isMember m)
  invisibleUser m := (h'.invisibleUser m).trans (h.invisibleUser m)
  distinct hd := h'.distinct (h.distinct hd)

theorem sameMembers_applyChange {ch ch' : Channel} {change : Change}
    (h : applyChange ch change = some ch') : SameMembers ch ch' := by
  obtain ⟨add, letter, client, f, -, rfl, hf⟩ | ⟨add, -, rfl⟩ | ⟨add, -, rfl⟩ :=
    applyChange_cases h
  · refine ⟨fun m => ?_, fun m => ?_, fun hd => distinct_modify hd client _⟩
    · unfold Channel.isMember
      rw [find_modify]
      split
      · exact Option.isSome_map
      · rfl
    · unfold Channel.invisibleUser
      rw [find_modify]
      split
      · cases ch.find m with
        | none => rfl
        | some mb => exact hf mb
      · rfl
  · exact ⟨fun _ => rfl, fun _ => rfl, id⟩
  · exact ⟨fun _ => rfl, fun _ => rfl, id⟩

theorem sameMembers_setMode (lines : List (List Change)) :
    SameMembers ch (setMode ch lines).1 :=
  setMode_induction sameMembers_refl SameMembers.trans sameMembers_applyChange ch
    lines

/-! ## A mode change -/

/-- What the letters of a change must be like for a member that is invisible.  If
one is about the member, then the client has none of `hoaq` after the change, or
knows the member already.  If not, then the client knows it in the end exactly if
it is to see it. -/
def LettersInform (ch after : Channel) (c : ClientId) (letters : List Change)
    (m : ClientId) : Prop :=
  if letters.any (about m) = true then
    Knows c m letters (ch.access m vhoaq = true ∨ ch.access c hoaq = true) ∨
      after.access c hoaq = false
  else
    (Knows c m letters (ch.access m vhoaq = true ∨ ch.access c hoaq = true) ↔
      after.access m vhoaq = true ∨ after.access c hoaq = true)

/-- The letters of the change inform the client about every other member that is
invisible. -/
def ModeInforms (ch : Channel) (c : ClientId) (lines : List (List Change)) :
    Prop :=
  let after := (setMode ch lines).1
  let letters := hookedLetters after
    ((setMode ch lines).2.filter fun line => !line.isEmpty)
  ∀ m, m ≠ c → ch.invisibleUser m = true → LettersInform ch after c letters m

theorem isMember_of_invisibleUser {m : ClientId}
    (h : ch.invisibleUser m = true) : ch.isMember m = true := by
  obtain ⟨mb, hmb, -⟩ := (Option.any_eq_true _ _).mp h
  unfold Channel.isMember
  rw [hmb]
  rfl

variable (hd : ch.Distinct) (hlocal : myConnect c = true)
  (hmember : ch.isMember c = true) {view : Set ClientId}
  (h : Informed ch c view)

include hd hlocal hmember h in
/-- The letters after the change of the statuses, against what the client is to
see. -/
theorem informed_modedLoop_iff {after : Channel} (hsame : SameMembers ch after)
    (letters : List Change) :
    Informed (modedLoop myConnect letters after).1 c
        (heard c view (modedLoop myConnect letters after).2) ↔
      ∀ m, m ≠ c → ch.invisibleUser m = true →
        LettersInform ch after c letters m := by
  have hmember' : after.isMember c = true := (hsame.isMember c).trans hmember
  have hd' := hsame.distinct hd
  have hshown := @shown_modedLoop myConnect after letters
  have hisMember := fun m => (hshown.isMember m).trans (hsame.isMember m)
  have hinvisible := hshown.invisibleUser
  simp only [hsame.invisibleUser] at hinvisible
  have hbefore : ∀ m, m ≠ c → ch.invisibleUser m = true →
      (m ∈ view ↔ ch.access m vhoaq = true ∨ ch.access c hoaq = true) := by
    intro m hm hinv
    rw [h m, canSee_iff (isMember_of_invisibleUser hinv)]
    simp [isMember_of_invisibleUser hinv, hinv, Ne.symm hm]
  -- a member that was visible stays so, and so does what the client sees of it
  have hone : ∀ m, m ≠ c → ((m ∈ heard c view
      (modedLoop myConnect letters after).2 ↔
        ((modedLoop myConnect letters after).1.isMember m = true ∧
          (modedLoop myConnect letters after).1.canSee c m = true)) ↔
      (ch.invisibleUser m = true → LettersInform ch after c letters m)) := by
    intro m hm
    rw [heard_modedLoop_iff hd' hlocal hmember' view letters, if_pos hm,
      KnowsAfter, hsame.invisibleUser]
    by_cases hinv : ch.invisibleUser m = true
    · have hmem := isMember_of_invisibleUser hinv
      rw [canSee_iff ((hisMember m).trans hmem), hinvisible, hshown.access,
        hshown.access, hisMember]
      simp only [hinv, hmem, Bool.true_and, if_true, true_and, Ne.symm hm, false_or,
        forall_const, hbefore m hm hinv, LettersInform]
      by_cases hany : letters.any (about m) = true <;> simp [hany]
    · simp only [hinv, Bool.false_eq_true, if_false, false_implies, iff_true]
      rw [h m, hisMember]
      refine and_congr_right fun hmem => ?_
      rw [canSee_iff hmem, canSee_iff ((hisMember m).trans hmem), hinvisible]
      simp [hinv]
  constructor
  · intro hinformed m hm
    exact (hone m hm).mp (hinformed m)
  · intro hcond m
    by_cases hm : m = c
    · subst hm
      rw [heard_modedLoop_iff hd' hlocal hmember', if_neg (by simp), h m,
        hisMember]
      refine and_congr_right fun hmem => ?_
      rw [canSee_iff hmem, canSee_iff ((hisMember m).trans hmem)]
      simp
    · exact (hone m hm).mpr (hcond m hm)

theorem informed_congr (h : ch.members = ch'.members) (view : Set ClientId) :
    Informed ch c view ↔ Informed ch' c view := by
  have hfind : ∀ m, ch.find m = ch'.find m := by
    intro m
    unfold Channel.find
    rw [h]
  unfold Informed
  simp only [isMember_congr (hfind _), canSee_congr (hfind c) (hfind _)]

include hd hlocal hmember h in
/-- A mode change keeps the list right exactly under its condition. -/
theorem informed_mode_iff (lines : List (List Change)) :
    let r := hookLines myConnect
      ((setMode ch lines).2.filter fun line => !line.isEmpty) (setMode ch lines).1
    Informed r.1 c (heard c view r.2) ↔ ModeInforms ch c lines := by
  obtain ⟨hmembers, hout⟩ := @hookLines_effect myConnect (setMode ch lines).1
    ((setMode ch lines).2.filter fun line => !line.isEmpty)
  simp only
  rw [hout, informed_congr hmembers]
  exact informed_modedLoop_iff hd hlocal hmember h (sameMembers_setMode lines) _

/-! ## A message -/

/-- A member that speaks becomes visible like one that is given `v`. -/
theorem modedPrechanmsg_effect (client : ClientId) :
    modedPrechanmsg myConnect ch client = (ch, []) ∨
      modedPrechanmsg myConnect ch client =
        modedLoop myConnect [.status true 'v' client] ch := by
  unfold modedPrechanmsg
  split
  case isTrue hboth =>
    rw [Bool.and_eq_true] at hboth
    refine .inr ?_
    simp [modedLoop, modedStatus, isStatusLetter, hboth.2]
  case isFalse => exact .inl rfl

include hd hlocal hmember h in
theorem informed_message (client : ClientId) :
    let r := modedPrechanmsg myConnect ch client
    Informed r.1 c (heard c view r.2) := by
  intro r
  rcases @modedPrechanmsg_effect myConnect ch client with heq | heq
  · rw [show r = _ from heq]
    exact h
  · rw [show r = _ from heq, informed_modedLoop_iff hd hlocal hmember h (sameMembers_refl ch)]
    intro m hm _
    have hown : own c (.status true 'v' client) = none := by simp [own]
    unfold LettersInform
    by_cases habout : about m (.status true 'v' client) = true
    · rw [if_pos (by simpa using habout), knows_cons_of_about habout]
      cases ch.access c hoaq <;> simp
    · rw [if_neg (by simpa using habout), knows_cons_of_other habout hown, knows_nil]

/-! ## Joining -/

theorem find_modedJoin (j m : ClientId) (modes : List Char) :
    (joinChannel myConnect ch j modes).1.find m =
      if m = j then some ⟨modes, ch.delayed⟩ else ch.find m := by
  simp only [joinChannel, modedJoin]
  split
  case isTrue hdelayed =>
    rw [Channel.setUserInvisible, find_modify, find_cons, hdelayed]
    split <;> simp_all
  case isFalse hdelayed =>
    rw [find_cons]
    simp [hdelayed]

theorem isMember_modedJoin {j m : ClientId} (h : m ≠ j) (modes : List Char) :
    (joinChannel myConnect ch j modes).1.isMember m = ch.isMember m :=
  isMember_congr (by rw [find_modedJoin, if_neg h])

theorem distinct_joinChannel (hd : ch.Distinct) {j : ClientId}
    (hj : ch.isMember j = false) (modes : List Char) :
    (joinChannel myConnect ch j modes).1.Distinct := by
  have hcons : ({ ch with members := ⟨j, ⟨modes, false⟩⟩ :: ch.members } :
      Channel).Distinct := by
    refine nodup_cons.mpr ⟨fun hmem => ?_, hd⟩
    obtain ⟨m, hm, hclient⟩ := mem_map.mp hmem
    rw [isMember_iff.mpr ⟨m, hm, hclient⟩] at hj
    cases hj
  simp only [joinChannel, modedJoin]
  split
  · exact distinct_modify hcons j _
  · exact hcons

/-- The new member is told by NAMES. -/
theorem informed_own_join (hlocal : myConnect c = true) (modes : List Char)
    (view : Set ClientId) :
    let r := joinChannel myConnect ch c modes
    Informed r.1 c (heard c view r.2) := by
  intro r m
  have hlast : heard c view r.2 =
      {x | x ∈ (r.1.members.map Member.client).filter (r.1.canSee c)} := by
    simp only [r, joinChannel, hlocal, if_true]
    rw [heard_append]
    simp [heard, received, hear]
  rw [hlast, Set.mem_ofPred_eq, mem_filter, mem_map, isMember_iff]

include hd hlocal hmember h in
/-- The join of somebody else is announced unless the new member is
invisible. -/
theorem informed_join_iff {j : ClientId} (hj : ch.isMember j = false)
    (modes : List Char) :
    Informed (joinChannel myConnect ch j modes).1 c
        (heard c view (joinChannel myConnect ch j modes).2) ↔
      ¬ (ch.delayed = true ∧ checkChannelAccessString modes vhoaq = true ∧
        ch.access c hoaq = false) := by
  have hjc : c ≠ j := by
    rintro rfl
    rw [hmember] at hj
    cases hj
  have hfind := fun m => @find_modedJoin myConnect ch j m modes
  have hd' := @distinct_joinChannel myConnect ch hd j hj modes
  have hlines : heard c view (joinChannel myConnect ch j modes).2 =
      heard c view (leaveLines myConnect (joinChannel myConnect ch j modes).1 j
        (.join j)) := by
    -- NAMES goes to the new member only
    have hnames : ∀ view' names, heard c view'
        (if myConnect j then [(j, Line.names names)] else []) = view' := by
      intro view' names
      split <;> simp [heard, received, Ne.symm hjc]
    exact (heard_append _ _ _).trans (hnames _ _)
  rw [hlines]
  generalize (joinChannel myConnect ch j modes).1 = ch' at hfind hd' ⊢
  have hothers : ∀ m, m ≠ j → ch'.find m = ch.find m := by
    intro m hm
    rw [hfind, if_neg hm]
  have hnew : ch'.find j = some ⟨modes, ch.delayed⟩ := by rw [hfind, if_pos rfl]
  have hjmember : ch'.isMember j = true := by
    rw [Channel.isMember, hnew]
    rfl
  have hinvisible : ch'.invisibleUser j = ch.delayed := by
    rw [Channel.invisibleUser, hnew]
    rfl
  have haccess : ch'.access j vhoaq = checkChannelAccessString modes vhoaq := by
    rw [Channel.access, hnew]
    rfl
  have hops : ch'.access c hoaq = ch.access c hoaq := by
    unfold Channel.access
    rw [hothers c hjc]
  have hview : heard c view (leaveLines myConnect ch' j (.join j)) =
      if ch.delayed = false ∨ ch.access c hoaq = true then insert j view
      else view := by
    have hmember' := (isMember_congr (hothers c hjc)).trans hmember
    rw [heard_leaveLines hd' hlocal hmember' view hjc.symm, hinvisible, hops]
    rfl
  have hnotin : j ∉ view := by
    rw [h j, hj]
    simp
  rw [informed_iff_of_one h (hothers c hjc) hothers, hjmember, canSee_iff hjmember,
    hinvisible, haccess, hops, hview]
  · cases ch.delayed <;> cases ch.access c hoaq <;> simp [hnotin, hjc]
  · intro m hm
    rw [hview]
    split <;> simp [hm]

/-! ## Leaving -/

variable {x : ClientId}

theorem exists_remove (hmember : ch.isMember c = true) (hx : x ≠ c) :
    ∃ ch', ch.remove x = some ch' := by
  obtain ⟨m, hm, rfl⟩ := isMember_iff.mp hmember
  have hne : (ch.members.filter fun m => m.client ≠ x).isEmpty = false := by
    rw [isEmpty_eq_false_iff_exists_mem]
    exact ⟨m, mem_filter.mpr ⟨hm, by simpa using hx.symm⟩⟩
  refine ⟨{ ch with members := ch.members.filter fun m => m.client ≠ x }, ?_⟩
  unfold Channel.remove
  simp only
  rw [hne]
  rfl

theorem isMember_remove_self (h : ch.remove x = some ch') :
    ch'.isMember x = false := by
  rw [Channel.isMember, find_remove h, if_pos rfl]
  rfl

theorem distinct_remove (hd : ch.Distinct) (h : ch.remove x = some ch') :
    ch'.Distinct := by
  rw [members_of_remove h]
  exact (filter_sublist.map _).nodup hd

theorem distinct_partHook (hd : ch.Distinct) (x : ClientId) (join0 : Bool) :
    (partHook myConnect ch x join0).Distinct := by
  unfold partHook modedPart
  split
  · exact hd
  · split
    · have hmodify : (ch.setUserInvisible x false).Distinct :=
        distinct_modify hd x _
      unfold clearPostDelayedIfLast
      split <;> exact hmodify
    · exact hd

/-! ## Runs -/

/-- The list of the client is right while it is on the channel. -/
def InformedWhileOn (c : ClientId) (s : Option Channel × Set ClientId) : Prop :=
  ∀ ch, s.1 = some ch → ch.isMember c = true → Informed ch c s.2

/-- What an event must be like for the list of a client on the channel: nobody
who joins or leaves is invisible and has a status, unless the client has one of
`hoaq`, and a mode change meets its own condition. -/
def EventInforms (ch : Channel) (c : ClientId) : Event → Prop
  | .join j modes _ => ch.isMember j = true ∨
      ¬ (ch.delayed = true ∧ checkChannelAccessString modes vhoaq = true ∧
        ch.access c hoaq = false)
  | .part x join0 => x = c ∨ join0 = true ∨ ¬ SeenUnannounced ch c x
  | .kick x => x = c ∨ ¬ SeenUnannounced ch c x
  | .mode lines => ModeInforms ch c lines
  | _ => True

/-- The event informs the client if the client is on the channel. -/
def KeepsInformed (c : ClientId) (s : Option Channel) (e : Event) : Prop :=
  ∀ ch, s = some ch → ch.isMember c = true → EventInforms ch c e

/-- One event, with what the client hears of it. -/
def viewStep (myConnect : ClientId → Bool) (c : ClientId)
    (s : Option Channel × Set ClientId) (e : Event) :
    Option Channel × Set ClientId :=
  let r := step myConnect s.1 e
  (r.1, heard c s.2 r.2)

theorem not_seenUnannounced_of_not_member (h : ch.isMember x = false) :
    ¬ SeenUnannounced ch c x := by
  rintro ⟨hinv, -, -⟩
  rw [isMember_of_invisibleUser hinv] at h
  cases h

theorem hookLines_keeps (lines : List (List Change)) :
    (∀ m, (hookLines myConnect lines ch).1.isMember m = ch.isMember m) ∧
      (ch.Distinct → (hookLines myConnect lines ch).1.Distinct) := by
  obtain ⟨hmembers, -⟩ := @hookLines_effect myConnect ch lines
  have hshown := @shown_modedLoop myConnect ch (hookedLetters ch lines)
  unfold Channel.isMember Channel.find Channel.Distinct
  rw [hmembers]
  exact ⟨hshown.isMember, hshown.distinct⟩

theorem modedPrechanmsg_keeps (client : ClientId) :
    (∀ m, (modedPrechanmsg myConnect ch client).1.isMember m = ch.isMember m) ∧
      (ch.Distinct → (modedPrechanmsg myConnect ch client).1.Distinct) := by
  rcases @modedPrechanmsg_effect myConnect ch client with heq | heq
  · rw [heq]
    exact ⟨fun _ => rfl, id⟩
  · rw [heq]
    exact ⟨(shown_modedLoop _).isMember, (shown_modedLoop _).distinct⟩

theorem distinct_step {s : Option Channel}
    (hs : ∀ ch, s = some ch → ch.Distinct) (e : Event) :
    ∀ ch, (step myConnect s e).1 = some ch → ch.Distinct := by
  cases s with
  | none =>
    cases e with
    | join client modes modesOnJoin =>
      rintro _ ⟨rfl⟩
      simp [Channel.Distinct, joinChannel, modedJoin]
    | _ => rintro _ ⟨⟩
  | some ch =>
    have hd := hs ch rfl
    cases e with
    | join client modes modesOnJoin =>
      simp only [step]
      split
      case isTrue => exact hs
      case isFalse hj =>
        rintro _ ⟨rfl⟩
        exact distinct_joinChannel hd (by simpa using hj) modes
    | part client join0 | quit client =>
      simp only [step]
      split
      · intro ch' hch'
        exact distinct_remove (distinct_partHook hd client _) hch'
      · exact hs
    | kick victim =>
      simp only [step]
      split
      · intro ch' hch'
        exact distinct_remove hd hch'
      · exact hs
    | mode lines =>
      simp only [step]
      split
      · rintro _ ⟨⟩
      · rintro _ ⟨rfl⟩
        exact (hookLines_keeps _).2 ((sameMembers_setMode lines).distinct hd)
    | message client =>
      rintro _ ⟨rfl⟩
      exact (modedPrechanmsg_keeps client).2 hd

theorem isMember_of_isMember_step {e : Event}
    (hstep : (step myConnect (some ch) e).1 = some ch')
    (hmember : ch'.isMember c = true) :
    ch.isMember c = true ∨ ∃ modes modesOnJoin, e = .join c modes modesOnJoin := by
  have hremove : ∀ {ch₁ : Channel} {x : ClientId},
      (∀ m, m ≠ x → ch₁.isMember m = ch.isMember m) →
      ch₁.remove x = some ch' → ch.isMember c = true := by
    intro ch₁ x hothers hrem
    have hc : c ≠ x := by
      rintro rfl
      rw [isMember_remove_self hrem] at hmember
      cases hmember
    rw [← hothers c hc, ← hmember]
    exact (isMember_congr (by rw [find_remove hrem, if_neg hc])).symm
  cases e with
  | join client modes modesOnJoin =>
    simp only [step] at hstep
    split at hstep
    · cases hstep
      exact .inl hmember
    · cases hstep
      by_cases hc : c = client
      · subst hc
        exact .inr ⟨modes, modesOnJoin, rfl⟩
      · rw [isMember_modedJoin hc] at hmember
        exact .inl hmember
  | part client join0 | quit client =>
    simp only [step] at hstep
    split at hstep
    · refine .inl (hremove (fun m hm => ?_) hstep)
      exact isMember_congr (find_partHook hm _)
    · cases hstep
      exact .inl hmember
  | kick victim =>
    simp only [step] at hstep
    split at hstep
    · exact .inl (hremove (fun m _ => rfl) hstep)
    · cases hstep
      exact .inl hmember
  | mode lines =>
    simp only [step] at hstep
    split at hstep
    · cases hstep
    · cases hstep
      rw [(hookLines_keeps _).1, (sameMembers_setMode lines).isMember] at hmember
      exact .inl hmember
  | message client =>
    cases hstep
    rw [(modedPrechanmsg_keeps _).1] at hmember
    exact .inl hmember

variable {s : Option Channel × Set ClientId}

/-- A client that was not on the channel is told by NAMES if it joins. -/
theorem informedWhileOn_of_not_member (hlocal : myConnect c = true)
    (hnot : ∀ ch, s.1 = some ch → ch.isMember c = false) (e : Event) :
    InformedWhileOn c (viewStep myConnect c s e) := by
  obtain ⟨_ | ch, view⟩ := s
  · cases e with
    | join client modes modesOnJoin =>
      rintro _ ⟨rfl⟩ hmember
      have hc : c = client := by
        by_contra hc
        cases (@isMember_modedJoin myConnect ⟨[], false, false, false⟩ client c
          hc modes).symm.trans hmember
      subst hc
      exact informed_own_join hlocal modes view
    | _ => rintro _ ⟨⟩
  · intro ch' hstep hmember
    rcases isMember_of_isMember_step hstep hmember with hbefore | ⟨modes, on, rfl⟩
    · rw [hnot ch rfl] at hbefore
      cases hbefore
    · have hj := hnot ch rfl
      simp only [viewStep, step, hj, Bool.false_eq_true, if_false] at hstep ⊢
      cases hstep
      exact informed_own_join hlocal modes view

theorem informed_leave_iff {ch₁ : Channel} {view view' : Set ClientId}
    (hmember : ch.isMember c = true) (h : Informed ch c view) (hx : x ≠ c)
    (hothers : ∀ m, m ≠ x → ch₁.find m = ch.find m)
    (hview : ∀ m, m ≠ x → (m ∈ view' ↔ m ∈ view)) :
    InformedWhileOn c (ch₁.remove x, view') ↔ x ∉ view' := by
  have hmember₁ : ch₁.isMember c = true := by
    rw [isMember_congr (hothers c hx.symm)]
    exact hmember
  obtain ⟨ch', hremove⟩ := exists_remove hmember₁ hx
  have hfind : ∀ m, m ≠ x → ch'.find m = ch.find m := by
    intro m hm
    rw [find_remove hremove, if_neg hm, hothers m hm]
  have hgone : ch'.isMember x = false := by
    rw [Channel.isMember, find_remove hremove, if_pos rfl]
    rfl
  -- the member has to leave the list as well
  have hiff : Informed ch' c view' ↔ x ∉ view' := by
    rw [informed_iff_of_one h (hfind c hx.symm) hfind hview, hgone]
    simp
  rw [← hiff]
  constructor
  · intro hall
    refine hall ch' hremove ?_
    rw [← hmember₁]
    exact isMember_congr (by rw [find_remove hremove, if_neg hx.symm])
  · intro hinf ch'' hch'' _
    rw [hremove] at hch''
    cases hch''
    exact hinf

theorem informedWhileOn_own_leave {ch₁ : Channel} (view : Set ClientId) :
    InformedWhileOn c (ch₁.remove c, view) := by
  intro ch' hremove hmember
  rw [isMember_remove_self hremove] at hmember
  cases hmember

theorem informedWhileOn_some (hmember : ch'.isMember c = true) :
    InformedWhileOn c (some ch', view) ↔ Informed ch' c view := by
  constructor
  · intro hall
    exact hall ch' rfl hmember
  · rintro hinf _ ⟨rfl⟩ -
    exact hinf

include hd hlocal hmember h in
theorem informedWhileOn_step_iff_of_member {e : Event}
    (hquit : ∀ x, e ≠ .quit x) :
    InformedWhileOn c (viewStep myConnect c (some ch, view) e) ↔
      EventInforms ch c e := by
  obtain ⟨mb, hmb⟩ := Option.isSome_iff_exists.mp hmember
  have hsame : InformedWhileOn c (some ch, heard c view []) :=
    (informedWhileOn_some hmember).mpr h
  cases e with
  | join j modes modesOnJoin =>
    simp only [viewStep, step, EventInforms]
    split
    case isTrue hj => exact iff_of_true hsame (.inl hj)
    case isFalse hj =>
      have hc : c ≠ j := by
        rintro rfl
        exact hj hmember
      rw [informedWhileOn_some ((isMember_modedJoin hc modes).trans hmember),
        informed_join_iff hd hlocal hmember h (by simpa using hj),
        or_iff_right hj]
  | part x join0 =>
    simp only [viewStep, step, EventInforms]
    split
    case isFalse hx =>
      refine iff_of_true hsame (.inr (.inr ?_))
      exact not_seenUnannounced_of_not_member (by simpa using hx)
    case isTrue hx =>
      by_cases hxc : x = c
      · subst hxc
        exact iff_of_true (informedWhileOn_own_leave _) (.inl rfl)
      rw [or_iff_right hxc]
      have hothers : ∀ m, m ≠ x →
          (partHook myConnect ch x join0).find m = ch.find m :=
        fun m hm => find_partHook hm join0
      cases join0 with
      | true =>
        refine iff_of_true ?_ (.inl rfl)
        have hview : heard c view (sendtoChannel myConnect ch (fun _ => true)
            (.part x)) = view \ {x} := by
          rw [heard_sendtoChannel hd, if_pos ⟨hlocal, mb, hmb, rfl⟩]
          rfl
        simp only [if_true]
        rw [hview, informed_leave_iff hmember h hxc hothers]
        · simp
        · intro m hm
          simp [hm]
      | false =>
        simp only [Bool.false_eq_true, if_false, false_or]
        rw [informed_leave_iff hmember h hxc hothers]
        · exact not_mem_heard_leaveLines hd hlocal h hmember hxc hx rfl
        · intro m hm
          exact mem_heard_leaveLines_of_ne hd rfl hm
  | kick x =>
    simp only [viewStep, step, EventInforms]
    split
    case isFalse hx =>
      refine iff_of_true hsame (.inr ?_)
      exact not_seenUnannounced_of_not_member (by simpa using hx)
    case isTrue hx =>
      by_cases hxc : x = c
      · subst hxc
        exact iff_of_true (informedWhileOn_own_leave _) (.inl rfl)
      rw [or_iff_right hxc, informed_leave_iff hmember h hxc (fun _ _ => rfl)]
      · exact not_mem_heard_leaveLines hd hlocal h hmember hxc hx rfl
      · intro m hm
        exact mem_heard_leaveLines_of_ne hd rfl hm
  | quit x => exact absurd rfl (hquit x)
  | mode lines =>
    have hafter : ∀ lines', (hookLines myConnect lines'
        (setMode ch lines).1).1.isMember c = true := by
      intro lines'
      rw [(hookLines_keeps _).1, (sameMembers_setMode lines).isMember]
      exact hmember
    have hnonempty : ∀ lines', (hookLines myConnect lines'
        (setMode ch lines).1).1.members.isEmpty = false := by
      intro lines'
      obtain ⟨m, hm, -⟩ := isMember_iff.mp (hafter lines')
      rw [isEmpty_eq_false_iff_exists_mem]
      exact ⟨m, hm⟩
    simp only [viewStep, step, EventInforms, hnonempty, Bool.false_and,
      Bool.false_eq_true, if_false]
    rw [informedWhileOn_some (hafter _)]
    exact informed_mode_iff hd hlocal hmember h lines
  | message x =>
    refine iff_of_true ?_ trivial
    simp only [viewStep, step]
    rw [informedWhileOn_some (by rw [(modedPrechanmsg_keeps _).1]; exact hmember)]
    exact informed_message hd hlocal hmember h x

/-- One event keeps the list right exactly if it meets its condition. -/
theorem informedWhileOn_step_iff (hlocal : myConnect c = true)
    (hd : ∀ ch, s.1 = some ch → ch.Distinct) (h : InformedWhileOn c s)
    {e : Event} (hquit : ∀ x, e ≠ .quit x) :
    InformedWhileOn c (viewStep myConnect c s e) ↔ KeepsInformed c s.1 e := by
  by_cases hon : ∃ ch, s.1 = some ch ∧ ch.isMember c = true
  case neg =>
    have hnot : ∀ ch, s.1 = some ch → ch.isMember c = false := by
      intro ch hch
      by_contra hmember
      exact hon ⟨ch, hch, by simpa using hmember⟩
    refine iff_of_true (informedWhileOn_of_not_member hlocal hnot e) ?_
    intro ch hch hmember
    rw [hnot ch hch] at hmember
    cases hmember
  case pos =>
    obtain ⟨state, view⟩ := s
    obtain ⟨ch, rfl, hmember⟩ := hon
    rw [informedWhileOn_step_iff_of_member (hd ch rfl) hlocal hmember
      (h ch rfl hmember) hquit]
    constructor
    · rintro hinforms _ ⟨rfl⟩ -
      exact hinforms
    · intro hkeeps
      exact hkeeps ch rfl hmember

/-- The channel after the events, and the list that the client has built. -/
def viewAfter (myConnect : ClientId → Bool) (c : ClientId)
    (events : List Event) : Option Channel × Set ClientId :=
  events.foldl (viewStep myConnect c) (none, ∅)

/-- At every point of every sequence of joins, parts, kicks, mode changes and
messages the list of a local client has exactly the members that it can see,
exactly if every event of the sequence informs it. -/
theorem informed_iff_events_inform (hlocal : myConnect c = true)
    {events : List Event} (hquit : ∀ x, Event.quit x ∉ events) :
    (∀ done, done <+: events →
        InformedWhileOn c (viewAfter myConnect c done)) ↔
      ∀ done e, done ++ [e] <+: events →
        KeepsInformed c (viewAfter myConnect c done).1 e := by
  have hiff : ∀ s, ∀ e ∈ events, (∀ ch, s.1 = some ch → ch.Distinct) →
      InformedWhileOn c s → (InformedWhileOn c (viewStep myConnect c s e) ↔
        KeepsInformed c s.1 e) := by
    intro s e he hd h
    refine informedWhileOn_step_iff hlocal hd h ?_
    rintro x rfl
    exact hquit x he
  refine @forall_prefix_iff_of_mem _ _ (viewStep myConnect c) (none, ∅)
    (fun s => (∀ ch, s.1 = some ch → ch.Distinct) ∧ InformedWhileOn c s)
    (InformedWhileOn c) (fun s e => KeepsInformed c s.1 e) events ⟨?_, ?_⟩
    (fun _ h => h.2) ?_ ?_
  · rintro _ ⟨⟩
  · rintro _ ⟨⟩
  · exact fun s e he h hk =>
      ⟨distinct_step h.1 e, (hiff s e he h.1 h.2).mpr hk⟩
  · exact fun s e he h => (hiff s e he h.1 h.2).mp

def plainEvents : List Event :=
  [.join 1 ['o'] true, .join 2 [] false, .message 2]

theorem informed_plainEvents :
    InformedWhileOn 1 (viewAfter (fun _ => true) 1 plainEvents) := by
  refine (informed_iff_events_inform rfl (by simp [plainEvents])).mpr ?_ _
    prefix_rfl
  intro done e hdone ch hch hmember
  have hmem : e ∈ plainEvents := hdone.subset (mem_append_right _ mem_cons_self)
  simp only [plainEvents, mem_cons, not_mem_nil, or_false] at hmem
  rcases hmem with rfl | rfl | rfl
  · exact .inl hmember
  · exact .inr (by simp [checkChannelAccessString])
  · trivial

/-- A channel operator that is also a half-op loses the `h` while another
member is invisible. -/
def halfopEvents : List Event :=
  [.join 1 ['o'] true, .mode [[.status true 'h' 1]], .join 2 [] false,
    .mode [[.status false 'h' 1]]]

/-- The operator is sent a PART for the member that it still sees. -/
theorem not_informed_halfopEvents :
    ¬ InformedWhileOn 1 (viewAfter (fun _ => true) 1 halfopEvents) := by
  intro h
  have hafter : (viewAfter (fun _ => true) 1 halfopEvents).1 =
      some ⟨[⟨2, ⟨[], true⟩⟩, ⟨1, ⟨['o'], false⟩⟩], true, false, false⟩ := by
    decide
  have hsees := (h _ hafter (by decide) 2).mpr (by decide)
  exact hsees.2 rfl

end UnrealIrcd.DelayJoin
