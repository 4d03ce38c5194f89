import UnrealIrcd.Channels.ClientView
import UnrealIrcd.Channels.MemberStatus

/-!
# Lines without status letters

The flags of a channel are no member modes.  So no line that `cmd_sjoin` sends
for the modes of a channel has the letter of a member mode in it, as long as
there is none in the mode string of the SJOIN line.  The members themselves
are not touched by such a mode string.
-/

namespace UnrealIrcd.Channels

open Support List

/-- No letter is a member mode. -/
def ModeTable.NoStatus (T : ModeTable) (s : List Char) : Prop :=
  ∀ c ∈ s, ¬ T.IsStatus c

variable {T : ModeTable} {c : Char}

theorem not_isStatus_of_not_mem (h : c ∉ ['a', 'h', 'o', 'q', 'v']) :
    ¬ T.IsStatus c :=
  fun hc => h (T.mem_statusLetters hc)

theorem not_isStatus_listMode (lm : ListMode) : ¬ T.IsStatus lm.letter := by
  apply not_isStatus_of_not_mem
  cases lm with
  | ban | except | invex => decide

theorem noStatus_sign (what : What) : T.NoStatus [what.char] := by
  intro c hc
  apply not_isStatus_of_not_mem
  rw [mem_singleton.mp hc]
  cases what with
  | add | del => decide

theorem noStatus_nil : T.NoStatus [] := forall_mem_nil _

theorem ModeTable.NoStatus.append {s t : List Char} (hs : T.NoStatus s)
    (ht : T.NoStatus t) : T.NoStatus (s ++ t) :=
  forall_mem_append.mpr ⟨hs, ht⟩

theorem noStatus_singleton (hc : ¬ T.IsStatus c) : T.NoStatus [c] := by
  intro d hd
  rw [mem_singleton.mp hd]
  exact hc

theorem ModeTable.NoStatus.of_subset {s t : List Char} (hs : T.NoStatus s)
    (ht : ∀ c ∈ t, c ∈ s) : T.NoStatus t := fun c hc => hs c (ht c hc)

/-! ## Setting modes -/

variable {ch : Channel} {members : List Member}

/-- The channel and the changes of `set_mode` have no member modes, and the
members are as before. -/
structure StatusFree (T : ModeTable) (members : List Member) (ch : Channel)
    (pvar : List ModeChange) : Prop where
  members : ch.members = members
  mode : ∀ c ∈ ch.mode, ¬ T.IsStatus c
  pvar : ∀ x ∈ pvar, ¬ T.IsStatus x.letter

theorem StatusFree.step {ch' : Channel} {pvar pvar' : List ModeChange}
    (h : StatusFree T members ch pvar) (hc : ¬ T.IsStatus c)
    (hstep : ModeStep T c ch pvar ch' pvar') :
    StatusFree T members ch' pvar' := by
  have hpvar : ∀ x ∈ pvar', ¬ T.IsStatus x.letter := by
    intro x hx
    rcases hstep.pvar x hx with hx | hx
    · exact h.pvar x hx
    · rw [hx]
      exact hc
  cases hstep.effect with
  | lists lm list =>
    refine ⟨(ch.members_setList lm list).trans h.members, ?_, hpvar⟩
    cases lm with
    | ban | except | invex => exact h.mode
  | addStatus hm hletter | delStatus hm hletter => exact absurd hletter hc
  | modes mode params hmode =>
    refine ⟨h.members, fun d hd => ?_, hpvar⟩
    rcases hmode d hd with hd | rfl
    · exact h.mode d hd
    · exact hc

theorem setMode_statusFree (S : Server) (R : Requester) {modes : List Char}
    (hch : ∀ c ∈ ch.mode, ¬ S.table.IsStatus c)
    (hmodes : S.table.NoStatus modes) (args : List (List Char)) :
    StatusFree S.table ch.members (setMode S R ch modes args).1
      (setMode S R ch modes args).2 :=
  setMode_rule S R (StatusFree S.table ch.members)
    (fun letter hletter _ _ _ _ hstep h => h.step (hmodes letter hletter) hstep)
    ⟨rfl, hch, fun _ hx => absurd hx not_mem_nil⟩ args

/-! ## Lines -/

def statusChanges (T : ModeTable) (xs : List ModeChange) : List ModeChange :=
  xs.filter fun x => T.IsStatus x.letter

def LocalMessage.NoStatus (T : ModeTable) : LocalMessage → Prop
  | .mode line => T.NoStatus line.modeline
  | .join _ => True
  | .kick _ => True

variable {old new : Finset Char}

theorem mem_statusChanges {xs : List ModeChange} {x : ModeChange} :
    x ∈ statusChanges T xs ↔ x ∈ xs ∧ T.IsStatus x.letter := by
  rw [statusChanges, mem_filter, decide_eq_true_eq]

theorem statusChanges_append (xs ys : List ModeChange) :
    statusChanges T (xs ++ ys) = statusChanges T xs ++ statusChanges T ys :=
  filter_append xs ys

theorem statusChanges_announced {msgs : List LocalMessage}
    (h : ∀ msg ∈ msgs, msg.NoStatus T) :
    statusChanges T (announced T msgs) = [] := by
  rw [eq_nil_iff_forall_not_mem]
  intro x hx
  obtain ⟨hx, hstatus⟩ := mem_statusChanges.mp hx
  obtain ⟨msg, hmsg, hx⟩ := mem_flatMap.mp hx
  have hnone := h msg hmsg
  cases msg with
  | mode line => exact hnone x.letter (letter_of_mem_readChanges hx) hstatus
  | join client | kick client => cases hx

section Flags

variable (hold : ∀ c ∈ old, ¬ T.IsStatus c) (hnew : ∀ c ∈ new, ¬ T.IsStatus c)

include hold hnew in
theorem noStatus_flagLetters (what : What) :
    T.NoStatus (flagLetters T what old new) := by
  intro c hc
  obtain ⟨cm, hcm, rfl⟩ := mem_map.mp hc
  have hfilter := (mem_filter.mp hcm).2
  cases what with
  | add => exact hnew _ (of_decide_eq_true hfilter).2.1
  | del => exact hold _ (of_decide_eq_true hfilter).2.2

theorem noStatus_withSign {letters : List Char} (h : T.NoStatus letters)
    (what : What) : T.NoStatus (withSign what.char letters) := by
  unfold withSign
  split
  · exact noStatus_nil
  · exact (noStatus_sign what).append h

theorem noStatus_signedLetter (hc : ¬ T.IsStatus c) (sign : Option What)
    (what : What) : T.NoStatus (signedLetter sign what c) := by
  unfold signedLetter
  split
  · exact noStatus_singleton hc
  · have hsign : (if what = .add then '+' else '-') = what.char := by
      cases what with
      | add | del => rfl
    rw [hsign]
    exact (noStatus_sign what).append (noStatus_singleton hc)

/-- The lines of `make_mode_str` have the letters of the changes. -/
theorem noStatus_makeModeStrLoop {pvar : List ModeChange}
    (hpvar : ∀ x ∈ pvar, ¬ T.IsStatus x.letter) {lines : List ModeLine}
    (hlines : ∀ line ∈ lines, T.NoStatus line.modeline) {line : ModeLine}
    (hline : T.NoStatus line.modeline) (sign : Option What) :
    ∀ line' ∈ makeModeStrLoop lines line sign pvar,
      T.NoStatus line'.modeline := by
  have hconcat : ∀ {lines : List ModeLine} {line : ModeLine},
      (∀ line ∈ lines, T.NoStatus line.modeline) →
      T.NoStatus line.modeline →
      ∀ line' ∈ lines ++ [line], T.NoStatus line'.modeline := by
    intro lines line hlines hline
    exact forall_mem_append.mpr
      ⟨hlines, forall_mem_singleton.mpr hline⟩
  induction pvar generalizing lines line sign with
  | nil =>
    rw [makeModeStrLoop]
    exact hconcat hlines hline
  | cons x pvar ih =>
    have hx := hpvar x mem_cons_self
    have hrest : ∀ y ∈ pvar, ¬ T.IsStatus y.letter := fun y hy =>
      hpvar y (mem_cons_of_mem x hy)
    have hnext : ∀ {s : List Char} (sign : Option What), T.NoStatus s →
        T.NoStatus ((s ++ signedLetter sign x.what x.letter).take
          (bufsize - 1)) := fun sign hs =>
      (hs.append (noStatus_signedLetter hx sign x.what)).of_subset
        fun c hc => mem_of_mem_take hc
    rw [makeModeStrLoop]
    split
    · split
      · exact hconcat hlines hline
      · exact ih hrest (hconcat hlines hline) (hnext none noStatus_nil) _
    · exact ih hrest hlines (hnext sign hline) _

include hold hnew in
theorem noStatus_makeModeStr {pvar : List ModeChange}
    (hpvar : ∀ x ∈ pvar, ¬ T.IsStatus x.letter) :
    ∀ line ∈ makeModeStr T old new pvar, T.NoStatus line.modeline := by
  have hstart : T.NoStatus
      (withSign '+' (flagLetters T .add old new) ++
        withSign '-' (flagLetters T .del old new)) :=
    (noStatus_withSign (noStatus_flagLetters hold hnew .add) .add).append
      (noStatus_withSign (noStatus_flagLetters hold hnew .del) .del)
  have hlines := @noStatus_makeModeStrLoop T pvar hpvar []
    (fun _ hline => absurd hline not_mem_nil) ⟨_, []⟩ hstart
    (signAfter (flagLetters T .add old new) (flagLetters T .del old new))
  have hstrip : ∀ line : ModeLine, line.strip.modeline = line.modeline := by
    intro line
    unfold ModeLine.strip
    split
    · rfl
    · rfl
  intro line hline
  have hmem : ∃ line' ∈ makeModeStrLoop []
      ⟨withSign '+' (flagLetters T .add old new) ++
        withSign '-' (flagLetters T .del old new), []⟩
      (signAfter (flagLetters T .add old new) (flagLetters T .del old new))
      pvar, line'.strip = line := by
    rw [← mem_map]
    unfold makeModeStr at hline
    dsimp only at hline
    split at hline
    · next hsingle =>
        split at hline
        · cases hline
        · exact hline
    · exact hline
  obtain ⟨line', hline', rfl⟩ := hmem
  rw [hstrip]
  exact hlines line' hline'

end Flags

theorem noStatus_modeMessages {old : Channel} {r : Channel × List ModeChange}
    (hold : ∀ c ∈ old.mode, ¬ T.IsStatus c)
    (hr : StatusFree T members r.1 r.2) :
    ∀ msg ∈ modeMessages T old r, msg.NoStatus T := by
  intro msg hmsg
  obtain ⟨line, hline, rfl⟩ := mem_map.mp hmsg
  exact noStatus_makeModeStr hold hr.mode hr.pvar line hline

/-! ## The merge section -/

/-- There is no member mode in what was sent and in the buffers. -/
structure ModeBuffer.NoStatus (T : ModeTable) (b : ModeBuffer) : Prop where
  sent : ∀ msg ∈ b.sent, msg.NoStatus T
  modebuf : T.NoStatus b.modebuf

variable {b : ModeBuffer}

theorem ModeBuffer.NoStatus.send (h : b.NoStatus T) :
    ∀ msg ∈ b.send, msg.NoStatus T :=
  forall_mem_append.mpr ⟨h.sent, forall_mem_singleton.mpr h.modebuf⟩

theorem ModeBuffer.NoStatus.finish (h : b.NoStatus T) :
    ∀ msg ∈ b.finish, msg.NoStatus T := by
  unfold ModeBuffer.finish
  split
  · exact h.sent
  · exact h.send

theorem ModeBuffer.NoStatus.addsingle (h : b.NoStatus T) (hc : ¬ T.IsStatus c) :
    (b.addsingle c).NoStatus T :=
  ⟨h.sent, h.modebuf.append (noStatus_singleton hc)⟩

theorem ModeBuffer.NoStatus.addit (h : b.NoStatus T) (hc : ¬ T.IsStatus c)
    (param : List Char) : (b.addit c param).NoStatus T := by
  unfold ModeBuffer.addit
  split
  · exact ⟨h.sent, h.modebuf.append (noStatus_singleton hc)⟩
  · exact ⟨h.send, (h.modebuf.of_subset fun d hd =>
      mem_of_mem_take hd).append (noStatus_singleton hc)⟩

theorem ModeBuffer.NoStatus.startAdded (h : b.NoStatus T) :
    (startAdded b).NoStatus T := by
  unfold Channels.startAdded
  split
  · exact h.addsingle (noStatus_sign .add _ mem_cons_self)
  · exact ⟨h.sent, noStatus_sign .add⟩

section Merge

variable {C : ParamConfig}

theorem ModeBuffer.NoStatus.sayRemoved {old new : Channel}
    (h : b.NoStatus C.table) (hold : ∀ c ∈ old.mode, ¬ C.table.IsStatus c)
    (cm : Cmode) : (sayRemoved C old new b cm).NoStatus C.table := by
  unfold Channels.sayRemoved
  split
  · next hmode =>
      split
      · exact h.addit (hold _ hmode.2.1) _
      · exact h.addsingle (hold _ hmode.2.1)
  · exact h

theorem ModeBuffer.NoStatus.sayAdded {old new : Channel}
    (h : b.NoStatus C.table) (hnew : ∀ c ∈ new.mode, ¬ C.table.IsStatus c)
    (cm : Cmode) : (sayAdded C old new b cm).NoStatus C.table := by
  unfold Channels.sayAdded
  split
  · next hmode =>
      split
      · split
        · exact h
        · exact h.addit (hnew _ hmode.2) _
      · exact h.addsingle (hnew _ hmode.2)
  · exact h

theorem mergeParam_noStatus {old : Channel}
    (hold : ∀ c ∈ old.mode, ¬ C.table.IsStatus c) {s : SjoinState}
    (hs : s.buffer.NoStatus C.table) (cm : Cmode) :
    (mergeParam C old s cm).buffer.NoStatus C.table := by
  unfold mergeParam
  split
  · next hmode =>
      have haddit : ∀ param, (s.buffer.addit cm.letter param).NoStatus C.table :=
        fun param => hs.addit (hold _ hmode.2.1) param
      split
      · dsimp only
        split
        · exact hs
        · exact hs
        · exact haddit _
        · exact haddit _
      · exact hs
  · exact hs

theorem mem_keepSecret (h : c ∈ keepSecret old new) : c ∈ old ∨ c ∈ new := by
  unfold keepSecret at h
  split at h
  · next hsecret =>
      rcases Finset.mem_insert.mp h with rfl | h
      · exact .inl hsecret.1
      · exact .inr (Finset.mem_of_mem_erase h)
  · exact .inr h

variable (S : Server) (peer : Peer) {modes : List Char × List (List Char)}
  (hch : ∀ c ∈ ch.mode, ¬ S.table.IsStatus c)

include hch

theorem setSjoinModes_statusFree (hmodes : S.table.NoStatus modes.1) :
    StatusFree S.table ch.members (setSjoinModes S peer ch modes).1
      (setSjoinModes S peer ch modes).2 := by
  unfold setSjoinModes
  exact setMode_statusFree S peer.requester hch
    (hmodes.of_subset fun c hc => mem_of_mem_take hc) _

/-- The merge section neither mentions nor changes the status of members. -/
theorem mergeModes_noStatus (hmodes : S.table.NoStatus modes.1) :
    (mergeModes S peer ch modes).1.members = ch.members ∧
      ∀ msg ∈ (mergeModes S peer ch modes).2,
        msg.NoStatus S.table := by
  have hset := setSjoinModes_statusFree S peer hch hmodes
  have hnew : ∀ c ∈ keepSecret ch.mode (setSjoinModes S peer ch modes).1.mode,
      ¬ S.table.IsStatus c := by
    intro c hc
    rcases mem_keepSecret hc with hc | hc
    · exact hch c hc
    · exact hset.mode c hc
  have hmerge : ∀ new : Channel, new.members = ch.members →
      (∀ c ∈ new.mode, ¬ S.table.IsStatus c) →
      let s := S.table.channelmodes.foldl
        (mergeParam S.params ch) ⟨new, S.table.channelmodes.foldl
            (sayAdded S.params ch new)
            (startAdded (S.table.channelmodes.foldl
              (sayRemoved S.params ch new) (.start [] '-')))⟩
      s.channel.members = ch.members ∧ s.buffer.NoStatus S.table := by
    intro new hmembers hnew
    refine List.foldlRecOn (motive := fun s : SjoinState =>
      s.channel.members = ch.members ∧ s.buffer.NoStatus S.table)
      _ _ ⟨hmembers, ?_⟩ fun s hs cm _ =>
        ⟨(members_mergeParam _ _ _ _).trans hs.1,
          mergeParam_noStatus hch hs.2 cm⟩
    apply List.foldlRecOn (motive := ModeBuffer.NoStatus S.table)
    · apply ModeBuffer.NoStatus.startAdded
      apply List.foldlRecOn (motive := ModeBuffer.NoStatus S.table)
      · exact ⟨forall_mem_nil _, noStatus_sign .del⟩
      · exact fun b hb cm _ => hb.sayRemoved hch cm
    · exact fun b hb cm _ => hb.sayAdded hnew cm
  have hfinal := hmerge { (setSjoinModes S peer ch modes).1 with
    mode := keepSecret ch.mode (setSjoinModes S peer ch modes).1.mode }
    hset.members hnew
  exact ⟨hfinal.1, hfinal.2.finish⟩

/-- The modes of the line neither mention nor change the status of members. -/
theorem sjoinModes_noStatus {modes : Option (List Char × List (List Char))}
    (hmodes : ∀ p, modes = some p → S.table.NoStatus p.1) (side : SjoinSide) :
    (sjoinModes S peer side ch modes).1.members = ch.members ∧
      ∀ msg ∈ (sjoinModes S peer side ch modes).2,
        msg.NoStatus S.table := by
  fun_cases sjoinModes S peer side ch modes with
  | case1 | case2 => exact ⟨rfl, fun msg hmsg => absurd hmsg not_mem_nil⟩
  | case3 modes => exact mergeModes_noStatus S peer hch (hmodes modes rfl)
  | case4 =>
    have hset := setSjoinModes_statusFree S peer hch (hmodes _ rfl)
    exact ⟨hset.members, noStatus_modeMessages hch hset⟩

end Merge

end UnrealIrcd.Channels
