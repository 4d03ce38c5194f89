import UnrealIrcd.HistoryBackend.Refinement
import Mathlib.Algebra.Order.Group.Int
import Mathlib.Tactic.FinCases

/-!
# Order and accounting of history logs

Over every run the lines are in the order of their time, those of equal time in
the order of their arrival, and the count of lines is the sum over the entries.

The time of the oldest line is kept in a field in which 0 means that it is not
known.  It is a lower bound as long as no line is from the epoch or before, and
limits are set to sensible values (`HistoryOp.Sane`).
-/

namespace UnrealIrcd.HistoryBackend

open Support MessageTags List

variable {timegm : Tm → ℤ}

/-! ## What removals do -/

def lineSum (es : List Entry) : ℤ := (es.map fun e => e.2.numLines).sum

@[simp] theorem lineSum_append (es es' : List Entry) :
    lineSum (es ++ es') = lineSum es + lineSum es' := by
  simp [lineSum]

@[simp] theorem lineSum_cons (e : Entry) (es : List Entry) :
    lineSum (e :: es) = e.2.numLines + lineSum es := by
  simp [lineSum]

/-- A walk through `rest` has removed lines, and has counted them. -/
structure Shrinks (log : Log) (rest : List Entry) (log' : Log) : Prop where
  sublist : log'.entries.Sublist (log.entries ++ rest)
  counted : log'.numLines - lineSum log'.entries =
    log.numLines - lineSum (log.entries ++ rest)
  fresh : log'.fresh = log.fresh
  maxLines : log'.maxLines = log.maxLines

section Removals

variable (filter : HistoryFilter) (incoming redline now : ℤ) (log : Log)
  (started : Bool) (deleted rejected : ℤ) (rest : List Entry)

namespace Shrinks

theorem refl : Shrinks log [] log :=
  ⟨by simp, by simp, rfl, rfl⟩

theorem keepAll : Shrinks log rest (log.keepAll rest) :=
  ⟨List.Sublist.refl _, rfl, rfl, rfl⟩

variable {log rest} {log' : Log} {e : Entry}

theorem keep (h : Shrinks (log.keep e) rest log') :
    Shrinks log (e :: rest) log' := by
  refine ⟨?_, ?_, h.fresh, h.maxLines⟩
  · simpa [Log.keep] using h.sublist
  · simpa [Log.keep, add_assoc] using h.counted

theorem drop (h : Shrinks (log.drop e) rest log') :
    Shrinks log (e :: rest) log' := by
  refine ⟨h.sublist.trans ?_, ?_, h.fresh, h.maxLines⟩
  · exact (sublist_cons_self e rest).append_left log.entries
  · have hcounted := h.counted
    simp only [Log.drop, lineSum_append, lineSum_cons] at hcounted ⊢
    omega

theorem note {x : Entry} (h : Shrinks ((log.note x).keep e) rest log') :
    Shrinks (log.keep e) rest log' :=
  ⟨h.sublist, h.counted, h.fresh, h.maxLines⟩

end Shrinks

theorem shrinks_evictFrom : Shrinks log rest (log.evictFrom incoming rest) := by
  induction rest generalizing log with
  | nil => exact .refl log
  | cons e rest ih =>
    rw [Log.evictFrom]
    split
    · exact (ih (log.drop e)).drop
    · exact .keepAll log (e :: rest)

theorem shrinks_deleteFrom :
    Shrinks log rest
      (log.deleteFrom filter started deleted rejected rest).1 := by
  induction rest generalizing log started deleted rejected with
  | nil => exact .refl log
  | cons e rest ih =>
    rw [Log.deleteFrom]
    split_ifs
    · exact .keepAll log (e :: rest)
    · exact (ih (log.keep e) _ _ _).keep
    · exact (Shrinks.keepAll (log.drop e) rest).drop
    · exact (ih (log.drop e) _ _ _).drop
    · exact .keepAll log (e :: rest)
    · exact (ih (log.keep e) _ _ _).keep

theorem shrinks_expire : Shrinks log rest (log.expire redline rest) := by
  induction rest generalizing log with
  | nil => exact .refl log
  | cons e rest ih =>
    rw [Log.expire]
    split
    · exact (ih (log.drop e)).drop
    · exact (ih ((log.note e).keep e)).note.keep

theorem shrinks_trim : Shrinks log rest (log.trim rest) := by
  induction rest generalizing log with
  | nil => exact .refl log
  | cons e rest ih =>
    rw [Log.trim]
    split_ifs with hfull hlast
    · subst hlast
      exact (Shrinks.refl (log.keep e)).keep
    · exact (ih (log.drop e)).drop
    · exact (ih ((log.note e).keep e)).note.keep

/-- The same for a whole log. -/
structure Reduced (log log' : Log) : Prop where
  sublist : log'.entries.Sublist log.entries
  counted : log'.numLines - lineSum log'.entries =
    log.numLines - lineSum log.entries
  fresh : log'.fresh = log.fresh

theorem Reduced.refl : Reduced log log :=
  ⟨List.Sublist.refl _, rfl, rfl⟩

variable {log} {log' : Log}

theorem Reduced.trans {log'' : Log} (h : Reduced log log')
    (h' : Reduced log' log'') : Reduced log log'' :=
  ⟨h'.sublist.trans h.sublist, h'.counted.trans h.counted,
    h'.fresh.trans h.fresh⟩

theorem Shrinks.reduced {log₀ : Log}
    (h : Shrinks log₀ log.entries log') (hempty : log₀.entries = [])
    (hnum : log₀.numLines = log.numLines) (hfresh : log₀.fresh = log.fresh) :
    Reduced log log' := by
  refine ⟨?_, ?_, h.fresh.trans hfresh⟩
  · simpa [hempty] using h.sublist
  · simpa [hempty, hnum] using h.counted

variable (log)

theorem reduced_evict : Reduced log (log.evict incoming) :=
  (shrinks_evictFrom incoming log.start log.entries).reduced rfl rfl rfl

theorem reduced_defaultLimits : Reduced log log.defaultLimits := by
  unfold Log.defaultLimits
  split
  · exact ⟨List.Sublist.refl _, rfl, rfl⟩
  · exact .refl log

theorem reduced_delete : Reduced log (log.delete filter).1 :=
  (shrinks_deleteFrom filter log.start false 0 0 log.entries).reduced rfl rfl
    rfl

theorem reduced_cleanupTime : Reduced log (log.cleanupTime now) := by
  unfold Log.cleanupTime
  split
  · exact (shrinks_expire _ _ log.entries).reduced rfl rfl rfl
  · exact .refl log

theorem reduced_cleanupLines : Reduced log log.cleanupLines := by
  unfold Log.cleanupLines
  split
  · exact (shrinks_trim _ log.entries).reduced rfl rfl rfl
  · exact .refl log

theorem reduced_cleanup : Reduced log (log.cleanup now) :=
  (reduced_cleanupTime now log).trans (reduced_cleanupLines _)

theorem reduced_room : Reduced log (log.defaultLimits.evict incoming) :=
  (reduced_defaultLimits log).trans (reduced_evict incoming _)

theorem evict_maxLines : (log.evict incoming).maxLines = log.maxLines :=
  (shrinks_evictFrom incoming log.start log.entries).maxLines

theorem cleanupTime_maxLines :
    (log.cleanupTime now).maxLines = log.maxLines := by
  unfold Log.cleanupTime
  split
  · exact (shrinks_expire _ _ _).maxLines
  · rfl

theorem cleanupLines_maxLines : log.cleanupLines.maxLines = log.maxLines := by
  unfold Log.cleanupLines
  split
  · exact (shrinks_trim _ _).maxLines
  · rfl

theorem evictFrom_oldestT :
    (log.evictFrom incoming rest).oldestT = log.oldestT := by
  induction rest generalizing log with
  | nil => rfl
  | cons e rest ih =>
    rw [Log.evictFrom]
    split
    · exact ih (log.drop e)
    · rfl

theorem deleteFrom_oldestT :
    (log.deleteFrom filter started deleted rejected rest).1.oldestT =
      log.oldestT := by
  induction rest generalizing log started deleted rejected with
  | nil => rfl
  | cons e rest ih =>
    rw [Log.deleteFrom]
    split_ifs <;> first | rfl | exact ih _ _ _ _

end Removals

/-! ## Order -/

/-- The line `l` has a later time. -/
def Later (l l' : HistoryLogLine) : Prop :=
  l'.t < l.t ∨ (l'.t = l.t ∧ l'.time < l.time)

/-- The order of the log: by time, and by arrival at equal time. -/
def Before (e e' : Entry) : Prop :=
  Later e'.2 e.2 ∨ (e.2.t = e'.2.t ∧ e.2.time = e'.2.time ∧ e.1 < e'.1)

theorem Later.trans {l l' l'' : HistoryLogLine} (h : Later l' l)
    (h' : Later l'' l') : Later l'' l := by
  rcases h with h | ⟨h, hs⟩ <;> rcases h' with h' | ⟨h', hs'⟩
  · exact .inl (h.trans h')
  · exact .inl (h' ▸ h)
  · exact .inl (h ▸ h')
  · exact .inr ⟨h.trans h', hs.trans hs'⟩

theorem not_later_iff {l l' : HistoryLogLine} :
    ¬ Later l l' ↔ l.t < l'.t ∨ (l.t = l'.t ∧ l.time ≤ l'.time) := by
  unfold Later
  rw [not_or, not_and, not_lt, not_lt]
  constructor
  · rintro ⟨hle, htime⟩
    rcases lt_or_eq_of_le hle with h | h
    · exact .inl h
    · exact .inr ⟨h, htime h.symm⟩
  · rintro (h | ⟨h, htime⟩)
    · exact ⟨h.le, fun heq => absurd heq h.ne'⟩
    · exact ⟨h.le, fun _ => htime⟩

theorem later_of_not {l l' : HistoryLogLine} (ht : ¬ l.t < l'.t)
    (hsame : ¬ (l.t = l'.t ∧ l.time ≤ l'.time)) : Later l l' := by
  by_contra hnot
  rcases not_later_iff.mp hnot with hlt | heq
  · exact ht hlt
  · exact hsame heq

variable {l : HistoryLogLine}

/-- Where the walk backwards ends: what was passed is later than the line, and
the line before that is not. -/
theorem split_spec {before passed xs ys : List Entry}
    (h : Log.split l before passed = some (xs, ys))
    (hpassed : ∀ y ∈ passed, Later y.2 l) :
    (∀ y ∈ ys, Later y.2 l) ∧ ∀ x ∈ xs.getLast?, ¬ Later x.2 l := by
  have hlast : ∀ {e : Entry} {before}, ¬ Later e.2 l →
      ∀ x ∈ (e :: before).reverse.getLast?, ¬ Later x.2 l := by
    simp
  fun_induction Log.split l before passed with
  | case1 passed =>
    cases h
    exact ⟨hpassed, by simp⟩
  | case2 e before passed ht =>
    cases h
    exact ⟨hpassed, hlast (not_later_iff.mpr (.inl ht))⟩
  | case3 e before passed ht hid => cases h
  | case4 e before passed ht hid hsame =>
    cases h
    exact ⟨hpassed, hlast (not_later_iff.mpr (.inr hsame))⟩
  | case5 e before passed ht hid hsame ih =>
    exact ih h (forall_mem_cons.mpr ⟨later_of_not ht hsame, hpassed⟩)

theorem before_of_not_later {e e' : Entry} (h : ¬ Later e.2 e'.2)
    (hlt : e.1 < e'.1) : Before e e' := by
  rcases not_later_iff.mp h with h | ⟨h, htime⟩
  · exact .inl (.inl h)
  · rcases lt_or_eq_of_le htime with hs | hs
    · exact .inl (.inr ⟨h, hs⟩)
    · exact .inr ⟨h, hs, hlt⟩

theorem Before.not_later {e e' : Entry} (h : Before e e')
    (hnot : ¬ Later e'.2 l) : ¬ Later e.2 l := by
  intro hlater
  apply hnot
  rcases h with h | ⟨ht, htime, -⟩
  · exact hlater.trans h
  · unfold Later at hlater ⊢
    rwa [← ht, ← htime]

/-- The lines are in order, and arrived before the next one. -/
structure Ordered (log : Log) : Prop where
  pairwise : log.entries.Pairwise Before
  bound : ∀ e ∈ log.entries, e.1 < log.fresh

variable {log log' : Log}

theorem Ordered.reduced (h : Ordered log) (hred : Reduced log log') :
    Ordered log' := by
  refine ⟨h.pairwise.sublist hred.sublist, ?_⟩
  intro e he
  rw [hred.fresh]
  exact h.bound e (hred.sublist.subset he)

theorem place_cases (log : Log) (l : HistoryLogLine) :
    (log.place l).1 = { log with fresh := log.fresh + 1 } ∨
      ∃ xs ys, xs ++ ys = log.entries ∧
        Log.split l log.entries.reverse [] = some (xs, ys) ∧
        (log.place l).1 =
          { log with
            entries := xs ++ (log.fresh, l) :: ys
            fresh := log.fresh + 1
            numLines := log.numLines + l.numLines
            oldestT := olderOf log.oldestT l.t } := by
  unfold Log.place
  cases hsplit : Log.split l log.entries.reverse [] with
  | none => exact .inl rfl
  | some parts =>
    exact .inr ⟨parts.1, parts.2, by simpa using split_append hsplit, rfl, rfl⟩

theorem mem_place {e : Entry} (he : e ∈ (log.place l).1.entries) :
    e = (log.fresh, l) ∨ e ∈ log.entries := by
  rcases place_cases log l with heq | ⟨xs, ys, hparts, -, heq⟩
  · rw [heq] at he
    exact .inr he
  · rw [heq] at he
    rw [← hparts, mem_append]
    rw [mem_append, mem_cons] at he
    tauto

theorem ordered_place (h : Ordered log) (l : HistoryLogLine) :
    Ordered (log.place l).1 := by
  constructor
  · rcases place_cases log l with heq | ⟨xs, ys, hparts, hsplit, heq⟩
    · rw [heq]
      exact h.pairwise
    · obtain ⟨hys, hlast⟩ := split_spec hsplit (by simp)
      have hpairwise := h.pairwise
      rw [← hparts, pairwise_append] at hpairwise
      obtain ⟨hpx, hpy, hxy⟩ := hpairwise
      have hxs : ∀ x ∈ xs, ¬ Later x.2 l := by
        cases xs using List.reverseRecOn with
        | nil => simp
        | append_singleton xs z =>
          have hz : ¬ Later z.2 l := hlast z (by simp)
          intro x hx
          rcases mem_append.mp hx with hx | hx
          · have hxz := (pairwise_append.mp hpx).2.2 x hx z (by simp)
            exact hxz.not_later hz
          · rwa [mem_singleton.mp hx]
      rw [heq, pairwise_append, pairwise_cons]
      refine ⟨hpx, ⟨fun y hy => .inl (hys y hy), hpy⟩, ?_⟩
      intro x hx y hy
      rcases mem_cons.mp hy with rfl | hy
      · exact before_of_not_later (hxs x hx)
          (h.bound x (by rw [← hparts]; simp [hx]))
      · exact hxy x hx y hy
  · have hfresh : (log.place l).1.fresh = log.fresh + 1 := by
      unfold Log.place
      split <;> rfl
    intro e he
    rw [hfresh]
    rcases mem_place he with rfl | he
    · exact Nat.lt_succ_self _
    · exact (h.bound e he).trans (Nat.lt_succ_self _)

/-! ## Accounting -/

def Counted (log : Log) : Prop := log.numLines = lineSum log.entries

theorem Counted.reduced (h : Counted log) (hred : Reduced log log') :
    Counted log' := by
  have hcounted := hred.counted
  unfold Counted at h ⊢
  omega

theorem counted_place (h : Counted log) (l : HistoryLogLine) :
    Counted (log.place l).1 := by
  rcases place_cases log l with heq | ⟨xs, ys, hparts, -, heq⟩
  · rw [heq]
    exact h
  · unfold Counted at h ⊢
    rw [← hparts] at h
    rw [heq]
    simp only [lineSum_append, lineSum_cons] at h ⊢
    omega

/-! ## The time of the oldest line -/

/-- The time of the oldest line is known if there is a line, and no line is
older. -/
structure Noted (log : Log) : Prop where
  known : log.oldestT = 0 → log.entries = []
  le : ∀ e ∈ log.entries, log.oldestT ≤ e.2.t

theorem olderOf_spec (o t : ℤ) :
    olderOf o t ≤ t ∧ (o ≠ 0 → olderOf o t ≤ o) ∧
      (0 < t → olderOf o t ≠ 0) := by
  unfold olderOf
  split <;> omega

theorem Noted.insert {e : Entry} (h : Noted log)
    (ht : 0 < e.2.t) (holdest : log'.oldestT = olderOf log.oldestT e.2.t)
    (hentries : ∀ x ∈ log'.entries, x = e ∨ x ∈ log.entries) : Noted log' := by
  obtain ⟨hle, hself, hne⟩ := olderOf_spec log.oldestT e.2.t
  constructor
  · intro hzero
    exact absurd (holdest.symm.trans hzero) (hne ht)
  · intro x hx
    rw [holdest]
    rcases hentries x hx with rfl | hx
    · exact hle
    · have hne : log.oldestT ≠ 0 := by
        intro hzero
        rw [h.known hzero] at hx
        cases hx
      exact (hself hne).trans (h.le x hx)

theorem Noted.keep {e : Entry} (h : Noted log) (ht : 0 < e.2.t) :
    Noted ((log.note e).keep e) := by
  refine h.insert ht rfl fun x hx => ?_
  simp only [Log.keep, Log.note, mem_append, mem_singleton] at hx
  tauto

theorem Noted.mono (h : Noted log) (holdest : log'.oldestT = log.oldestT)
    (hsub : log'.entries.Sublist log.entries) : Noted log' := by
  constructor
  · intro hzero
    rw [holdest] at hzero
    rw [h.known hzero] at hsub
    exact sublist_nil.mp hsub
  · intro e he
    rw [holdest]
    exact h.le e (hsub.subset he)

theorem noted_of_nil (h : log.entries = []) : Noted log :=
  ⟨fun _ => h, by simp [h]⟩

/-- A single line that exceeds the limit on its own was kept, and its time is
not known. -/
structure Oversized (log : Log) : Prop where
  oldest : log.oldestT = 0
  full : log.numLines > log.maxLines
  single : ∃ e, log.entries = [e]

/-- The state of the field for the oldest line. -/
structure Dated (log : Log) : Prop where
  pos : ∀ e ∈ log.entries, 0 < e.2.t
  oldest : Noted log ∨ Oversized log
  limited : log.maxLines = 0 → log.entries = []

theorem Dated.oldestT_le (h : Dated log) :
    ∀ e ∈ log.entries, log.oldestT ≤ e.2.t := by
  rcases h.oldest with hnoted | hover
  · exact hnoted.le
  · intro e he
    rw [hover.oldest]
    exact (h.pos e he).le

/-- Making room removes a line that exceeds the limit on its own. -/
theorem noted_evict (h : Dated log) {incoming : ℤ} (hincoming : 0 ≤ incoming) :
    Noted (log.evict incoming) := by
  rcases h.oldest with hnoted | hover
  · exact hnoted.mono (evictFrom_oldestT incoming log.start log.entries)
      (reduced_evict incoming log).sublist
  · obtain ⟨e, he⟩ := hover.single
    apply noted_of_nil
    have hfull := hover.full
    rw [Log.evict, he, Log.evictFrom, if_pos]
    · rfl
    · change log.numLines + incoming > log.maxLines
      omega

theorem noted_place (h : Noted log) (ht : 0 < l.t) : Noted (log.place l).1 := by
  rcases place_cases log l with heq | ⟨xs, ys, -, -, heq⟩
  · rw [heq]
    exact ⟨h.known, h.le⟩
  · exact @Noted.insert log _ (log.fresh, l) h ht (by rw [heq])
      fun _ => mem_place

variable {rest : List Entry}

theorem noted_expire {redline : ℤ} (h : Noted log)
    (hpos : ∀ e ∈ rest, 0 < e.2.t) : Noted (log.expire redline rest) := by
  induction rest generalizing log with
  | nil => exact h
  | cons e rest ih =>
    obtain ⟨he, hrest⟩ := forall_mem_cons.mp hpos
    rw [Log.expire]
    split
    · exact @ih (log.drop e) ⟨h.known, h.le⟩ hrest
    · exact ih (h.keep he) hrest

/-- Dropping lines from the front: as long as there are too many, none is
kept. -/
theorem noted_trim (h : Noted log)
    (hfull : log.numLines > log.maxLines → log.entries = [] ∧ log.oldestT = 0)
    (hpos : ∀ e ∈ rest, 0 < e.2.t) :
    Noted (log.trim rest) ∨ Oversized (log.trim rest) := by
  induction rest generalizing log with
  | nil => exact .inl h
  | cons e rest ih =>
    obtain ⟨he, hrest⟩ := forall_mem_cons.mp hpos
    rw [Log.trim]
    split_ifs with hmany hlast
    · obtain ⟨hnil, hzero⟩ := hfull hmany
      exact .inr ⟨hzero, hmany, e, by rw [Log.keep, hnil]; rfl⟩
    · obtain ⟨hnil, hzero⟩ := hfull hmany
      exact @ih (log.drop e) ⟨h.known, h.le⟩ (fun _ => ⟨hnil, hzero⟩) hrest
    · exact ih (h.keep he) (fun hmany' => absurd hmany' hmany) hrest

theorem noted_cleanupTime {now : ℤ} (hpos : ∀ e ∈ log.entries, 0 < e.2.t)
    (h : Noted log ∨ log.oldestT < now - log.maxTime) :
    Noted (log.cleanupTime now) := by
  unfold Log.cleanupTime
  split_ifs with hold
  · exact noted_expire (noted_of_nil rfl) hpos
  · exact h.resolve_right hold

/-! ## Runs -/

def HistoryOp.addedLine (timegm : Tm → ℤ) : HistoryOp → Option HistoryLogLine
  | .add env mtags line => some (hbmDuplicateMtags timegm env mtags line)
  | .addMultiline env mtags source cmd target (first :: rest) =>
    some (Log.batchEntry timegm env mtags source cmd target first rest)
  | _ => none

/-- Lines are from after the epoch, and limits are set to a number of lines that
is not 0 and a time that does not reach back to the epoch. -/
def HistoryOp.Sane (timegm : Tm → ℤ) (op : HistoryOp) : Prop :=
  (∀ l ∈ op.addedLine timegm, 0 < l.t) ∧
    match op with
    | .setLimit now maxLines maxTime => maxLines ≠ 0 ∧ maxTime < now
    | _ => True

theorem apply_cases (log : Log) (op : HistoryOp) :
    (∃ l ∈ op.addedLine timegm, log.apply timegm op = log.add l) ∨
      (op.addedLine timegm = none ∧ Reduced log (log.apply timegm op)) := by
  cases op with
  | add env mtags line => exact .inl ⟨_, rfl, rfl⟩
  | addMultiline env mtags source cmd target lines =>
    cases lines with
    | nil => exact .inr ⟨rfl, reduced_defaultLimits log⟩
    | cons first rest => exact .inl ⟨_, rfl, rfl⟩
  | delete filter => exact .inr ⟨rfl, reduced_delete filter log⟩
  | cleanup now => exact .inr ⟨rfl, reduced_cleanup now log⟩
  | setLimit now maxLines maxTime =>
    have hred := reduced_cleanup now
      { log with maxLines := maxLines, maxTime := maxTime }
    exact .inr ⟨rfl, hred.sublist, hred.counted, hred.fresh⟩

theorem ordered_counted_apply (hordered : Ordered log)
    (hcounted : Counted log) (op : HistoryOp) :
    Ordered (log.apply timegm op) ∧ Counted (log.apply timegm op) := by
  rcases @apply_cases timegm log op with ⟨l, -, happly⟩ | ⟨-, hred⟩
  · have hroom := reduced_room l.numLines log
    rw [happly]
    exact ⟨ordered_place (hordered.reduced hroom) l,
      counted_place (hcounted.reduced hroom) l⟩
  · exact ⟨hordered.reduced hred, hcounted.reduced hred⟩

theorem dated_defaultLimits (h : Dated log) :
    Dated log.defaultLimits ∧ log.defaultLimits.maxLines ≠ 0 := by
  unfold Log.defaultLimits
  split_ifs with hzero
  · have hnil := h.limited hzero
    exact ⟨⟨h.pos, .inl (noted_of_nil hnil), fun _ => hnil⟩,
      (by decide : (50 : ℤ) ≠ 0)⟩
  · exact ⟨h, hzero⟩

theorem place_maxLines (log : Log) (l : HistoryLogLine) :
    (log.place l).1.maxLines = log.maxLines := by
  unfold Log.place
  split <;> rfl

theorem dated_add (h : Dated log) (ht : 0 < l.t) (hnum : 0 ≤ l.numLines) :
    Dated (log.add l) := by
  obtain ⟨hdated, hlimit⟩ := dated_defaultLimits h
  have hpos : ∀ e ∈ (log.defaultLimits.evict l.numLines).entries,
      0 < e.2.t := fun e he =>
    hdated.pos e ((reduced_evict _ _).sublist.subset he)
  refine ⟨fun e he => ?_, .inl ?_, ?_⟩
  · rcases mem_place he with rfl | he
    · exact ht
    · exact hpos e he
  · exact noted_place (noted_evict hdated hnum) ht
  · intro hzero
    rw [Log.add, place_maxLines, evict_maxLines] at hzero
    exact absurd hzero hlimit

theorem dated_delete (h : Dated log) (filter : HistoryFilter) :
    Dated (log.delete filter).1 := by
  have hred := reduced_delete filter log
  have hmax : (log.delete filter).1.maxLines = log.maxLines :=
    (shrinks_deleteFrom filter log.start false 0 0 log.entries).maxLines
  have hold : (log.delete filter).1.oldestT = log.oldestT :=
    deleteFrom_oldestT filter log.start false 0 0 log.entries
  refine ⟨fun e he => h.pos e (hred.sublist.subset he), ?_, ?_⟩
  · rcases h.oldest with hnoted | hover
    · exact .inl (hnoted.mono hold hred.sublist)
    · obtain ⟨e, he⟩ := hover.single
      have hsub := hred.sublist
      rw [he] at hsub
      rcases sublist_singleton.mp hsub with hnil | hsame
      · exact .inl (noted_of_nil hnil)
      · refine .inr ⟨hold.trans hover.oldest, ?_, e, hsame⟩
        have hcounted := hred.counted
        have hfull := hover.full
        rw [hsame, he] at hcounted
        rw [hmax]
        omega
  · intro hzero
    rw [hmax] at hzero
    have hsub := hred.sublist
    rw [h.limited hzero] at hsub
    exact sublist_nil.mp hsub

/-- A cleanup restores the field for the oldest line, if it looks at the time
or there are too many lines. -/
theorem dated_cleanup {now : ℤ} (hpos : ∀ e ∈ log.entries, 0 < e.2.t)
    (h : Noted log ∨ log.oldestT < now - log.maxTime ∨ Oversized log)
    (hlimited : log.maxLines = 0 → log.entries = []) :
    Dated (log.cleanup now) := by
  have hpos' : ∀ e ∈ (log.cleanupTime now).entries, 0 < e.2.t :=
    fun e he => hpos e ((reduced_cleanupTime now log).sublist.subset he)
  have htime : Noted (log.cleanupTime now) ∨
      (log.cleanupTime now).numLines > (log.cleanupTime now).maxLines := by
    by_cases hold : log.oldestT < now - log.maxTime
    · exact .inl (noted_cleanupTime hpos (.inr hold))
    · rcases h with hnoted | hold' | hover
      · exact .inl (noted_cleanupTime hpos (.inl hnoted))
      · exact absurd hold' hold
      · right
        rw [Log.cleanupTime, if_neg hold]
        exact hover.full
  refine ⟨fun e he => hpos e ((reduced_cleanup now log).sublist.subset he),
    ?_, ?_⟩
  · unfold Log.cleanup Log.cleanupLines
    split_ifs with hfull
    · exact noted_trim (noted_of_nil rfl) (fun _ => ⟨rfl, rfl⟩) hpos'
    · exact .inl (htime.resolve_right hfull)
  intro hzero
  rw [Log.cleanup, cleanupLines_maxLines, cleanupTime_maxLines] at hzero
  have hsub := (reduced_cleanup now log).sublist
  rw [hlimited hzero] at hsub
  exact sublist_nil.mp hsub

theorem addedLine_numLines {op : HistoryOp} (h : l ∈ op.addedLine timegm) :
    0 ≤ l.numLines := by
  cases op with
  | add env mtags line =>
    cases h
    exact (by decide : (0 : ℤ) ≤ 1)
  | addMultiline env mtags source cmd target lines =>
    cases lines with
    | nil => cases h
    | cons first rest =>
      cases h
      exact Int.natCast_nonneg _
  | delete | cleanup | setLimit => cases h

theorem dated_apply (h : Dated log) {op : HistoryOp} (hsane : op.Sane timegm) :
    Dated (log.apply timegm op) := by
  rcases @apply_cases timegm log op with ⟨l, hl, happly⟩ | ⟨hnone, -⟩
  · rw [happly]
    exact dated_add h (hsane.1 l hl) (addedLine_numLines hl)
  · cases op with
    | add => cases hnone
    | addMultiline env mtags source cmd target lines =>
      cases lines with
      | nil => exact (dated_defaultLimits h).1
      | cons => cases hnone
    | delete filter => exact dated_delete h filter
    | cleanup now =>
      exact dated_cleanup h.pos (h.oldest.imp_right .inr) h.limited
    | setLimit now maxLines maxTime =>
      obtain ⟨hlines, htime⟩ := hsane.2
      refine dated_cleanup h.pos ?_ (fun hzero => absurd hzero hlines)
      rcases h.oldest with hnoted | hover
      · exact .inl ⟨hnoted.known, hnoted.le⟩
      · right
        left
        dsimp only
        rw [hover.oldest]
        omega

theorem invariants_run (timegm : Tm → ℤ) (ops : List HistoryOp) :
    Ordered (Log.run timegm ops) ∧ Counted (Log.run timegm ops) ∧
      ((∀ op ∈ ops, op.Sane timegm) → Dated (Log.run timegm ops)) := by
  induction ops using List.reverseRecOn with
  | nil =>
    refine ⟨⟨List.Pairwise.nil, by simp [Log.run, Log.empty]⟩, rfl, fun _ => ?_⟩
    exact ⟨by simp [Log.run, Log.empty], .inl (noted_of_nil rfl),
      fun _ => rfl⟩
  | append_singleton ops op ih =>
    obtain ⟨hordered, hcounted, hdated⟩ := ih
    have hrun : Log.run timegm (ops ++ [op]) =
        (Log.run timegm ops).apply timegm op := by
      simp [Log.run]
    have hstep := @ordered_counted_apply timegm _ hordered hcounted op
    rw [hrun]
    refine ⟨hstep.1, hstep.2, fun hsane => ?_⟩
    refine dated_apply (hdated fun o ho => hsane o ?_) (hsane op ?_)
    · exact mem_append_left _ ho
    · simp

/-- Over every run the log is a doubly linked list with the right head and tail,
in the order of time and arrival, and its lines are counted.  If the lines and
limits of the run are sane, no line is older than `oldest_t`. -/
theorem historyRun_invariants (timegm : Tm → ℤ) (ops : List HistoryOp) :
    ∃ h entries, historyRun timegm ops = some h ∧
      IsList h.heap h.head h.tail entries ∧ entries.Pairwise Before ∧
      h.numLines = lineSum entries ∧
      ((∀ op ∈ ops, op.Sane timegm) →
        ∀ e ∈ entries, h.oldestT ≤ e.2.t) := by
  obtain ⟨h, hrun, hrep⟩ := @represents_historyRun timegm ops
  obtain ⟨hordered, hcounted, hdated⟩ := invariants_run timegm ops
  refine ⟨h, (Log.run timegm ops).entries, hrun, hrep.list,
    hordered.pairwise, hrep.numLines.trans hcounted, ?_⟩
  intro hsane e he
  rw [hrep.oldestT]
  exact (hdated hsane).oldestT_le e he

def sampleAdd (time msgid : String) : HistoryOp :=
  .add ⟨[], []⟩ [⟨"time".toList, some time.toList⟩,
    ⟨"msgid".toList, some msgid.toList⟩] "hello".toList

/-- `timegm`, for dates from 1970 to 2099. -/
def sampleTimegm (tm : Tm) : ℤ :=
  let year := tm.year - 70
  let months := [0, 31, 59, 90, 120, 151, 181, 212, 243, 273, 304, 334]
  let leap := if (year + 2) % 4 = 0 ∧ 2 ≤ tm.mon then 1 else 0
  let days := 365 * year + (year + 1) / 4 + months.getD tm.mon.toNat 0 + leap +
    tm.mday - 1
  ((days * 24 + tm.hour) * 60 + tm.min) * 60 + tm.sec

/-- Limits that are set an hour after the new year of 2020. -/
def sampleLimit : HistoryOp := .setLimit 1577840400 10 86400

/-- Two lines at a time that is not 0. -/
theorem historyRun_sample :
    ∃ h entries,
      historyRun sampleTimegm
          [sampleLimit, sampleAdd "2020-01-01T00:00:00.000Z" "a",
            sampleAdd "2020-01-01T00:30:00.000Z" "b"] = some h ∧
        IsList h.heap h.head h.tail entries ∧
        ∀ e ∈ entries, h.oldestT ≤ e.2.t := by
  obtain ⟨h, entries, hrun, hlist, -, -, hold⟩ :=
    historyRun_invariants sampleTimegm
      [sampleLimit, sampleAdd "2020-01-01T00:00:00.000Z" "a",
        sampleAdd "2020-01-01T00:30:00.000Z" "b"]
  refine ⟨h, entries, hrun, hlist, hold ?_⟩
  intro op hop
  fin_cases hop
  · exact ⟨by simp [sampleLimit, HistoryOp.addedLine], by decide, by decide⟩
  · exact ⟨by rintro l ⟨⟩; decide, trivial⟩
  · exact ⟨by rintro l ⟨⟩; decide, trivial⟩

/-- A line whose timestamp cannot be read has the time 0, which the next line
takes for a time that is not known. -/
theorem historyRun_epoch :
    ∃ h entries,
      historyRun sampleTimegm
          [sampleLimit, sampleAdd "0" "a",
            sampleAdd "2020-01-01T00:00:00.000Z" "b"] = some h ∧
        IsList h.heap h.head h.tail entries ∧
        ∃ e ∈ entries, e.2.t < h.oldestT := by
  obtain ⟨h, hrun, hrep⟩ := @represents_historyRun sampleTimegm
    [sampleLimit, sampleAdd "0" "a", sampleAdd "2020-01-01T00:00:00.000Z" "b"]
  refine ⟨h, _, hrun, hrep.list, ?_⟩
  rw [hrep.oldestT]
  decide

end UnrealIrcd.HistoryBackend
