import UnrealIrcd.HistoryBackend.Invariants
import UnrealIrcd.Support.Runs

/-!
# Duplicate lines in history logs

A line is compared with the lines that the walk backwards to its place passes.
The walk ends at the first line that is not later, so a line with the same
identifier and time is found only if no other line of that time was stored
after it.
-/

namespace UnrealIrcd.HistoryBackend

open Support MessageTags

/-- The lines have the same identifier and time. -/
def SameLine (l l' : HistoryLogLine) : Prop :=
  l.msgid = l'.msgid ∧ l.time = l'.time

instance (l l' : HistoryLogLine) : Decidable (SameLine l l') :=
  inferInstanceAs (Decidable (_ ∧ _))

/-- No two lines have the same identifier and time. -/
def NoDuplicates (es : List Entry) : Prop :=
  es.Pairwise fun e e' => ¬ SameLine e.2 e'.2

instance (es : List Entry) : Decidable (NoDuplicates es) :=
  inferInstanceAs (Decidable (List.Pairwise _ _))

/-- A line with the same identifier that is not from an earlier second is
followed by lines of a later time only. -/
def Noticed (es : List Entry) (l : HistoryLogLine) : Prop :=
  ∃ xs e ys, es = xs ++ e :: ys ∧ e.2.msgid = l.msgid ∧ l.t ≤ e.2.t ∧
    ∀ y ∈ ys, Later y.2 l

theorem split_eq_none_iff (l : HistoryLogLine) (before passed : List Entry) :
    Log.split l before passed = none ↔
      ∃ ys e xs, before = ys ++ e :: xs ∧ e.2.msgid = l.msgid ∧
        l.t ≤ e.2.t ∧ ∀ y ∈ ys, Later y.2 l := by
  induction before generalizing passed with
  | nil => simp [Log.split]
  | cons x before ih =>
    rw [Log.split]
    constructor
    · intro h
      split_ifs at h with ht hid hsame
      · exact ⟨[], x, before, rfl, hid, not_lt.mp ht, by simp⟩
      · obtain ⟨ys, e, xs, rfl, hmsgid, hle, hys⟩ := (ih _).mp h
        exact ⟨x :: ys, e, xs, rfl, hmsgid, hle,
          List.forall_mem_cons.mpr ⟨later_of_not ht hsame, hys⟩⟩
    · rintro ⟨ys, e, xs, heq, hmsgid, hle, hys⟩
      cases ys with
      | nil =>
        cases heq
        rw [if_neg (not_lt.mpr hle), if_pos hmsgid]
      | cons y ys =>
        cases heq
        have hlater : Later x.2 l := hys x List.mem_cons_self
        have hnot := mt not_later_iff.mpr (not_not.mpr hlater)
        rw [not_or] at hnot
        rw [if_neg hnot.1, if_neg hnot.2]
        split_ifs
        · rfl
        · exact (ih _).mpr ⟨ys, e, xs, rfl, hmsgid, hle,
            fun z hz => hys z (List.mem_cons_of_mem x hz)⟩

theorem split_reverse_eq_none_iff (l : HistoryLogLine) (es : List Entry) :
    Log.split l es.reverse [] = none ↔ Noticed es l := by
  rw [split_eq_none_iff]
  constructor
  · rintro ⟨ys, e, xs, heq, hmsgid, hle, hys⟩
    refine ⟨xs.reverse, e, ys.reverse, ?_, hmsgid, hle, ?_⟩
    · rw [← List.reverse_reverse es, heq]
      simp
    · simpa using hys
  · rintro ⟨xs, e, ys, rfl, hmsgid, hle, hys⟩
    exact ⟨ys.reverse, e, xs.reverse, by simp, hmsgid, hle, by simpa using hys⟩

/-- If there is a line with the same identifier and time, it is noticed. -/
def Recognised (log : Log) (l : HistoryLogLine) : Prop :=
  (∃ e ∈ log.entries, SameLine e.2 l) → Noticed log.entries l

/-- The log to which a line is added, once there is room for it. -/
def roomFor (log : Log) (l : HistoryLogLine) : Log :=
  log.defaultLimits.evict l.numLines

theorem noDuplicates_place_iff {log : Log} (h : NoDuplicates log.entries)
    (l : HistoryLogLine) :
    NoDuplicates (log.place l).1.entries ↔ Recognised log l := by
  unfold Recognised
  rw [← split_reverse_eq_none_iff, Log.place]
  cases hsplit : Log.split l log.entries.reverse [] with
  | none => simpa using h
  | some parts =>
    obtain ⟨xs, ys⟩ := parts
    have hparts : xs ++ ys = log.entries := by
      simpa using split_append hsplit
    have hmem : ∀ e, e ∈ log.entries ↔ e ∈ xs ∨ e ∈ ys := by
      intro e
      rw [← hparts, List.mem_append]
    unfold NoDuplicates at h ⊢
    rw [← hparts, List.pairwise_append] at h
    obtain ⟨hxs, hys, hxy⟩ := h
    simp only [reduceCtorEq, imp_false, not_exists, not_and]
    rw [List.pairwise_append, List.pairwise_cons]
    constructor
    · rintro ⟨-, ⟨hafter, -⟩, hbefore⟩ e he hsame
      rcases (hmem e).mp he with he | he
      · exact hbefore e he _ List.mem_cons_self hsame
      · exact hafter e he ⟨hsame.1.symm, hsame.2.symm⟩
    · intro hnone
      refine ⟨hxs, ⟨?_, hys⟩, ?_⟩
      · intro y hy hsame
        exact hnone y ((hmem y).mpr (.inr hy))
          ⟨hsame.1.symm, hsame.2.symm⟩
      · intro x hx y hy
        rcases List.mem_cons.mp hy with rfl | hy
        · exact hnone x ((hmem x).mpr (.inl hx))
        · exact hxy x hx y hy

theorem noDuplicates_apply_iff {timegm : Tm → ℤ} {log : Log}
    (h : NoDuplicates log.entries) (op : HistoryOp) :
    NoDuplicates (log.apply timegm op).entries ↔
      ∀ l ∈ op.addedLine timegm, Recognised (roomFor log l) l := by
  rcases @apply_cases timegm log op with ⟨l, hl, happly⟩ | ⟨hnone, hred⟩
  · have hroom : NoDuplicates (roomFor log l).entries :=
      h.sublist (reduced_room l.numLines log).sublist
    rw [happly]
    change NoDuplicates ((roomFor log l).place l).1.entries ↔ _
    rw [noDuplicates_place_iff hroom]
    constructor
    · intro hrec l' hl'
      cases Option.mem_unique hl hl'
      exact hrec
    · intro hall
      exact hall l hl
  · rw [hnone]
    exact iff_of_true (h.sublist hred.sublist) (by simp)

/-- In no state of a run two lines share identifier and time, exactly if every
line with the identifier and time of a stored line is noticed; the log in memory
is the list of these lines. -/
theorem noDuplicates_historyRun_iff (timegm : Tm → ℤ) (ops : List HistoryOp) :
    (∃ h, historyRun timegm ops = some h ∧
        IsList h.heap h.head h.tail (Log.run timegm ops).entries) ∧
      ((∀ ops', ops' <+: ops →
          NoDuplicates (Log.run timegm ops').entries) ↔
        ∀ ops' op, ops' ++ [op] <+: ops → ∀ l ∈ op.addedLine timegm,
          Recognised (roomFor (Log.run timegm ops') l) l) := by
  constructor
  · obtain ⟨h, hrun, hrep⟩ := @represents_historyRun timegm ops
    exact ⟨h, hrun, hrep.list⟩
  · exact @forall_prefix_iff Log HistoryOp (Log.apply timegm) Log.empty
      (fun _ => True) (fun log => NoDuplicates log.entries)
      (fun log op => ∀ l ∈ op.addedLine timegm, Recognised (roomFor log l) l)
      trivial (fun _ _ _ => trivial) List.Pairwise.nil
      (fun log op _ hnone => noDuplicates_apply_iff hnone op) ops

/-- A line is stored twice if another line of the same time was stored in
between. -/
theorem historyRun_duplicate :
    ∃ h, historyRun sampleTimegm
          [sampleLimit, sampleAdd "2020-01-01T00:00:00.000Z" "a",
            sampleAdd "2020-01-01T00:00:00.000Z" "b",
            sampleAdd "2020-01-01T00:00:00.000Z" "a"] = some h ∧
      ∃ entries, IsList h.heap h.head h.tail entries ∧
        ¬ NoDuplicates entries := by
  obtain ⟨h, hrun, hrep⟩ := @represents_historyRun sampleTimegm
    [sampleLimit, sampleAdd "2020-01-01T00:00:00.000Z" "a",
      sampleAdd "2020-01-01T00:00:00.000Z" "b",
      sampleAdd "2020-01-01T00:00:00.000Z" "a"]
  exact ⟨h, hrun, _, hrep.list, by decide⟩

end UnrealIrcd.HistoryBackend
