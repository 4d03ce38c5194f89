import Mathlib.Data.List.Basic

/-!
# Splitting a stream into lines

The reference meaning of a line-oriented input stream, over an arbitrary
alphabet.  The stream is cut at terminators, blanks are stripped from the
front of every terminated segment, empty segments are dropped, and a segment
longer than a limit is cut down to it.  Whatever follows the last terminator
is not a line yet.

Nothing here refers to a particular program: a reader that extracts one line
at a time is compared with `lineSplit` by the lemmas at the end.
-/

namespace UnrealIrcd.Support

variable {α : Type*}

/-- The segments of `xs` that are followed by a terminator. -/
def terminatedSegments (isEol : α → Bool) (xs : List α) : List (List α) :=
  (xs.splitOnP isEol).dropLast

/-- The lines of `xs`: terminated segments without their leading blanks,
nonempty, and cut to `limit` symbols. -/
def lineSplit (isEol isBlank : α → Bool) (limit : ℕ) (xs : List α) :
    List (List α) :=
  (((terminatedSegments isEol xs).map (List.dropWhile isBlank)).filter
    (fun line => !line.isEmpty)).map (List.take limit)

section Segments

variable {isEol : α → Bool}

/-- Every stream either has no terminator or starts with a terminated
segment. -/
theorem exists_segment_or_forall_not_eol (isEol : α → Bool) (xs : List α) :
    (∀ x ∈ xs, isEol x = false) ∨
      ∃ segment e rest, xs = segment ++ e :: rest ∧
        (∀ x ∈ segment, isEol x = false) ∧ isEol e = true := by
  induction xs with
  | nil => exact .inl (by simp)
  | cons x xs ih =>
    cases hx : isEol x with
    | true => exact .inr ⟨[], x, xs, by simp, by simp, hx⟩
    | false =>
      rcases ih with hnone | ⟨segment, e, rest, rfl, hsegment, he⟩
      · exact .inl (by simpa [hx] using hnone)
      · exact .inr ⟨x :: segment, e, rest, by simp,
          by simpa [hx] using hsegment, he⟩

end Segments

section Lines

variable {isEol isBlank : α → Bool} {limit : ℕ}

theorem lineSplit_eq_nil {xs : List α} (hxs : ∀ x ∈ xs, isEol x = false) :
    lineSplit isEol isBlank limit xs = [] := by
  rw [lineSplit, terminatedSegments, List.splitOnP_eq_singleton hxs]
  rfl

/-- A terminated segment contributes at most one line, in front of the lines
of what follows. -/
theorem lineSplit_append_cons {segment : List α} {e : α} (rest : List α)
    (hsegment : ∀ x ∈ segment, isEol x = false) (he : isEol e = true) :
    lineSplit isEol isBlank limit (segment ++ e :: rest) =
      (if (segment.dropWhile isBlank).isEmpty then []
        else [(segment.dropWhile isBlank).take limit]) ++
        lineSplit isEol isBlank limit rest := by
  rw [lineSplit, terminatedSegments,
    List.splitOnP_append_cons_of_forall_mem hsegment e he rest,
    List.dropLast_cons_of_ne_nil (List.splitOnP_ne_nil isEol rest)]
  cases hline : (segment.dropWhile isBlank).isEmpty with
  | true | false => simp [lineSplit, terminatedSegments, hline]

/-- A leading terminator or blank never changes the lines. -/
theorem lineSplit_cons_of_eol_or_blank
    {x : α} (hx : isEol x = true ∨ isBlank x = true) (xs : List α) :
    lineSplit isEol isBlank limit (x :: xs) =
      lineSplit isEol isBlank limit xs := by
  by_cases heol : isEol x = true
  · rw [← List.nil_append (x :: xs), lineSplit_append_cons xs (by simp) heol]
    simp
  · have hblank : isBlank x = true := hx.resolve_left heol
    have hnot : isEol x = false := by simpa using heol
    -- The blank joins the segment in progress, where it is stripped again.
    rcases exists_segment_or_forall_not_eol isEol xs with
      hnone | ⟨segment, e, rest, rfl, hsegment, he⟩
    · rw [lineSplit_eq_nil hnone,
        lineSplit_eq_nil (by simpa [hnot] using hnone)]
    · have hcons : ∀ y ∈ x :: segment, isEol y = false := by
        simpa [hnot] using hsegment
      rw [← List.cons_append, lineSplit_append_cons rest hcons he,
        lineSplit_append_cons rest hsegment he]
      simp [hblank]

/-- A stretch of leading terminators and blanks never changes the lines. -/
theorem lineSplit_append_of_eol_or_blank {skipped : List α}
    (hskipped : ∀ x ∈ skipped, isEol x = true ∨ isBlank x = true)
    (xs : List α) :
    lineSplit isEol isBlank limit (skipped ++ xs) =
      lineSplit isEol isBlank limit xs := by
  induction skipped with
  | nil => rfl
  | cons x skipped ih =>
    rw [List.cons_append, lineSplit_cons_of_eol_or_blank (hskipped x (by simp))]
    exact ih fun y hy => hskipped y (by simp [hy])

/-- A stream consists of skipped terminators and blanks, then either nothing,
or the beginning of a line, or a whole terminated line. -/
theorem exists_first_line (isEol isBlank : α → Bool) (xs : List α) :
    (∀ x ∈ xs, isEol x = true ∨ isBlank x = true) ∨
      ∃ skipped x line rest, xs = skipped ++ (x :: line) ++ rest ∧
        (∀ y ∈ skipped, isEol y = true ∨ isBlank y = true) ∧
        isBlank x = false ∧ (∀ y ∈ x :: line, isEol y = false) ∧
        (rest = [] ∨ ∃ e more, rest = e :: more ∧ isEol e = true) := by
  induction xs with
  | nil => exact .inl (by simp)
  | cons x xs ih =>
    by_cases hskip : isEol x = true ∨ isBlank x = true
    · rcases ih with hall | ⟨skipped, y, line, rest, rfl, hskipped, h⟩
      · exact .inl (by simpa [hskip] using hall)
      · refine .inr ⟨x :: skipped, y, line, rest, by simp, ?_, h⟩
        simpa [hskip] using hskipped
    · have hx : isEol x = false ∧ isBlank x = false := by
        simpa using hskip
      right
      rcases exists_segment_or_forall_not_eol isEol xs with
        hnone | ⟨line, e, more, rfl, hline, he⟩
      · exact ⟨[], x, xs, [], by simp, by simp, hx.2,
          by simpa [hx.1] using hnone, .inl rfl⟩
      · exact ⟨[], x, line, e :: more, by simp, by simp, hx.2,
          by simpa [hx.1] using hline, .inr ⟨e, more, rfl, he⟩⟩

end Lines

end UnrealIrcd.Support
