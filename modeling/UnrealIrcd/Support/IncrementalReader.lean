import Mathlib.Data.List.Basic

/-!
# Incremental readers

A component that is fed a stream in chunks and asked for one item at a time,
in any interleaving.  The stream has a reference meaning `split`: the items
contained in the bytes received so far.  `IncrementalReader` lists what one
`feed` and one `next` have to satisfy locally, and `run_outputs_eq_reference`
concludes that every interleaving returns exactly the items of the reference
meaning, one after the other.
-/

namespace UnrealIrcd.Support

open List

variable {α β σ : Type*}

/-- One call made to a reader. -/
inductive ReaderOp (α : Type*) where
  /-- More of the stream arrives. -/
  | feed (chunk : List α)
  /-- The next item is requested. -/
  | next
  deriving DecidableEq, Repr

namespace ReaderOp

/-- The part of the stream that one call delivers. -/
def chunk : ReaderOp α → List α
  | feed chunk => chunk
  | next => []

def received (ops : List (ReaderOp α)) : List α :=
  ops.flatMap chunk

end ReaderOp

/-- A reader with state `σ`, and the local laws that tie it to `split`. -/
structure IncrementalReader (α β σ : Type*) where
  /-- The reference meaning of a stream. -/
  split : List α → List β
  /-- The part of the stream the reader still holds. -/
  pending : σ → List α
  /-- The reader before the first call. -/
  init : σ
  /-- Accept a chunk. -/
  feed : σ → List α → σ
  /-- Ask for an item. -/
  next : σ → Option β × σ
  pending_init : pending init = []
  pending_feed : ∀ s chunk, pending (feed s chunk) = pending s ++ chunk
  /-- A request removes exactly what it returns, whatever arrives later. -/
  split_next : ∀ s tail, split (pending s ++ tail) =
    (next s).1.toList ++ split (pending (next s).2 ++ tail)
  /-- A request comes back empty only if no item is held. -/
  split_of_next_none : ∀ s, (next s).1 = none → split (pending s) = []
  /-- What stays held is an end segment of what was held. -/
  pending_next : ∀ s, pending (next s).2 <:+ pending s

namespace IncrementalReader

variable (R : IncrementalReader α β σ)

/-- One call: the answer to a request is recorded, a chunk has no answer. -/
def step (s : σ) : ReaderOp α → List (Option β) × σ
  | .feed chunk => ([], R.feed s chunk)
  | .next => ([(R.next s).1], (R.next s).2)

def run (s : σ) : List (ReaderOp α) → List (Option β) × σ
  | [] => ([], s)
  | op :: ops =>
    let first := R.step s op
    let later := run first.2 ops
    (first.1 ++ later.1, later.2)

/-- The reference machine remembers the whole stream and how many items it
has returned. -/
structure Reference (α : Type*) where
  received : List α
  returned : ℕ

/-- A request on the reference machine returns the first item of the stream
that was not returned before. -/
def referenceStep (split : List α → List β) (m : Reference α) :
    ReaderOp α → List (Option β) × Reference α
  | .feed chunk => ([], { m with received := m.received ++ chunk })
  | .next =>
    match (split m.received)[m.returned]? with
    | none => ([none], m)
    | some item => ([some item], { m with returned := m.returned + 1 })

def referenceRun (split : List α → List β) (m : Reference α) :
    List (ReaderOp α) → List (Option β) × Reference α
  | [] => ([], m)
  | op :: ops =>
    let first := referenceStep split m op
    let later := referenceRun split first.2 ops
    (first.1 ++ later.1, later.2)

/-- The reader and the reference machine agree: the items returned so far
followed by the items still to come are the items of the whole stream, however
it continues, and the reader holds an end segment of it. -/
structure Agrees (s : σ) (m : Reference α) (items : List β) : Prop where
  split_eq : ∀ tail, R.split (m.received ++ tail) =
    items ++ R.split (R.pending s ++ tail)
  returned_eq : m.returned = items.length
  suffix : R.pending s <:+ m.received

theorem agrees_init : R.Agrees R.init ⟨[], 0⟩ [] := by
  constructor <;> simp [R.pending_init]

/-- One call gives the same answer on both machines and keeps them in
agreement. -/
theorem step_agrees {s : σ} {m : Reference α} {items : List β}
    (h : R.Agrees s m items) (op : ReaderOp α) :
    (R.step s op).1 = (referenceStep R.split m op).1 ∧
      R.Agrees (R.step s op).2 (referenceStep R.split m op).2
        (items ++ (R.step s op).1.filterMap id) := by
  cases op with
  | feed chunk =>
    refine ⟨rfl, ⟨?_, ?_, ?_⟩⟩
    · intro tail
      have hsplit := h.split_eq (chunk ++ tail)
      simpa [step, referenceStep, R.pending_feed] using hsplit
    · simpa [step, referenceStep] using h.returned_eq
    · obtain ⟨gone, hgone⟩ := h.suffix
      exact ⟨gone, by simp [step, referenceStep, R.pending_feed, ← hgone]⟩
  | next =>
    -- What is returned moves from the items to come to those returned.
    have hsplit : ∀ tail, R.split (m.received ++ tail) =
        (items ++ (R.next s).1.toList) ++
          R.split (R.pending (R.next s).2 ++ tail) := fun tail => by
      rw [h.split_eq, R.split_next, append_assoc]
    have hsuffix := (R.pending_next s).trans h.suffix
    have hreceived := hsplit []
    rw [append_nil, append_nil] at hreceived
    cases hnext : (R.next s).1 with
    | none =>
      have hnothing : (R.split m.received)[m.returned]? = none := by
        have hitems := h.split_eq []
        rw [append_nil, append_nil, R.split_of_next_none s hnext] at hitems
        simp [hitems, h.returned_eq]
      rw [hnext] at hsplit
      simp only [step, referenceStep, hnothing, hnext]
      exact ⟨trivial, by simpa using hsplit, by simpa using h.returned_eq,
        hsuffix⟩
    | some item =>
      have hitem : (R.split m.received)[m.returned]? = some item := by
        simp [hreceived, hnext, h.returned_eq]
      rw [hnext] at hsplit
      simp only [step, referenceStep, hitem, hnext]
      exact ⟨trivial, by simpa using hsplit, by simp [h.returned_eq], hsuffix⟩

variable (ops : List (ReaderOp α))

/-- Every sequence of calls gives the answers of the reference machine. -/
theorem run_agrees {s : σ} {m : Reference α} {items : List β}
    (h : R.Agrees s m items) :
    (R.run s ops).1 = (referenceRun R.split m ops).1 ∧
      R.Agrees (R.run s ops).2 (referenceRun R.split m ops).2
        (items ++ (R.run s ops).1.filterMap id) := by
  induction ops generalizing s m items with
  | nil => exact ⟨rfl, by simpa [run, referenceRun] using h⟩
  | cons op ops ih =>
    obtain ⟨hanswer, hagrees⟩ := R.step_agrees h op
    obtain ⟨hanswers, hfinal⟩ := ih hagrees
    refine ⟨?_, ?_⟩
    · simp only [run, referenceRun]
      rw [hanswer, hanswers]
    · simpa [run, referenceRun] using hfinal

theorem referenceRun_received (split : List α → List β) (m : Reference α) :
    (referenceRun split m ops).2.received =
      m.received ++ ReaderOp.received ops := by
  induction ops generalizing m with
  | nil => simp [referenceRun, ReaderOp.received]
  | cons op ops ih =>
    have hstep : (referenceStep split m op).2.received =
        m.received ++ op.chunk := by
      cases op with
      | feed chunk => rfl
      | next =>
        simp only [referenceStep, ReaderOp.chunk]
        split <;> simp
    simp [referenceRun, ih, hstep, ReaderOp.received]

/-- From the initial state, every interleaving answers as the reference
machine does. -/
theorem run_outputs_eq_reference :
    (R.run R.init ops).1 = (referenceRun R.split ⟨[], 0⟩ ops).1 :=
  (R.run_agrees ops R.agrees_init).1

/-- The items returned by a run, followed by the items of what is still held,
are the items of the whole stream, however it continues. -/
theorem run_split_eq (tail : List α) :
    R.split (ReaderOp.received ops ++ tail) =
      (R.run R.init ops).1.filterMap id ++
        R.split (R.pending (R.run R.init ops).2 ++ tail) := by
  have h := (R.run_agrees ops R.agrees_init).2.split_eq tail
  simpa [referenceRun_received] using h

/-- What a run leaves pending is an end segment of the stream. -/
theorem run_pending_suffix :
    R.pending (R.run R.init ops).2 <:+ ReaderOp.received ops := by
  simpa [referenceRun_received] using
    (R.run_agrees ops R.agrees_init).2.suffix

end IncrementalReader

end UnrealIrcd.Support
