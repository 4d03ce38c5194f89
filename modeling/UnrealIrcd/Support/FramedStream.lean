import Mathlib.Data.List.Basic

/-!
# Framed streams

A stream of frames arrives in chunks.  The reader keeps what is left over from
the chunks before, takes complete frames off the front one after the other, and
delivers each to a component that may refuse to go on.

`Framing` says what taking off a frame has to satisfy: a complete frame is
recognised whatever follows it.  Then the outcome depends on the stream only,
not on the chunks (`foldl_read`), and the frames of an encoded sequence are
delivered one by one (`drain_frames`).
-/

namespace UnrealIrcd.Support

open List

variable {α β σ ι : Type*}

/-- How the frame at the front of a buffer is recognised: its size and content,
or nothing if it is not complete. -/
structure Framing (α β : Type*) where
  decode : List α → Option (ℕ × β)
  decode_pos : ∀ {buf n x}, decode buf = some (n, x) → 0 < n
  decode_le : ∀ {buf n x}, decode buf = some (n, x) → n ≤ buf.length
  decode_append : ∀ {buf r}, decode buf = some r →
    ∀ tail, decode (buf ++ tail) = some r

/-- A reader: the state of the component, and the part of the stream that is
held, or nothing if the component has refused to go on. -/
structure FrameReader (α σ : Type*) where
  state : σ
  held : Option (List α)

namespace Framing

variable (F : Framing α β) (deliver : σ → β → σ × Bool)

theorem decode_nil : F.decode [] = none := by
  cases h : F.decode [] with
  | none => rfl
  | some r =>
    have hpos := F.decode_pos h
    have hle := F.decode_le h
    rw [length_nil] at hle
    omega

/-- The frames at the front of a buffer are delivered. -/
def drain : ℕ → σ → List α → FrameReader α σ
  | 0, s, buf => ⟨s, some buf⟩
  | fuel + 1, s, buf =>
    match F.decode buf with
    | none => ⟨s, some buf⟩
    | some (n, x) =>
      if (deliver s x).2 then drain fuel (deliver s x).1 (buf.drop n)
      else ⟨(deliver s x).1, none⟩

theorem drain_of_none {s : σ} {buf : List α} (h : F.decode buf = none)
    (fuel : ℕ) : F.drain deliver fuel s buf = ⟨s, some buf⟩ := by
  cases fuel with
  | zero => rfl
  | succ fuel => rw [drain, h]

theorem drain_of_some {s : σ} {buf : List α} {n : ℕ} {x : β}
    (h : F.decode buf = some (n, x)) (fuel : ℕ) :
    F.drain deliver (fuel + 1) s buf =
      if (deliver s x).2 then F.drain deliver fuel (deliver s x).1 (buf.drop n)
      else ⟨(deliver s x).1, none⟩ := by
  rw [drain, h]

/-- The length of the buffer is enough fuel. -/
theorem drain_fuel (s : σ) (buf : List α) {fuel : ℕ}
    (hfuel : buf.length ≤ fuel) :
    F.drain deliver fuel s buf = F.drain deliver buf.length s buf := by
  induction hn : buf.length using Nat.strongRecOn
    generalizing s buf fuel with
  | _ n ih =>
    cases hdecode : F.decode buf with
    | none => rw [F.drain_of_none deliver hdecode, F.drain_of_none deliver hdecode]
    | some r =>
      obtain ⟨size, x⟩ := r
      have hpos := F.decode_pos hdecode
      have hle := F.decode_le hdecode
      obtain ⟨fuel, rfl⟩ : ∃ k, fuel = k + 1 := ⟨fuel - 1, by omega⟩
      obtain ⟨m, rfl⟩ : ∃ k, n = k + 1 := ⟨n - 1, by omega⟩
      have hdrop : (buf.drop size).length = m + 1 - size := by
        rw [length_drop, hn]
      rw [F.drain_of_some deliver hdecode, F.drain_of_some deliver hdecode,
        ih (m + 1 - size) (by omega) _ _ (by omega) hdrop,
        ih (m + 1 - size) (by omega) _ _ (by omega : _ ≤ m) hdrop]

/-- The frames of the stream held and of a chunk are delivered. -/
def read (r : FrameReader α σ) (chunk : List α) : FrameReader α σ :=
  match r.held with
  | none => r
  | some held =>
    F.drain deliver (held ++ chunk).length r.state (held ++ chunk)

/-- The rest of the buffer is held until the next chunk. -/
theorem read_drain (s : σ) (buf tail : List α) :
    F.read deliver (F.drain deliver buf.length s buf) tail =
      F.drain deliver (buf ++ tail).length s (buf ++ tail) := by
  induction hn : buf.length using Nat.strongRecOn
    generalizing s buf with
  | _ n ih =>
    cases hdecode : F.decode buf with
    | none => rw [F.drain_of_none deliver hdecode, read]
    | some r =>
      obtain ⟨size, x⟩ := r
      have hpos := F.decode_pos hdecode
      have hle := F.decode_le hdecode
      obtain ⟨m, rfl⟩ : ∃ k, n = k + 1 := ⟨n - 1, by omega⟩
      have hlength : (buf ++ tail).length = m + tail.length + 1 := by
        rw [length_append]
        omega
      rw [hlength, F.drain_of_some deliver hdecode,
        F.drain_of_some deliver (F.decode_append hdecode tail)]
      split
      · have hdrop : (buf.drop size).length = m + 1 - size := by
          rw [length_drop, hn]
        rw [drop_append_of_le_length hle,
          F.drain_fuel deliver _ (buf.drop size) (by omega : _ ≤ m),
          F.drain_fuel deliver _ (buf.drop size ++ tail)
            (by rw [length_append]; omega), hdrop,
          ih (m + 1 - size) (by omega) _ _ hdrop]
      · rfl

theorem read_read (r : FrameReader α σ) (chunk chunk' : List α) :
    F.read deliver (F.read deliver r chunk) chunk' =
      F.read deliver r (chunk ++ chunk') := by
  cases hheld : r.held with
  | none => simp only [read, hheld]
  | some held =>
    have hfirst : F.read deliver r chunk =
        F.drain deliver (held ++ chunk).length r.state (held ++ chunk) := by
      simp only [read, hheld]
    rw [hfirst, F.read_drain]
    simp only [read, hheld, append_assoc]

/-- The outcome depends on the stream, not on the chunks. -/
theorem foldl_read (s : σ) (chunks : List (List α)) :
    chunks.foldl (F.read deliver) ⟨s, some []⟩ =
      F.drain deliver chunks.flatten.length s chunks.flatten := by
  have hfold : ∀ (r : FrameReader α σ) (chunk : List α),
      chunks.foldl (F.read deliver) (F.read deliver r chunk) =
        F.read deliver r (chunk ++ chunks.flatten) := by
    induction chunks with
    | nil => intro r chunk; simp
    | cons c chunks ih =>
      intro r chunk
      rw [foldl_cons, read_read, ih, flatten_cons, append_assoc]
  have hstart : F.read deliver (⟨s, some []⟩ : FrameReader α σ) [] =
      ⟨s, some []⟩ := by
    rw [read]
    exact F.drain_of_none deliver F.decode_nil _
  rw [← hstart, hfold]
  rfl

/-! ## Encoded frames -/

/-- Items are delivered one by one, until one is refused. -/
def deliverAll (s : σ) : List β → σ × Bool
  | [] => (s, true)
  | x :: xs =>
    if (deliver s x).2 then deliverAll (deliver s x).1 xs
    else ((deliver s x).1, false)

/-- The frames of an encoded sequence are delivered one by one, and then those
of what follows. -/
theorem drain_frames {encode : ι → List α} {item : ι → β} (fs : List ι)
    (hdecode : ∀ f ∈ fs, ∀ tail, ∃ n,
      F.decode (encode f ++ tail) = some (n, item f) ∧
        ((∃ s, (deliver s (item f)).2 = true) → n = (encode f).length)) (s : σ)
    (tail : List α) {fuel : ℕ}
    (hfuel : (fs.flatMap encode ++ tail).length ≤ fuel) :
    F.drain deliver fuel s (fs.flatMap encode ++ tail) =
      if (deliverAll deliver s (fs.map item)).2 then
        F.drain deliver tail.length (deliverAll deliver s (fs.map item)).1 tail
      else ⟨(deliverAll deliver s (fs.map item)).1, none⟩ := by
  induction fs generalizing s fuel with
  | nil =>
    simp only [map_nil, deliverAll, if_true]
    exact F.drain_fuel deliver s tail hfuel
  | cons f fs ih =>
    obtain ⟨n, hn, hsize⟩ := hdecode f mem_cons_self (fs.flatMap encode ++ tail)
    have hpos := F.decode_pos hn
    have hle := F.decode_le hn
    rw [flatMap_cons, append_assoc] at hfuel ⊢
    obtain ⟨fuel, rfl⟩ : ∃ k, fuel = k + 1 := ⟨fuel - 1, by omega⟩
    rw [F.drain_of_some deliver hn, map_cons, deliverAll]
    by_cases hgo : (deliver s (item f)).2 = true
    · have hlength := hsize ⟨s, hgo⟩
      rw [if_pos hgo, if_pos hgo, hlength, drop_left]
      refine ih (fun g hg => hdecode g (mem_cons_of_mem f hg)) _ ?_
      rw [length_append] at hfuel hle
      omega
    · rw [if_neg hgo, if_neg hgo, if_neg (by simp)]

end Framing

end UnrealIrcd.Support
