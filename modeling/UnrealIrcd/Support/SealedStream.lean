import Mathlib.Data.List.Basic

/-!
# Sealed streams

A sealer turns one message after another into sealed blocks, and opens them
again in the same order.  Messages of a fixed size followed by one shorter
message form a sealed stream; `SealedStream` says which plain text such a
stream contains, in the terms in which a reader can consume it, and
`sealedStream_sealAll` shows that sealing produces it.
-/

namespace UnrealIrcd.Support

/-- What a message says about its position in the stream. -/
inductive SealTag where
  | message
  | final
  deriving DecidableEq, Repr

/-- A stateful sealer over an alphabet, with a fixed overhead per message.
`Inverts` relates the state of the sealing side to the state of the opening
side that can open what is sealed next. -/
structure Sealer (α : Type) where
  Key : Type
  Push : Type
  Pull : Type
  /-- Number of symbols a sealed message is longer than the message. -/
  overhead : ℕ
  initPush : List α → Key → Push
  initPull : List α → Key → Option Pull
  push : Push → List α → SealTag → List α × Push
  pull : Pull → List α → Option (List α × Pull)
  Inverts : Push → Pull → Prop
  initPull_inverts : ∀ header key, ∃ st,
    initPull header key = some st ∧ Inverts (initPush header key) st
  pull_inverts : ∀ {ps st} message tag, Inverts ps st → ∃ st',
    pull st (push ps message tag).1 = some (message, st') ∧
      Inverts (push ps message tag).2 st'
  length_push : ∀ ps message tag,
    (push ps message tag).1.length = message.length + overhead

namespace Sealer

variable {α : Type}

/-- The sealer that pads every message and hides nothing. -/
def padding (filler : α) (overhead : ℕ) : Sealer α where
  Key := Unit
  Push := Unit
  Pull := Unit
  overhead := overhead
  initPush _ _ := ()
  initPull _ _ := some ()
  push _ message _ := (message ++ List.replicate overhead filler, ())
  pull _ block := some (block.take (block.length - overhead), ())
  Inverts _ _ := True
  initPull_inverts := by simp
  pull_inverts := by simp
  length_push := by simp

variable (S : Sealer α)

/-- Seal messages one after the other. -/
def sealAll (ps : S.Push) : List (List α) → List α × S.Push
  | [] => ([], ps)
  | message :: messages =>
    let first := S.push ps message .message
    let later := sealAll first.2 messages
    (first.1 ++ later.1, later.2)

theorem sealAll_append (ps : S.Push) (messages messages' : List (List α)) :
    S.sealAll ps (messages ++ messages') =
      ((S.sealAll ps messages).1 ++
        (S.sealAll (S.sealAll ps messages).2 messages').1,
        (S.sealAll (S.sealAll ps messages).2 messages').2) := by
  induction messages generalizing ps with
  | nil => simp [sealAll]
  | cons first messages ih => simp [sealAll, ih]

/-- `SealedStream size st blocks plain`: opening `blocks` from state `st` gives
`plain`, in messages of `size` symbols and a shorter last one. -/
inductive SealedStream (size : ℕ) : S.Pull → List α → List α → Prop where
  | last {st st' : S.Pull} {block message : List α}
      (hpull : S.pull st block = some (message, st'))
      (hmessage : message.length < size)
      (hblock : block.length = message.length + S.overhead) :
      SealedStream size st block message
  | cons {st st' : S.Pull} {block message blocks plain : List α}
      (hpull : S.pull st block = some (message, st'))
      (hmessage : message.length = size)
      (hblock : block.length = size + S.overhead)
      (hlater : SealedStream size st' blocks plain) :
      SealedStream size st (block ++ blocks) (message ++ plain)

/-- Sealing messages of `size` symbols and a shorter final one produces a
sealed stream of their concatenation. -/
theorem sealedStream_sealAll {size : ℕ} {ps : S.Push} {st : S.Pull}
    {messages : List (List α)} {rest : List α} (hinverts : S.Inverts ps st)
    (hmessages : ∀ message ∈ messages, message.length = size)
    (hrest : rest.length < size) :
    S.SealedStream size st
      ((S.sealAll ps messages).1 ++
        (S.push (S.sealAll ps messages).2 rest .final).1)
      (messages.flatten ++ rest) := by
  induction messages generalizing ps st with
  | nil =>
    obtain ⟨st', hpull, -⟩ := S.pull_inverts rest .final hinverts
    exact .last hpull hrest (S.length_push ps rest .final)
  | cons message messages ih =>
    obtain ⟨st', hpull, hinverts'⟩ := S.pull_inverts message .message hinverts
    have hsize : message.length = size := hmessages message (by simp)
    have hblock := S.length_push ps message .message
    rw [hsize] at hblock
    have hlater := ih hinverts'
      fun m hm => hmessages m (List.mem_cons_of_mem message hm)
    simpa [sealAll] using SealedStream.cons hpull hsize hblock hlater

end Sealer

end UnrealIrcd.Support
