import UnrealIrcd.Channels.Floodprot

/-!
# Counting floods

`do_floodprot` counts the events of a type on a channel.  A window starts with an
event, lasts for the period, and has any number of events; the counter of the
channel is an `unsigned short`, and its window ends a second earlier.
-/

namespace UnrealIrcd.Channels

/-- The counters of a type in `ChannelFloodProtection`. -/
structure FloodCounter where
  timer : ℤ
  counter : ℕ
  counterUnknownUsers : ℕ
  deriving DecidableEq

structure FloodEvent where
  now : ℤ
  exempt : Bool
  unknownUser : Bool
  deriving DecidableEq

/-- `do_floodprot`, without the action. -/
def doFloodprot (fld : FloodSettings) (what : Flood) (c : FloodCounter)
    (e : FloodEvent) : FloodCounter × Bool :=
  if (fld.limits what).limit = 0 ∨ e.exempt then (c, false)
  else if fld.per ≤ e.now - c.timer then
    (⟨e.now, 1, e.unknownUser.toNat⟩, false)
  else
    let counter := (c.counter + 1) % 2 ^ 16
    let unknownUsers := (c.counterUnknownUsers + e.unknownUser.toNat) % 2 ^ 16
    (⟨c.timer, counter, unknownUsers⟩,
      decide ((fld.limits what).limit < counter ∧ e.now - c.timer < fld.per))

/-- The start of the window after an event, and the events in it. -/
def nextWindow (per : ℕ) (w : Option (ℤ × ℕ)) (e : FloodEvent) :
    Option (ℤ × ℕ) :=
  if e.exempt then w
  else
    match w with
    | none => some (e.now, 1)
    | some (start, n) =>
      if per < e.now - start then some (e.now, 1) else some (start, n + 1)

/-- The event does not come right at the end of the window or after 65535
others.  The timer of the channel starts at zero. -/
def Countable (per : ℕ) (w : Option (ℤ × ℕ)) (e : FloodEvent) : Prop :=
  match w with
  | none => per ≤ e.now
  | some (start, n) =>
    e.now - start ≠ per ∧ (e.now - start < per → n + 1 < 2 ^ 16)

/-- The counter of the channel and the window after a sequence of events. -/
inductive CountedRun (fld : FloodSettings) (what : Flood) :
    FloodCounter → Option (ℤ × ℕ) → Prop where
  | start : CountedRun fld what ⟨0, 0, 0⟩ none
  | step {c : FloodCounter} {w : Option (ℤ × ℕ)} (e : FloodEvent)
      (h : CountedRun fld what c w) (he : Countable fld.per w e) :
      CountedRun fld what (doFloodprot fld what c e).1
        (nextWindow fld.per w e)

variable {fld : FloodSettings} {what : Flood} {c : FloodCounter}
  {w : Option (ℤ × ℕ)} {e : FloodEvent}

def FloodCounter.Agrees (c : FloodCounter) : Option (ℤ × ℕ) → Prop
  | none => c.timer = 0
  | some (start, n) => c.timer = start ∧ c.counter = n

theorem agrees_doFloodprot (hlimit : (fld.limits what).limit ≠ 0)
    (hc : c.Agrees w) (he : Countable fld.per w e) :
    (doFloodprot fld what c e).1.Agrees (nextWindow fld.per w e) ∧
      ((doFloodprot fld what c e).2 = true ↔ e.exempt = false ∧
        (fld.limits what).limit <
          (nextWindow fld.per w e).elim 0 Prod.snd) := by
  unfold doFloodprot nextWindow
  cases hexempt : e.exempt with
  | true => simpa using hc
  | false =>
    rw [if_neg (by simp [hlimit])]
    cases w with
    | none =>
      have hc : c.timer = 0 := hc
      have he : (fld.per : ℤ) ≤ e.now := he
      rw [if_pos (by omega)]
      simp [FloodCounter.Agrees]
      omega
    | some w =>
      obtain ⟨start, n⟩ := w
      obtain ⟨rfl, rfl⟩ := hc
      obtain ⟨hne, hlt⟩ := he
      by_cases hold : e.now - c.timer < fld.per
      · have hmod : (c.counter + 1) % 65536 = c.counter + 1 :=
          Nat.mod_eq_of_lt (hlt hold)
        simp [FloodCounter.Agrees, hold, hmod, Int.not_le.mpr hold,
          Int.not_lt.mpr hold.le]
      · have hnew : (fld.per : ℤ) < e.now - c.timer := by omega
        simp [FloodCounter.Agrees, hnew, hnew.le]
        omega

theorem CountedRun.agrees (hlimit : (fld.limits what).limit ≠ 0)
    (h : CountedRun fld what c w) : c.Agrees w := by
  induction h with
  | start => rfl
  | step e h he ih => exact (agrees_doFloodprot hlimit ih he).1

/-- After every sequence of countable events, a flood is reported for an event
exactly if it exceeds the limit in its window. -/
theorem doFloodprot_iff (fld : FloodSettings) (what : Flood) (c : FloodCounter)
    (w : Option (ℤ × ℕ)) (e : FloodEvent)
    (hlimit : (fld.limits what).limit ≠ 0) (h : CountedRun fld what c w)
    (he : Countable fld.per w e) :
    (doFloodprot fld what c e).2 = true ↔ e.exempt = false ∧
      (fld.limits what).limit < (nextWindow fld.per w e).elim 0 Prod.snd :=
  (agrees_doFloodprot hlimit (h.agrees hlimit) he).2

/-- `+f [1m]:10`. -/
def oneMessage : FloodSettings := ⟨10, fun _ => ⟨1, 'm', 0⟩⟩

def messageAt (now : ℤ) : FloodEvent := ⟨now, false, false⟩

/-- The second message is one too many. -/
theorem doFloodprot_second :
    (doFloodprot oneMessage .msg (doFloodprot oneMessage .msg ⟨0, 0, 0⟩
      (messageAt 100)).1 (messageAt 100)).2 = true :=
  (doFloodprot_iff oneMessage .msg _ (some (100, 1)) (messageAt 100)
    (by decide) (.step (messageAt 100) .start (by decide : (10 : ℤ) ≤ 100))
    ⟨by decide, fun _ => by decide⟩).mpr ⟨rfl, by decide⟩

theorem iterate_doFloodprot (k : ℕ) (hk : k + 1 < 2 ^ 16) :
    (fun p => ((doFloodprot oneMessage .msg p.1 (messageAt 100)).1,
      nextWindow 10 p.2 (messageAt 100)))^[k + 1] (⟨0, 0, 0⟩, none) =
        (⟨100, k + 1, 0⟩, some (100, k + 1)) := by
  induction k with
  | zero => rfl
  | succ k ih =>
    rw [Function.iterate_succ_apply', ih (by omega)]
    simp [doFloodprot, nextWindow, oneMessage, messageAt]
    omega

/-- The message after 65535 others in the same second is not reported. -/
theorem doFloodprot_overflow :
    let p := (fun p => ((doFloodprot oneMessage .msg p.1 (messageAt 100)).1,
      nextWindow 10 p.2 (messageAt 100)))^[65535] (⟨0, 0, 0⟩, none)
    nextWindow 10 p.2 (messageAt 100) = some (100, 65536) ∧
      (doFloodprot oneMessage .msg p.1 (messageAt 100)).2 = false := by
  rw [iterate_doFloodprot 65534 (by decide)]
  exact ⟨rfl, by decide⟩

end UnrealIrcd.Channels
