import Mathlib.Data.Int.Notation
import Mathlib.Data.List.Basic
import Mathlib.Logic.Function.Basic

/-!
# Lookups for link blocks

A rehash is meant to cancel the lookups of the old link blocks.  It searches for
requests of the type `DNSREQ_CONNECT`, which no request has.
-/

namespace UnrealIrcd.Dns

open List Function

/-- `DNSReq` for a link block.  The number stands for its address, and `conf` is
the block that the lookup was started for. -/
structure DNSReq (L : Type) where
  id : ℕ
  conf : L
  linkblock : Option L
  ipv6 : Bool
  type : ℕ
deriving DecidableEq

/-- The requests, the number of lookups so far, and the references to the link
blocks that were taken for lookups. -/
structure Resolver (L : Type) where
  requests : List (DNSReq L)
  started : ℕ
  refcount : L → ℤ

inductive Answer where
  | destruction
  | failure
  | illegal
  | address

inductive Event (L : Type) where
  | lookup (conf : L) (ipv6 : Bool)
  | answer (id : ℕ) (answer : Answer)
  | rehash

def dnsreqConnect : ℕ := 3

variable {L : Type} [DecidableEq L]

def start : Resolver L := ⟨[], 0, fun _ => 0⟩

/-- `unrealdns_gethostbyname_link`, after `aconf->refcount++`.  The type is left
as `safe_alloc` made it. -/
def gethostbynameLink (S : Resolver L) (conf : L) (ipv6 : Bool) :
    Resolver L where
  requests := ⟨S.started, conf, some conf, ipv6, 0⟩ :: S.requests
  started := S.started + 1
  refcount := update S.refcount conf (S.refcount conf + 1)

/-- The end of a request that has its link block. -/
def giveBack (S : Resolver L) (r : DNSReq L) (conf : L) : Resolver L :=
  { S with
    requests := S.requests.erase r
    refcount := update S.refcount conf (S.refcount conf - 1) }

/-- `unrealdns_cb_nametoip_link`, with the block for which it calls
`connect_server`. -/
def cbNametoipLink (S : Resolver L) (r : DNSReq L) (answer : Answer) :
    Resolver L × Option L :=
  match r.linkblock, answer with
  | none, _ => ({ S with requests := S.requests.erase r }, none)
  | some conf, .failure =>
    if r.ipv6 then
      ({ S with requests := S.requests.map fun q =>
          if q = r then { q with ipv6 := false } else q }, none)
    else (giveBack S r conf, none)
  | some conf, .destruction | some conf, .illegal => (giveBack S r conf, none)
  | some conf, .address => (giveBack S r conf, some conf)

def delasyncconnects (S : Resolver L) : Resolver L :=
  { S with requests := S.requests.map fun r =>
      if r.type = dnsreqConnect then { r with linkblock := none } else r }

def step (S : Resolver L) : Event L → Resolver L × Option L
  | .lookup conf ipv6 => (gethostbynameLink S conf ipv6, none)
  | .answer id answer =>
    match S.requests.find? (·.id = id) with
    | none => (S, none)
    | some r => cbNametoipLink S r answer
  | .rehash => (delasyncconnects S, none)

def run (events : List (Event L)) : Resolver L :=
  events.foldl (fun S e => (step S e).1) start

/-- The lookups for a block that have not ended. -/
def Resolver.pending (S : Resolver L) (conf : L) : ℕ :=
  S.requests.countP (·.conf = conf)

/-- The lookups that are pending have not been cancelled, and were not started
before the lookup with the number `n`. -/
structure Inv (n : ℕ) (S : Resolver L) : Prop where
  started : n ≤ S.started
  requests : ∀ r ∈ S.requests,
    r.linkblock = some r.conf ∧ r.type = 0 ∧ n ≤ r.id ∧ r.id < S.started
  refcount : ∀ conf, S.refcount conf = S.pending conf

namespace Inv

variable {n : ℕ} {S : Resolver L} {r : DNSReq L}

theorem gethostbynameLink (h : Inv n S) (conf : L) (ipv6 : Bool) :
    Inv n (gethostbynameLink S conf ipv6) where
  started := Nat.le_succ_of_le h.started
  requests r hr := by
    obtain rfl | hr := mem_cons.mp hr
    · exact ⟨rfl, rfl, h.started, Nat.lt_succ_self _⟩
    · obtain ⟨hlink, htype, hle, hlt⟩ := h.requests r hr
      exact ⟨hlink, htype, hle, Nat.lt_succ_of_lt hlt⟩
  refcount conf' := by
    have hcount := h.refcount conf'
    simp only [Dns.gethostbynameLink, Resolver.pending, countP_cons,
      update_apply] at hcount ⊢
    grind

theorem giveBack (h : Inv n S) (hr : r ∈ S.requests) :
    Inv n (giveBack S r r.conf) where
  started := h.started
  requests q hq := h.requests q (mem_of_mem_erase hq)
  refcount conf := by
    have hcount := h.refcount conf
    rw [Resolver.pending, (perm_cons_erase hr).countP_eq, countP_cons] at hcount
    simp only [Dns.giveBack, Resolver.pending, update_apply]
    grind

theorem cbNametoipLink (h : Inv n S) (hr : r ∈ S.requests) (answer : Answer) :
    Inv n (cbNametoipLink S r answer).1 := by
  unfold Dns.cbNametoipLink
  rw [(h.requests r hr).1]
  cases answer with
  | destruction | illegal | address => exact h.giveBack hr
  | failure =>
    dsimp only
    split_ifs
    · refine ⟨h.started, fun q hq => ?_, fun conf => ?_⟩
      · obtain ⟨q', hq', rfl⟩ := mem_map.mp hq
        split_ifs <;> exact h.requests q' hq'
      · simp only [Resolver.pending, countP_map, comp_def,
          apply_ite DNSReq.conf, ite_self]
        exact h.refcount conf
    · exact h.giveBack hr

/-- No request is cancelled. -/
theorem delasyncconnects_eq (h : Inv n S) : delasyncconnects S = S := by
  have hmap : S.requests.map (fun r =>
      if r.type = dnsreqConnect then { r with linkblock := none } else r) =
      S.requests := by
    refine (map_congr_left fun r hr => ?_).trans (map_id _)
    rw [(h.requests r hr).2.1]
    rfl
  rw [delasyncconnects, hmap]

theorem step (h : Inv n S) (e : Event L) : Inv n (step S e).1 := by
  cases e with
  | lookup conf ipv6 => exact h.gethostbynameLink conf ipv6
  | answer id answer =>
    dsimp only [Dns.step]
    split
    · exact h
    · next r hr => exact h.cbNametoipLink (mem_of_find?_eq_some hr) answer
  | rehash =>
    rw [Dns.step, h.delasyncconnects_eq]
    exact h

theorem foldl (h : Inv n S) (events : List (Event L)) :
    Inv n (events.foldl (fun S e => (Dns.step S e).1) S) := by
  induction events generalizing S with
  | nil => exact h
  | cons e events ih => exact ih (h.step e)

theorem run (events : List (Event L)) : Inv 0 (run events) :=
  foldl ⟨Nat.le_refl 0, fun _ hr => absurd hr not_mem_nil, fun _ => rfl⟩
    events

end Inv

/-- The references to a link block are those of its pending lookups, in every
run.  But a rehash cancels the lookups that were started before it if and only
if none of them is pending. -/
theorem rehash_cancels_iff (done : List (Event L)) :
    (∀ conf, (run done).refcount conf = (run done).pending conf) ∧
      ((∀ more id answer, id < (run done).started →
          (step (run (done ++ .rehash :: more)) (.answer id answer)).2 =
            none) ↔
        (run done).requests = []) := by
  have hinv := Inv.run done
  refine ⟨hinv.refcount, ?_⟩
  have hrun : ∀ more, run (done ++ .rehash :: more) =
      more.foldl (fun S e => (step S e).1) (run done) := by
    intro more
    rw [run, foldl_append, foldl_cons, ← run, step, hinv.delasyncconnects_eq]
  constructor
  · intro hnever
    by_contra hne
    obtain ⟨r, hr⟩ := exists_mem_of_ne_nil _ hne
    have hnone := hnever [] r.id .address (hinv.requests r hr).2.2.2
    rw [hrun, foldl_nil, step] at hnone
    split at hnone
    · next hfind => simpa using find?_eq_none.mp hfind r hr
    · next r' hfind =>
        unfold cbNametoipLink at hnone
        rw [(hinv.requests r' (mem_of_find?_eq_some hfind)).1] at hnone
        cases hnone
  · intro hnil more id answer hid
    have hlater : Inv (run done).started (run (done ++ .rehash :: more)) := by
      rw [hrun]
      exact Inv.foldl ⟨Nat.le_refl _, by simp [hnil], hinv.refcount⟩ more
    have hfind : (run (done ++ .rehash :: more)).requests.find? (·.id = id) =
        none := by
      rw [find?_eq_none]
      intro r hr heq
      have hle := (hlater.requests r hr).2.2.1
      simp only [decide_eq_true_eq] at heq
      omega
    rw [step, hfind]

/-- A lookup is started, and the server is connected to after a rehash. -/
theorem connects_after_rehash :
    (step (run [.lookup 0 false, .rehash]) (.answer 0 .address)).2 = some 0 :=
  rfl

end UnrealIrcd.Dns
