import Mathlib.Data.BitVec
import UnrealIrcd.Support.KeyedList

/-!
# The watch tables

`watch-backend.c` keeps, for every nick that somebody watches, a header with the
list of its watchers, and for every local client the list of the headers that it
is linked to.  The headers hang in the chains of a hash table.  A link carries
flags that say which command made it.

Headers are known by their address, as in the source: a client's link holds the
pointer `wptr`, which `watch_del_list` follows without a search.
-/

namespace UnrealIrcd.Watch

open Support

abbrev Nick := List Char

abbrev ClientId := ℕ

abbrev WatchPtr := ℕ

abbrev Flags := BitVec 32

def watchHashTableSize : ℕ := 32768

def hashWatchNickName (C : Casing) (name : Nick) : ℕ :=
  C.bucket watchHashTableSize name

/-- `Link`: a member of one of the two kinds of lists.  The value is a client in
the list of a header, and a header in the list of a client. -/
structure Link where
  value : ℕ
  flags : Flags
deriving DecidableEq, Repr

/-- `(lp->flags & flags) == flags`. -/
def Link.fits (link : Link) (flags : Flags) : Bool :=
  link.flags &&& flags = flags

set_option linter.dupNamespace false in
structure Watch where
  nick : Nick
  watch : List Link
deriving DecidableEq, Repr

/-- The tables: the headers in memory, the hash chains, and `WATCH(client)` and
`WATCHES(client)` of the local clients.  No header lies at `brk` or above. -/
structure State where
  heap : WatchPtr → Option Watch
  brk : WatchPtr
  watchTable : ℕ → List WatchPtr
  watchList : ClientId → List Link
  watches : ClientId → ℤ

/-- The tables when the module is first loaded. -/
def State.init : State where
  heap _ := none
  brk := 0
  watchTable _ := []
  watchList _ := []
  watches _ := 0

variable (C : Casing)

/-- `watch_get`, and the search at the start of `watch_add` and `watch_del`. -/
def watchGet (S : State) (nick : Nick) : Option WatchPtr :=
  (S.watchTable (hashWatchNickName C nick)).find?
    (fun p => (S.heap p).any (fun w => C.same w.nick nick))

/-! ## Adding -/

/-- `safe_alloc`: the address `addr`, new or given back before, unless it is in
use. -/
def safeAlloc (S : State) (addr : WatchPtr) : WatchPtr :=
  if (S.heap addr).isSome then S.brk else addr

def makeHeader (S : State) (addr : WatchPtr) (nick : Nick) : State :=
  { S with
    heap := Function.update S.heap addr (some ⟨nick, []⟩)
    brk := max S.brk (addr + 1)
    watchTable := Function.update S.watchTable (hashWatchNickName C nick)
      (addr :: S.watchTable (hashWatchNickName C nick)) }

/-- One link in front of the watchers of the header, one in front of the list of
the client. -/
def makeLinks (S : State) (p : WatchPtr) (w : Watch) (client : ClientId)
    (flags : Flags) : State :=
  { S with
    heap := Function.update S.heap p
      (some { w with watch := ⟨client, flags⟩ :: w.watch })
    watchList := Function.update S.watchList client
      (⟨p, flags⟩ :: S.watchList client)
    watches := Function.update S.watches client (S.watches client + 1) }

/-- `watch_add`.  The address `addr` is the one that the allocator would give. -/
def watchAdd (S : State) (addr : WatchPtr) (nick : Nick) (client : ClientId)
    (flags : Flags) : State :=
  match watchGet C S nick with
  | some p =>
    match S.heap p with
    | none => S
    | some w =>
      if w.watch.any (fun lp => lp.value = client) then S
      else makeLinks S p w client flags
  | none =>
    let p := safeAlloc S addr
    makeLinks (makeHeader C S p nick) p ⟨nick, []⟩ client flags

/-! ## Removing -/

/-- What is done to a header once a watcher has been taken from its list: it
goes away with its last watcher. -/
def storeWatchers (S : State) (p : WatchPtr) (w : Watch)
    (watchers : List Link) : State :=
  if watchers.isEmpty then
    { S with
      heap := Function.update S.heap p none
      watchTable := Function.update S.watchTable (hashWatchNickName C w.nick)
        ((S.watchTable (hashWatchNickName C w.nick)).erase p) }
  else
    { S with
      heap := Function.update S.heap p (some { w with watch := watchers }) }

def watchDel (S : State) (nick : Nick) (client : ClientId) (flags : Flags) :
    State :=
  match watchGet C S nick with
  | none => S
  | some p =>
    match S.heap p with
    | none => S
    | some w =>
      if w.watch.any (fun lp => lp.value = client && lp.fits flags) then
        let S' := storeWatchers C S p w
          (w.watch.eraseP (fun lp => lp.value = client && lp.fits flags))
        { S' with
          watchList := Function.update S.watchList client
            (eraseKey Link.value p (S.watchList client))
          watches := Function.update S.watches client
            (S.watches client - 1) }
      else S

/-- The body of the loop of `watch_del_list` for a link that fits the flags:
`none` if the link points to no header.  The client's list becomes `left`. -/
def dropLink (S : State) (client : ClientId) (link : Link) (left : List Link) :
    Option State :=
  match S.heap link.value with
  | none => none
  | some w =>
    let S' :=
      if w.watch.any (fun lp => lp.value = client) then
        storeWatchers C S link.value w
          (eraseKey Link.value client w.watch)
      else S
    some { S' with
      watchList := Function.update S.watchList client left
      watches := Function.update S.watches client (S.watches client - 1) }

/-- The loop of `watch_del_list`: `kept` are the links that were passed over,
`rest` those still ahead. -/
def delListLoop (client : ClientId) (flags : Flags) :
    List Link → List Link → State → Option State
  | _, [], S => some S
  | kept, link :: rest, S =>
    if link.fits flags then
      (dropLink C S client link (kept ++ rest)).bind
        (delListLoop client flags kept rest)
    else delListLoop client flags (kept ++ [link]) rest S

def watchDelList (S : State) (client : ClientId) (flags : Flags) :
    Option State :=
  (delListLoop C client flags [] (S.watchList client) S).map fun S' =>
    if flags = 0 then
      { S' with watches := Function.update S'.watches client 0 }
    else S'

/-! ## Runs -/

/-- A call of one of the functions, or the quit of a local client. -/
inductive Call where
  | add (addr : WatchPtr) (nick : Nick) (client : ClientId) (flags : Flags)
  | del (nick : Nick) (client : ClientId) (flags : Flags)
  | delList (client : ClientId) (flags : Flags)
  | quit (client : ClientId)
deriving DecidableEq, Repr

/-- `none` stands for a read through a pointer to no header. -/
def step (S : State) : Call → Option State
  | .add addr nick client flags => some (watchAdd C S addr nick client flags)
  | .del nick client flags => some (watchDel C S nick client flags)
  | .delList client flags => watchDelList C S client flags
  | .quit client => watchDelList C S client 0

def run (S : State) : List Call → Option State
  | [] => some S
  | call :: calls => (step C S call).bind (fun S' => run S' calls)

end UnrealIrcd.Watch
