import UnrealIrcd.HistoryBackend.Log

/-!
# The linked list represents the log

Every call on the linked list has a result, which represents the result of the
same call on the list of lines.  So a run never follows an invalid pointer,
never aborts and never loops, and leaves a doubly linked list with the right
pointers to its head and its tail.
-/

namespace UnrealIrcd.HistoryBackend

open Support MessageTags List Option
open Log (split place)

variable {timegm : Tm → ℤ}

/-- The object in memory stands for the log. -/
structure Represents (h : HistoryLogObject) (log : Log) : Prop where
  list : IsList h.heap h.head h.tail log.entries
  fresh : h.fresh = log.fresh
  numLines : h.numLines = log.numLines
  oldestT : h.oldestT = log.oldestT
  maxLines : h.maxLines = log.maxLines
  maxTime : h.maxTime = log.maxTime
  bound : ∀ e ∈ log.entries, e.1 < log.fresh

/-- A call has a result, and it stands for the log. -/
def Yields (result : Option HistoryLogObject) (log : Log) : Prop :=
  ∃ h, result = some h ∧ Represents h log

theorem Yields.bind {result : Option HistoryLogObject} {log log' : Log}
    {next : HistoryLogObject → Option HistoryLogObject}
    (hfirst : Yields result log)
    (hnext : ∀ h, Represents h log → Yields (next h) log') :
    Yields (result >>= next) log' := by
  obtain ⟨h, rfl, hrep⟩ := hfirst
  exact hnext h hrep

@[simp] theorem Log.start_keepAll (log : Log) :
    log.start.keepAll log.entries = log := rfl

@[simp] theorem Log.keep_keepAll (log : Log) (e : Entry) (rest : List Entry) :
    (log.keep e).keepAll rest = log.keepAll (e :: rest) := by
  simp [Log.keep, Log.keepAll]

theorem Log.keepAll_nil (log : Log) : log.keepAll [] = log := by
  simp [Log.keepAll]

/-- A bound on the rounds leaves one for the next line. -/
theorem exists_fuel {e : Entry} {rest : List Entry} {fuel : ℕ}
    (h : (e :: rest).length ≤ fuel) : ∃ k, fuel = k + 1 ∧ rest.length ≤ k := by
  rw [length_cons] at h
  exact ⟨fuel - 1, by omega, by omega⟩

/-! ## Removing lines -/

variable {h : HistoryLogObject} {log : Log} {rest : List Entry}

theorem represents_hbmHistoryDelLine {e : Entry}
    (hrep : Represents h (log.keepAll (e :: rest))) :
    Yields (hbmHistoryDelLine h e.1) ((log.drop e).keepAll rest) := by
  have hlist : IsList h.heap h.head h.tail (log.entries ++ e :: rest) :=
    hrep.list
  obtain ⟨heap₁, heap₂, hset₁, hset₂, hlist'⟩ := hlist.unlink
  refine ⟨{ h with
    heap := heap₂.erase e.1
    head := if h.head = some e.1 then firstPtr rest else h.head
    tail := if h.tail = some e.1 then lastPtr log.entries else h.tail
    dirty := true
    numLines := h.numLines - e.2.numLines }, ?_,
    ⟨hlist', hrep.fresh, ?_, hrep.oldestT, hrep.maxLines, hrep.maxTime, ?_⟩⟩
  · simp only [hbmHistoryDelLine, hlist.node_eq, hset₁, hset₂,
      bind_eq_bind, bind_some, Option.pure_def]
  · exact congrArg (· - e.2.numLines) hrep.numLines
  · intro x hx
    apply hrep.bound x
    simp only [Log.keepAll, Log.drop, mem_append, mem_cons] at hx ⊢
    tauto

theorem represents_evictFrom (incoming : ℤ) (hempty : log.entries = [])
    (hrep : Represents h (log.keepAll rest)) {fuel : ℕ}
    (hfuel : rest.length ≤ fuel) :
    Yields (evict incoming (fuel + 1) h) (log.evictFrom incoming rest) := by
  induction rest generalizing h log fuel with
  | nil =>
    have hhead : h.head = none := by
      rw [hrep.list.head_eq, Log.keepAll_nil, hempty]
      rfl
    refine ⟨h, by rw [evict, hhead], ?_⟩
    rwa [Log.keepAll_nil] at hrep
  | cons e rest ih =>
    obtain ⟨fuel, rfl, hrest⟩ := exists_fuel hfuel
    have hhead : h.head = some e.1 := by
      rw [hrep.list.head_eq, Log.keepAll, hempty]
      rfl
    have hfull : (h.numLines + incoming > h.maxLines) =
        (log.numLines + incoming > log.maxLines) := by
      rw [hrep.numLines, hrep.maxLines]
      rfl
    rw [evict, hhead, Log.evictFrom]
    simp only [hfull]
    split
    · exact (represents_hbmHistoryDelLine hrep).bind fun h₁ hrep₁ =>
        @ih h₁ (log.drop e) hempty hrep₁ fuel hrest
    · exact ⟨h, rfl, hrep⟩

theorem Represents.next_node {e : Entry}
    (hrep : Represents h (log.keepAll (e :: rest))) :
    h.heap e.1 = some ⟨lastPtr log.entries, firstPtr rest, e.2⟩ :=
  hrep.list.node_eq

theorem represents_note {e : Entry}
    (hrep : Represents h (log.keepAll (e :: rest))) :
    Represents { h with oldestT := olderOf h.oldestT e.2.t }
      (((log.note e).keep e).keepAll rest) := by
  rw [Log.keep_keepAll]
  exact ⟨hrep.list, hrep.fresh, hrep.numLines,
    congrArg (olderOf · e.2.t) hrep.oldestT, hrep.maxLines, hrep.maxTime,
    hrep.bound⟩

section Loops

variable (hrep : Represents h (log.keepAll rest)) {fuel : ℕ}
  (hfuel : rest.length ≤ fuel)

include hrep hfuel

theorem represents_deleteLoop
    (filter : HistoryFilter) (started : Bool) (deleted rejected : ℤ) :
    ∃ h', deleteLoop filter fuel h (firstPtr rest) started deleted rejected =
        some (h', (log.deleteFrom filter started deleted rejected rest).2) ∧
      Represents h'
        (log.deleteFrom filter started deleted rejected rest).1 := by
  induction rest generalizing h log started deleted rejected fuel with
  | nil =>
    rw [Log.keepAll_nil] at hrep
    exact ⟨h, by cases fuel <;> rfl, hrep⟩
  | cons e rest ih =>
    obtain ⟨fuel, rfl, hrest⟩ := exists_fuel hfuel
    have hkeep : Represents h ((log.keep e).keepAll rest) := by
      rwa [Log.keep_keepAll]
    rw [firstPtr_cons, deleteLoop, hrep.next_node, Log.deleteFrom]
    simp only [bind_eq_bind, bind_some]
    split
    · split
      · exact ⟨h, rfl, hrep⟩
      · split
        · next hstarted _ _ =>
            rw [hstarted]
            exact ih hkeep hrest true deleted (rejected + 1)
        · obtain ⟨h₁, hdel, hrep₁⟩ := represents_hbmHistoryDelLine hrep
          rw [hdel, bind_some]
          split
          · exact ⟨h₁, rfl, hrep₁⟩
          · next hstarted _ _ _ =>
              rw [hstarted]
              exact ih hrep₁ hrest true (deleted + 1) rejected
    · split
      · exact ⟨h, rfl, hrep⟩
      · next hstarted _ =>
          rw [Bool.not_eq_true] at hstarted
          rw [hstarted]
          exact ih hkeep hrest false deleted rejected

theorem represents_timeLoop (redline : ℤ) :
    Yields (timeLoop redline fuel h (firstPtr rest))
      (log.expire redline rest) := by
  induction rest generalizing h log fuel with
  | nil =>
    rw [Log.keepAll_nil] at hrep
    exact ⟨h, by cases fuel <;> rfl, hrep⟩
  | cons e rest ih =>
    obtain ⟨fuel, rfl, hrest⟩ := exists_fuel hfuel
    rw [firstPtr_cons, timeLoop, hrep.next_node, Log.expire]
    simp only [bind_eq_bind, bind_some]
    split
    · exact (represents_hbmHistoryDelLine hrep).bind fun h₁ hrep₁ =>
        ih hrep₁ hrest
    · exact ih (represents_note hrep) hrest

theorem represents_linesLoop :
    Yields (linesLoop fuel h (firstPtr rest)) (log.trim rest) := by
  induction rest generalizing h log fuel with
  | nil =>
    rw [Log.keepAll_nil] at hrep
    exact ⟨h, by cases fuel <;> rfl, hrep⟩
  | cons e rest ih =>
    obtain ⟨fuel, rfl, hrest⟩ := exists_fuel hfuel
    have hfull : (h.numLines > h.maxLines) =
        (log.numLines > log.maxLines) := by
      rw [hrep.numLines, hrep.maxLines]
      rfl
    have hlast : (firstPtr rest = none) = (rest = []) := by
      cases rest <;> simp
    rw [firstPtr_cons, linesLoop, hrep.next_node, Log.trim]
    simp only [bind_eq_bind, bind_some, hfull, hlast]
    split
    · split
      · next hempty =>
          subst hempty
          exact ⟨h, rfl, hrep⟩
      · exact (represents_hbmHistoryDelLine hrep).bind fun h₁ hrep₁ =>
          ih hrep₁ hrest
    · exact ih (represents_note hrep) hrest

end Loops

/-! ## Placing a line -/

theorem lastPtr_reverse (es : List Entry) :
    lastPtr es.reverse = firstPtr es := by
  simp [lastPtr, firstPtr]

theorem findPosition_eq
    {heap : Heap HistoryLogLine} (l : HistoryLogLine) {before : List Entry}
    {passed : List Entry} (h : Seg heap none (before.reverse ++ passed) none)
    {fuel : ℕ} (hfuel : before.length ≤ fuel) :
    findPosition heap l fuel (firstPtr before) =
      some (match split l before passed with
        | none => .duplicate
        | some parts => .after (lastPtr parts.1)) := by
  induction before generalizing passed fuel with
  | nil =>
    cases fuel <;> rfl
  | cons e before ih =>
    obtain ⟨fuel, rfl, hrest⟩ := exists_fuel hfuel
    have hnext : Seg heap none (before.reverse ++ e :: passed) none := by
      simpa using h
    obtain ⟨-, hnode, -⟩ := seg_append.mp hnext
    rw [or_none, or_none, lastPtr_reverse] at hnode
    rw [firstPtr_cons, findPosition, hnode, bind_eq_bind, bind_some, split]
    have hlast : lastPtr (e :: before).reverse = some e.1 := by
      rw [lastPtr_reverse, firstPtr_cons]
    split
    · dsimp only
      rw [hlast]
      rfl
    · split
      · rfl
      · split
        · dsimp only
          rw [hlast]
          rfl
        · exact ih hnext hrest

theorem split_append {l : HistoryLogLine} {before passed xs ys : List Entry}
    (h : split l before passed = some (xs, ys)) :
    xs ++ ys = before.reverse ++ passed := by
  fun_induction split l before passed with
  | case1 passed | case2 e before passed ht
  | case4 e before passed ht hid hsame =>
    cases h
    rfl
  | case3 e before passed ht hid => cases h
  | case5 e before passed ht hid hsame ih => simpa using ih h

/-- Where a line belongs does not depend on the lines of its batch. -/
theorem split_congr {l l' : HistoryLogLine} (ht : l.t = l'.t)
    (htime : l.time = l'.time) (hmsgid : l.msgid = l'.msgid)
    (before passed : List Entry) :
    split l before passed = split l' before passed := by
  induction before generalizing passed with
  | nil => rfl
  | cons e before ih =>
    rw [split, split, ht, htime, hmsgid, ih]

theorem isList_addLineAfterPosition {xs ys : List Entry} {n : ℕ}
    {l : HistoryLogLine} (hlist : IsList h.heap h.head h.tail (xs ++ ys))
    (hne : xs ++ ys ≠ []) (hnode : h.heap n = some ⟨none, none, l⟩)
    (hn : n ∉ addresses (xs ++ ys)) :
    ∃ heap head tail,
      hbmHistoryAddLineAfterPosition h (lastPtr xs) n =
          some { h with heap := heap, head := head, tail := tail } ∧
        IsList heap head tail (xs ++ (n, l) :: ys) := by
  cases xs using List.reverseRecOn with
  | nil =>
    cases ys with
    | nil => exact absurd rfl hne
    | cons y ys =>
      have hhead : h.head = some y.1 := hlist.head_eq
      obtain ⟨heap₁, heap₂, hset₁, hset₂, hlist'⟩ :=
        IsList.pushFront hnode hlist hn
      refine ⟨heap₂, some n, h.tail, ?_, hlist'⟩
      rw [hhead] at hset₁
      simp only [lastPtr_nil, hbmHistoryAddLineAfterPosition, hhead, hset₁,
        hset₂, bind_eq_bind, bind_some, Option.pure_def]
  | append_singleton xs x =>
    rw [lastPtr_concat]
    cases ys with
    | nil =>
      rw [append_nil] at hlist hn
      have htail : h.tail = some x.1 := by
        rw [hlist.tail_eq, lastPtr_concat]
      obtain ⟨heap₁, heap₂, hset₁, hset₂, hlist'⟩ := hlist.pushBack hnode hn
      refine ⟨heap₂, h.head, some n, ?_, hlist'⟩
      simp only [hbmHistoryAddLineAfterPosition, hlist.node_eq, htail,
        firstPtr_nil, ne_eq, not_true_eq_false, if_false, hset₁, hset₂,
        bind_eq_bind, bind_some, Option.pure_def]
    | cons y ys =>
      obtain ⟨heap₁, heap₂, heap₃, heap₄, hset₁, hset₂, hset₃, hset₄,
        hlist'⟩ := hlist.insertBetween hnode hn
      refine ⟨heap₄, h.head, h.tail, ?_, hlist'⟩
      have hnodex : h.heap x.1 = some ⟨lastPtr xs, some y.1, x.2⟩ := by
        rw [append_assoc] at hlist
        exact hlist.node_eq
      simp only [hbmHistoryAddLineAfterPosition, hnodex, hset₁, hset₂, hset₃,
        hset₄, bind_eq_bind, bind_some, Option.pure_def]

theorem placeLine_eq {h : HistoryLogObject} {es : List Entry} {n : ℕ}
    {l : HistoryLogLine} (hlist : IsList h.heap h.head h.tail es)
    (hnode : h.heap n = some ⟨none, none, l⟩) (hn : n ∉ addresses es)
    (hfuel : es.length ≤ h.fresh) :
    (split l es.reverse [] = none ∧
        placeLine h n l = some (h, false)) ∨
      ∃ xs ys heap head tail, split l es.reverse [] = some (xs, ys) ∧
        placeLine h n l =
          some ({ h with heap := heap, head := head, tail := tail }, true) ∧
        IsList heap head tail (xs ++ (n, l) :: ys) := by
  cases es using List.reverseRecOn with
  | nil =>
    have htail : h.tail = none := hlist.tail_eq
    refine .inr ⟨[], [], h.heap, some n, some n, rfl, ?_, ?_⟩
    · rw [placeLine, htail]
    · exact isList_of_parts trivial hnode trivial rfl rfl (by simp)
  | append_singleton xs x =>
    have htail : h.tail = some x.1 := by
      rw [hlist.tail_eq, lastPtr_concat]
    have hx : h.heap x.1 = some ⟨lastPtr xs, none, x.2⟩ := hlist.node_eq
    rw [placeLine, htail]
    simp only [hx, bind_eq_bind, bind_some]
    by_cases hlater : l.t > x.2.t
    · -- Later than everything: the walk would stop at once.
      obtain ⟨heap₁, heap₂, hset₁, hset₂, hlist'⟩ := hlist.pushBack hnode hn
      refine .inr ⟨xs ++ [x], [], heap₂, h.head, some n, ?_, ?_, hlist'⟩
      · rw [reverse_append, reverse_singleton, singleton_append, split,
          if_pos hlater, reverse_cons, reverse_reverse]
      · rw [if_pos hlater, hset₁, bind_some, hset₂]
        rfl
    · have hwalk := @findPosition_eq h.heap l (xs ++ [x]).reverse []
        (by simpa using hlist.seg) h.fresh
        (by rw [length_reverse]; exact hfuel)
      have hptr : firstPtr (xs ++ [x]).reverse = some x.1 := by simp
      rw [hptr] at hwalk
      rw [if_neg hlater, hbmHistoryAddLineInTime, htail, hwalk]
      simp only [bind_eq_bind, bind_some]
      cases hsplit : split l (xs ++ [x]).reverse [] with
      | none => exact .inl ⟨rfl, rfl⟩
      | some parts =>
        obtain ⟨before, after⟩ := parts
        have hparts : before ++ after = xs ++ [x] := by
          simpa using split_append hsplit
        rw [← hparts] at hlist hn
        obtain ⟨heap, head, tail, hadd, hlist'⟩ :=
          isList_addLineAfterPosition hlist
            (by rw [hparts]; simp) hnode hn
        refine .inr ⟨before, after, heap, head, tail, rfl, ?_, hlist'⟩
        dsimp only
        rw [hadd]
        rfl

section Calls

variable (hrep : Represents h log) (env : Env) (mtags : List MessageTag)

include hrep

/-- No list has more nodes than there were allocations. -/
theorem Represents.length_le : log.entries.length ≤ h.fresh := by
  have hsub : addresses log.entries ⊆ List.range log.fresh := by
    intro p hp
    obtain ⟨e, he, rfl⟩ := mem_map.mp hp
    exact mem_range.mpr (hrep.bound e he)
  have hle := (subperm_of_subset hrep.list.nodup hsub).length_le
  rw [length_range, addresses, length_map] at hle
  rw [hrep.fresh]
  exact hle

theorem isList_allocLine (l : HistoryLogLine) :
    h.fresh ∉ addresses log.entries ∧
      IsList (allocLine h l).heap h.head h.tail log.entries := by
  have hfresh : h.fresh ∉ addresses log.entries := by
    intro hmem
    obtain ⟨e, he, heq⟩ := mem_map.mp hmem
    have hlt := hrep.bound e he
    rw [← hrep.fresh, heq] at hlt
    exact lt_irrefl _ hlt
  exact ⟨hfresh, hrep.list.seg.write hfresh _, hrep.list.head_eq,
    hrep.list.tail_eq, hrep.list.nodup⟩

theorem represents_hbmHistoryAddLine (line : List Char) :
    ∃ h', hbmHistoryAddLine timegm env h mtags line =
        some (h', if (log.place (hbmDuplicateMtags timegm env mtags line)).2 then
          some log.fresh else none) ∧
      Represents h' (log.place (hbmDuplicateMtags timegm env mtags line)).1 := by
  generalize hl : hbmDuplicateMtags timegm env mtags line = l
  have hone : l.numLines = 1 := by
    rw [← hl]
    rfl
  obtain ⟨hfresh, hlist⟩ := isList_allocLine hrep l
  have hnode : (allocLine h l).heap h.fresh = some ⟨none, none, l⟩ :=
    Heap.write_self _ _ _
  have hbound : ∀ e ∈ log.entries, e.1 < log.fresh + 1 :=
    fun e he => (hrep.bound e he).trans (Nat.lt_succ_self _)
  rcases @placeLine_eq (allocLine h l) log.entries h.fresh l hlist hnode
      hfresh (hrep.length_le.trans (Nat.le_succ _)) with
    ⟨hsplit, hplace⟩ | ⟨xs, ys, heap, head, tail, hsplit, hplace, hlist'⟩
  · refine ⟨{ allocLine h l with
      heap := (allocLine h l).heap.erase h.fresh }, ?_, ?_⟩
    · simp only [hbmHistoryAddLine, hl, hplace, place, hsplit, bind_eq_bind,
        bind_some, Option.pure_def, Bool.false_eq_true, if_false]
    · rw [place, hsplit]
      exact ⟨⟨hlist.seg.erase hfresh, hlist.head_eq, hlist.tail_eq,
        hlist.nodup⟩, congrArg (· + 1) hrep.fresh, hrep.numLines,
        hrep.oldestT, hrep.maxLines, hrep.maxTime, hbound⟩
  · have hparts : xs ++ ys = log.entries := by
      simpa using split_append hsplit
    refine ⟨{ allocLine h l with
      heap := heap
      head := head
      tail := tail
      dirty := true
      numLines := h.numLines + 1
      oldestT := olderOf h.oldestT l.t }, ?_, ?_⟩
    · rw [← hrep.fresh]
      simp only [hbmHistoryAddLine, hl, hplace, place, hsplit,
        bind_eq_bind, bind_some, Option.pure_def, if_true]
      rfl
    · rw [place, hsplit]
      refine ⟨?_, congrArg (· + 1) hrep.fresh, ?_, ?_, hrep.maxLines,
        hrep.maxTime, ?_⟩
      · rw [← hrep.fresh]
        exact hlist'
      · dsimp only
        rw [hone, hrep.numLines]
      · exact congrArg (olderOf · l.t) hrep.oldestT
      · intro e he
        rw [mem_append, mem_cons] at he
        rcases he with he | rfl | he
        · exact hbound e (by rw [← hparts]; simp [he])
        · exact Nat.lt_succ_self _
        · exact hbound e (by rw [← hparts]; simp [he])

/-! ## Additions -/

theorem represents_defaultLimits :
    Represents (defaultLimits h) log.defaultLimits := by
  unfold defaultLimits Log.defaultLimits
  rw [hrep.maxLines]
  split
  · exact ⟨hrep.list, hrep.fresh, hrep.numLines, hrep.oldestT, rfl, rfl,
      hrep.bound⟩
  · exact hrep

theorem represents_evict (incoming : ℤ) :
    Yields (evict incoming (h.fresh + 1) h) (log.evict incoming) :=
  @represents_evictFrom h log.start log.entries incoming rfl
    (by rwa [Log.start_keepAll]) _ hrep.length_le

theorem represents_hbmHistoryAdd (line : List Char) :
    Yields (hbmHistoryAdd timegm env h mtags line)
      (log.add (hbmDuplicateMtags timegm env mtags line)) := by
  refine (represents_evict (represents_defaultLimits hrep) 1).bind
    fun h₁ hrep₁ => ?_
  obtain ⟨h₂, hadd, hrep₂⟩ := represents_hbmHistoryAddLine hrep₁ env mtags line
  refine ⟨h₂, ?_, hrep₂⟩
  rw [hadd]
  rfl

theorem represents_hbmHistoryAddMultiline (source cmd target : List Char)
    (lines : List (List Char × Bool)) :
    Yields (hbmHistoryAddMultiline timegm env h mtags source cmd target lines)
      (log.addMultiline timegm env mtags source cmd target lines) := by
  cases lines with
  | nil => exact ⟨_, rfl, represents_defaultLimits hrep⟩
  | cons first rest =>
    obtain ⟨h₁, hevict, hrep₁⟩ := represents_evict
      (represents_defaultLimits hrep) ((first :: rest).length : ℤ)
    obtain ⟨h₂, hadd, hrep₂⟩ := represents_hbmHistoryAddLine hrep₁ env mtags
      (batchLine source cmd target first.1)
    generalize hl₀ : hbmDuplicateMtags timegm env mtags
      (batchLine source cmd target first.1) = l₀ at hadd hrep₂
    have hl : Log.batchEntry timegm env mtags source cmd target first rest =
        { l₀ with
          numLines := ((first :: rest).length : ℤ)
          numBytes := l₀.numBytes + ((rest.map fun ml =>
            (batchLine source cmd target ml.1, ml.2)).map
              fun b => (b.1.length : ℤ)).sum
          batch := rest.map fun ml =>
            (batchLine source cmd target ml.1, ml.2) } := by
      rw [← hl₀]
      rfl
    have hone : l₀.numLines = 1 := by
      rw [← hl₀]
      rfl
    change Yields _ ((log.defaultLimits.evict
      ((first :: rest).length : ℤ)).place
        (Log.batchEntry timegm env mtags source cmd target first rest)).1
    generalize log.defaultLimits.evict ((first :: rest).length : ℤ) = log₁
      at hrep₁ hadd hrep₂ ⊢
    generalize Log.batchEntry timegm env mtags source cmd target first rest = l
      at hl ⊢
    have hcongr := @split_congr l₀ l (by rw [hl]) (by rw [hl]) (by rw [hl])
      log₁.entries.reverse []
    rw [place, ← hcongr]
    rw [place] at hadd hrep₂
    cases hsplit : split l₀ log₁.entries.reverse [] with
    | none =>
      rw [hsplit] at hadd hrep₂
      refine ⟨h₂, ?_, hrep₂⟩
      simp only [hbmHistoryAddMultiline, hevict, hadd, bind_eq_bind,
        bind_some, Option.pure_def, Bool.false_eq_true, if_false]
    | some parts =>
      obtain ⟨xs, ys⟩ := parts
      rw [hsplit] at hadd hrep₂
      have hlist : IsList h₂.heap h₂.head h₂.tail
          (xs ++ (log₁.fresh, l₀) :: ys) := hrep₂.list
      refine ⟨{ h₂ with
        heap := h₂.heap.write log₁.fresh ⟨lastPtr xs, firstPtr ys, l⟩
        numLines := h₂.numLines + rest.length
        dirty := true }, ?_, ?_⟩
      · simp only [hbmHistoryAddMultiline, hevict, hadd, hlist.node_eq, hl,
          bind_eq_bind, bind_some, Option.pure_def, if_true]
      · refine ⟨hlist.setVal _, hrep₂.fresh, ?_, ?_, hrep₂.maxLines,
          hrep₂.maxTime, ?_⟩
        · have hnum : h₂.numLines = log₁.numLines + l₀.numLines :=
            hrep₂.numLines
          rw [hl, hnum, hone]
          simp only [length_cons]
          omega
        · rw [hl]
          exact hrep₂.oldestT
        · intro e he
          have hbound := hrep₂.bound
          simp only [mem_append, mem_cons] at he hbound
          rcases he with he | rfl | he
          · exact hbound e (.inl he)
          · exact hbound (log₁.fresh, l₀) (.inr (.inl rfl))
          · exact hbound e (.inr (.inr he))

/-! ## Cleanups -/

/-- A walk that finds out the time of the oldest line begins. -/
theorem Represents.reset :
    Represents { h with oldestT := 0 }
      (Log.keepAll { log.start with oldestT := 0 } log.entries) :=
  ⟨hrep.list, hrep.fresh, hrep.numLines, rfl, hrep.maxLines, hrep.maxTime,
    hrep.bound⟩

theorem represents_cleanupTime (now : ℤ) :
    Yields (cleanupTime now h) (log.cleanupTime now) := by
  unfold cleanupTime Log.cleanupTime
  simp only [← hrep.oldestT, ← hrep.maxTime]
  split
  · have hloop := represents_timeLoop hrep.reset
      (hrep.length_le.trans (Nat.le_succ _)) (now - h.maxTime)
    rwa [← hrep.list.head_eq] at hloop
  · exact ⟨h, rfl, hrep⟩

theorem represents_cleanupLines :
    Yields (cleanupLines h) log.cleanupLines := by
  unfold cleanupLines Log.cleanupLines
  simp only [← hrep.numLines, ← hrep.maxLines]
  split
  · have hloop := represents_linesLoop hrep.reset
      (hrep.length_le.trans (Nat.le_succ _))
    rwa [← hrep.list.head_eq] at hloop
  · exact ⟨h, rfl, hrep⟩

theorem represents_hbmHistoryCleanup (now : ℤ) :
    Yields (hbmHistoryCleanup now h) (log.cleanup now) :=
  (represents_cleanupTime hrep now).bind fun _ => represents_cleanupLines

/-! ## Runs -/

theorem represents_apply (op : HistoryOp) :
    Yields (op.apply timegm h) (log.apply timegm op) := by
  cases op with
  | add env mtags line => exact represents_hbmHistoryAdd hrep env mtags line
  | addMultiline env mtags source cmd target lines =>
    exact represents_hbmHistoryAddMultiline hrep env mtags source cmd target
      lines
  | delete filter =>
    obtain ⟨h', hdelete, hrep'⟩ := @represents_deleteLoop h log.start
      log.entries (by rwa [Log.start_keepAll]) (h.fresh + 1)
      (hrep.length_le.trans (Nat.le_succ _)) filter false 0 0
    refine ⟨h', ?_, hrep'⟩
    rw [HistoryOp.apply, hbmHistoryDelete, hrep.list.head_eq, hdelete]
    rfl
  | cleanup now => exact represents_hbmHistoryCleanup hrep now
  | setLimit now maxLines maxTime =>
    refine @represents_hbmHistoryCleanup { h with maxLines, maxTime }
      { log with maxLines := maxLines, maxTime := maxTime } ?_ now
    exact ⟨hrep.list, hrep.fresh, hrep.numLines, hrep.oldestT, rfl, rfl,
      hrep.bound⟩

end Calls

/-- Every run has a result, and it represents the log of the run. -/
theorem represents_historyRun (ops : List HistoryOp) :
    Yields (historyRun timegm ops) (Log.run timegm ops) := by
  have hrun : ∀ (h : HistoryLogObject) (log : Log), Represents h log →
      Yields (ops.foldlM (HistoryOp.apply timegm) h)
        (ops.foldl (Log.apply timegm) log) := by
    induction ops with
    | nil => exact fun h log hrep => ⟨h, rfl, hrep⟩
    | cons op ops ih =>
      intro h log hrep
      rw [foldlM_cons]
      exact (represents_apply hrep op).bind fun h₁ hrep₁ => ih h₁ _ hrep₁
  refine hrun emptyObject Log.empty ⟨⟨trivial, rfl, rfl, nodup_nil⟩,
    rfl, rfl, rfl, rfl, rfl, ?_⟩
  intro e he
  cases he

end UnrealIrcd.HistoryBackend
