import UnrealIrcd.Operclass.Model

/-!
# Callbacks for entries with variables

Modules register callbacks for paths (`OperClassAddValidator`) and remove them
(`OperClassValidatorDel`).  The tree holds them where they belong
(`callbacksAt_run`).  But `OperClass_evaluateACLEntry` starts at the root itself
and not among its children: `callsRegistered_iff` says when it is right by
accident.
-/

namespace UnrealIrcd.Operclass

open Support List

variable {P : Type}

/-! ## Registration -/

/-- The node takes the place of the one with the same identifier. -/
def replaceNode (identifier : List Char) (node : PathNode P) :
    List (PathNode P) → List (PathNode P)
  | [] => []
  | head :: next =>
    if head.identifier = some identifier then node :: next
    else head :: replaceNode identifier node next

/-- A change of the callbacks of the node at the end of a path.  Nodes that are
missing on the way are made by `OperClassAddValidator`. -/
def editNode (create : Bool)
    (f : List (CallbackNode P) → List (CallbackNode P)) :
    Path → PathNode P → Option (PathNode P)
  | [], .mk identifier children callbacks =>
    some (.mk identifier children (f callbacks))
  | next :: path, .mk identifier children callbacks =>
    match findPathNodeForIdentifier next children with
    | none => none
    | some (some node) =>
      (editNode create f path node).map fun node =>
        .mk identifier (replaceNode next node children) callbacks
    | some none =>
      if create then
        (editNode create f path (.mk (some next) [] [])).map fun node =>
          .mk identifier (node :: children) callbacks
      else none

/-- `OperClassValidator`, with the path of the node that is the parent of its
callback. -/
structure Validator (P : Type) where
  node : CallbackNode P
  parent : Path

/-- `rootEvalNode` and the validators that modules hold.  `next` is the address
of the next callback. -/
structure Registry (P : Type) where
  rootEvalNode : Option (PathNode P)
  validators : List (Validator P)
  next : ℕ

def operClassAddValidator (r : Registry P) (pathStr : List Char)
    (callback : List EntryVar → P → OperPermission) : Option (Registry P) :=
  match parsePath pathStr with
  | none => none
  | some path =>
    let node : CallbackNode P := ⟨r.next, callback⟩
    (editNode true (node :: ·) path
      (r.rootEvalNode.getD (.mk none [] []))).map fun root =>
        ⟨some root, ⟨node, path⟩ :: r.validators, r.next + 1⟩

/-- `OperClassValidatorDel` for a validator that was not deleted yet. -/
def operClassValidatorDel (r : Registry P) (id : ℕ) : Option (Registry P) :=
  match r.validators.find? (·.node.id == id), r.rootEvalNode with
  | some validator, some root =>
    (editNode false (·.eraseP (·.id == id)) validator.parent root).map
      fun root =>
        { r with
          rootEvalNode := some root
          validators := r.validators.eraseP (·.node.id == id) }
  | _, _ => none

inductive Call (P : Type) where
  | add (pathStr : List Char) (callback : List EntryVar → P → OperPermission)
  | del (id : ℕ)

def Registry.call (r : Registry P) : Call P → Option (Registry P)
  | .add pathStr callback => operClassAddValidator r pathStr callback
  | .del id => operClassValidatorDel r id

/-- The path has a component, and a validator is only deleted while a module
holds it. -/
def Call.Legal (r : Registry P) : Call P → Prop
  | .add pathStr _ => strtokens (· == ':') pathStr ≠ []
  | .del id => ∃ validator ∈ r.validators, validator.node.id = id

/-- The states that calls lead to. -/
inductive Run : List (Call P) → Registry P → Prop
  | nil : Run [] ⟨none, [], 0⟩
  | snoc {calls : List (Call P)} {r r' : Registry P} {call : Call P}
      (h : Run calls r) (hlegal : call.Legal r)
      (hcall : r.call call = some r') : Run (calls ++ [call]) r'

/-- The callbacks that are registered for a path. -/
def Registry.registered (r : Registry P) (path : Path) :
    List (CallbackNode P) :=
  (r.validators.filter (·.parent == path)).map Validator.node

/-! ## The tree -/

/-- Every node below has an identifier. -/
inductive PathNode.Named : PathNode P → Prop
  | mk {identifier : Option (List Char)} {children : List (PathNode P)}
      {callbacks : List (CallbackNode P)}
      (hid : ∀ child ∈ children, child.identifier ≠ none)
      (h : ∀ child ∈ children, child.Named) :
      (PathNode.mk identifier children callbacks).Named

def childOf (identifier : List Char) (children : List (PathNode P)) :
    Option (PathNode P) :=
  children.find? (·.identifier == some identifier)

/-- The callbacks at the end of a path that starts among the children. -/
def callbacksAt : Path → PathNode P → List (CallbackNode P)
  | [], node => node.callbacks
  | identifier :: path, node =>
    ((childOf identifier node.children).map (callbacksAt path)).getD []

section Tree

variable {identifier : List Char} {children : List (PathNode P)}

theorem childOf_cons {head : PathNode P} (h : head.identifier = some identifier)
    (other : List Char) (next : List (PathNode P)) :
    childOf other (head :: next) =
      if other = identifier then some head else childOf other next := by
  rw [childOf, find?_cons, h]
  by_cases hother : other = identifier
  · simp [hother]
  · have hne : (some identifier == some other) = false := by
      simpa using Ne.symm hother
    rw [hne, if_neg hother]
    rfl

theorem findPathNodeForIdentifier_eq
    (h : ∀ child ∈ children, child.identifier ≠ none) (identifier : List Char) :
    findPathNodeForIdentifier identifier children =
      some (childOf identifier children) := by
  induction children with
  | nil => rfl
  | cons head next ih =>
    have hrest := ih fun child hchild => h child (mem_cons_of_mem _ hchild)
    rw [findPathNodeForIdentifier]
    cases hid : head.identifier with
    | none => exact absurd hid (h head mem_cons_self)
    | some id =>
      rw [childOf_cons hid]
      by_cases heq : id = identifier
      · simp [heq]
      · simp [heq, Ne.symm heq, hrest]

theorem forall_mem_replaceNode {p : PathNode P → Prop} {node : PathNode P}
    (h : ∀ child ∈ children, p child) (hnode : p node) :
    ∀ child ∈ replaceNode identifier node children, p child := by
  induction children with
  | nil => exact h
  | cons head next ih =>
    obtain ⟨hhead, hnext⟩ := forall_mem_cons.mp h
    rw [replaceNode]
    split
    · exact forall_mem_cons.mpr ⟨hnode, hnext⟩
    · exact forall_mem_cons.mpr ⟨hhead, ih hnext⟩

theorem childOf_replaceNode {node old : PathNode P}
    (hnode : node.identifier = some identifier)
    (hold : childOf identifier children = some old) (other : List Char) :
    childOf other (replaceNode identifier node children) =
      if other = identifier then some node else childOf other children := by
  induction children with
  | nil => cases hold
  | cons head next ih =>
    rw [replaceNode]
    by_cases hhead : head.identifier = some identifier
    · rw [if_pos hhead, childOf_cons hnode, childOf_cons hhead]
      split
      · rfl
      · rfl
    · rw [if_neg hhead]
      have hne : (head.identifier == some identifier) = false := by
        simpa using hhead
      rw [childOf, find?_cons, hne] at hold
      rw [childOf, find?_cons, childOf, find?_cons]
      cases hhead' : head.identifier == some other with
      | true =>
        have hother : other ≠ identifier := by
          rintro rfl
          rw [hne] at hhead'
          cases hhead'
        rw [if_neg hother]
      | false => exact ih hold

theorem callbacksAt_fresh (identifier : Option (List Char)) (path : Path) :
    callbacksAt path (PathNode.mk identifier [] [] : PathNode P) = [] := by
  cases path with
  | nil | cons next path => rfl

variable {identifier : Option (List Char)} {callbacks : List (CallbackNode P)}

theorem callbacksAt_cons (next : List Char) (path : Path) :
    callbacksAt (next :: path) (.mk identifier children callbacks) =
      ((childOf next children).map (callbacksAt path)).getD [] := rfl

theorem callbacksAt_of_childOf {children' : List (PathNode P)}
    {next : List Char} {path : Path} {child : PathNode P}
    {f : List (CallbackNode P) → List (CallbackNode P)}
    (hchildren : ∀ other, childOf other children' =
      if other = next then some child else childOf other children)
    (hchild : ∀ q, callbacksAt q child =
      if q = path then f (((childOf next children).map (callbacksAt q)).getD [])
      else ((childOf next children).map (callbacksAt q)).getD []) (q : Path) :
    callbacksAt q (.mk identifier children' callbacks) =
      if q = next :: path then
        f (callbacksAt q (.mk identifier children callbacks))
      else callbacksAt q (.mk identifier children callbacks) := by
  cases q with
  | nil => rfl
  | cons other q =>
    rw [callbacksAt_cons, hchildren, callbacksAt_cons]
    by_cases hother : other = next
    · subst hother
      rw [if_pos rfl, Option.map_some, Option.getD_some, hchild]
      by_cases hq : q = path
      · rw [if_pos hq, if_pos (by rw [hq])]
      · rw [if_neg hq, if_neg fun h => hq (List.cons.inj h).2]
    · rw [if_neg hother, if_neg fun h => hother (List.cons.inj h).1]

/-- A change of the callbacks at the end of a path changes nothing else. -/
theorem editNode_spec {create : Bool}
    (f : List (CallbackNode P) → List (CallbackNode P)) (path : Path)
    {node : PathNode P} (hnode : node.Named)
    (h : create = true ∨ callbacksAt path node ≠ []) :
    ∃ node', editNode create f path node = some node' ∧ node'.Named ∧
      node'.identifier = node.identifier ∧
      (path ≠ [] → node'.callbacks = node.callbacks) ∧
      ∀ q, callbacksAt q node' =
        if q = path then f (callbacksAt q node) else callbacksAt q node := by
  induction path generalizing node with
  | nil =>
    cases hnode with
    | @mk identifier children callbacks hid hnamed =>
      refine ⟨_, rfl, .mk hid hnamed, rfl, fun hne => absurd rfl hne, ?_⟩
      intro q
      cases q with
      | nil | cons next q => rfl
  | cons next path ih =>
    cases hnode with
    | @mk identifier children callbacks hid hnamed =>
      rw [editNode, findPathNodeForIdentifier_eq hid]
      cases hchild : childOf next children with
      | some child =>
        have hmem := mem_of_find?_eq_some hchild
        have hnext : child.identifier = some next := by
          simpa using find?_some hchild
        have hat : callbacksAt (next :: path)
            (.mk identifier children callbacks) =
            callbacksAt path child := by
          rw [callbacksAt_cons, hchild]
          rfl
        obtain ⟨child', hedit, hnamed', hid', -, hcallbacks⟩ :=
          ih (hnamed child hmem) (by rwa [hat] at h)
        refine ⟨.mk identifier (replaceNode next child' children) callbacks,
          by simp only [hedit, Option.map_some],
          .mk (forall_mem_replaceNode hid ?_)
            (forall_mem_replaceNode hnamed hnamed'), rfl,
          fun _ => rfl, callbacksAt_of_childOf (childOf_replaceNode
            (hid'.trans hnext) hchild) ?_⟩
        · rw [hid', hnext]
          exact Option.some_ne_none next
        · rw [hchild]
          exact hcallbacks
      | none =>
        have hcreate : create = true := by
          refine h.resolve_right fun hne => hne ?_
          rw [callbacksAt_cons, hchild]
          rfl
        obtain ⟨child', hedit, hnamed', hid', -, hcallbacks⟩ :=
          @ih (.mk (some next) [] [])
            (.mk (fun _ hc => absurd hc not_mem_nil)
              fun _ hc => absurd hc not_mem_nil) (.inl hcreate)
        refine ⟨.mk identifier (child' :: children) callbacks,
          by simp only [if_pos hcreate, hedit, Option.map_some],
          .mk (forall_mem_cons.mpr ⟨?_, hid⟩)
            (forall_mem_cons.mpr ⟨hnamed', hnamed⟩), rfl, fun _ => rfl,
          callbacksAt_of_childOf (childOf_cons hid' · children) ?_⟩
        · rw [hid']
          exact Option.some_ne_none next
        · intro q
          rw [hcallbacks, hchild, callbacksAt_fresh]
          rfl

end Tree

/-! ## Runs -/

/-- The tree holds the registered callbacks at their paths. -/
structure Registry.Good (r : Registry P) : Prop where
  parents : ∀ validator ∈ r.validators, validator.parent ≠ []
  empty : r.rootEvalNode = none → r.validators = []
  named : ∀ root, r.rootEvalNode = some root →
    root.Named ∧ root.identifier = none
  callbacks : ∀ root, r.rootEvalNode = some root →
    ∀ path, callbacksAt path root = r.registered path

section Runs

variable {r : Registry P} {calls : List (Call P)}

theorem Registry.Good.registered_nil (h : r.Good) : r.registered [] = [] := by
  have hnone : r.validators.filter (·.parent == []) = [] := by
    refine filter_eq_nil_iff.mpr fun validator hvalidator heq => ?_
    exact h.parents validator hvalidator (eq_of_beq heq)
  rw [registered, hnone]
  rfl

theorem Registry.Good.add (h : r.Good) {pathStr : List Char}
    (hpath : strtokens (· == ':') pathStr ≠ [])
    (callback : List EntryVar → P → OperPermission) :
    ∃ r', operClassAddValidator r pathStr callback = some r' ∧ r'.Good ∧
      r'.rootEvalNode ≠ none := by
  have hparse : parsePath pathStr = some (strtokens (· == ':') pathStr) :=
    parsePath_eq.mpr ⟨rfl, hpath⟩
  generalize strtokens (· == ':') pathStr = path at hparse hpath
  have hroot : (r.rootEvalNode.getD (.mk none [] [])).Named ∧
      (r.rootEvalNode.getD (.mk none [] [])).identifier = none ∧
      ∀ q, callbacksAt q (r.rootEvalNode.getD (.mk none [] [])) =
        r.registered q := by
    cases hroot : r.rootEvalNode with
    | none =>
      refine ⟨.mk (fun _ hc => absurd hc not_mem_nil)
        (fun _ hc => absurd hc not_mem_nil), rfl, fun q => ?_⟩
      rw [Option.getD_none, callbacksAt_fresh, registered, h.empty hroot]
      rfl
    | some root => exact ⟨(h.named root hroot).1, (h.named root hroot).2,
        h.callbacks root hroot⟩
  obtain ⟨root, hedit, hnamed, hid, -, hcallbacks⟩ :=
    editNode_spec ((⟨r.next, callback⟩ : CallbackNode P) :: ·) path hroot.1
      (.inl rfl)
  refine ⟨⟨some root, ⟨⟨r.next, callback⟩, path⟩ :: r.validators, r.next + 1⟩,
    ?_, ⟨?_, (fun hnone => nomatch hnone), ?_, ?_⟩, Option.some_ne_none root⟩
  · rw [operClassAddValidator, hparse]
    simp only [hedit, Option.map_some]
  · exact forall_mem_cons.mpr ⟨hpath, h.parents⟩
  · rintro _ ⟨⟩
    exact ⟨hnamed, hid.trans hroot.2.1⟩
  · rintro _ ⟨⟩ q
    rw [hcallbacks, hroot.2.2, registered, registered, filter_cons]
    by_cases hq : q = path
    · rw [if_pos hq, if_pos (by simpa using hq.symm)]
      rfl
    · rw [if_neg hq, if_neg (by simpa using Ne.symm hq)]

theorem registered_eraseP {id : ℕ} {validator : Validator P}
    {validators : List (Validator P)}
    (hfind : validators.find? (·.node.id == id) = some validator)
    (path : Path) :
    ((validators.eraseP (·.node.id == id)).filter (·.parent == path)).map
        Validator.node =
      if path = validator.parent then
        ((validators.filter (·.parent == path)).map
          Validator.node).eraseP (·.id == id)
      else (validators.filter (·.parent == path)).map Validator.node := by
  have hpos := @List.eraseP_cons_of_pos (Validator P) (p := (·.node.id == id))
  have hneg := @List.eraseP_cons_of_neg (Validator P) (p := (·.node.id == id))
  rw [eraseP_map, ← apply_ite (List.map Validator.node)]
  congr 1
  induction validators with
  | nil => cases hfind
  | cons head validators ih =>
    rw [find?_cons] at hfind
    rw [eraseP_cons]
    cases hid : head.node.id == id with
    | true =>
      rw [hid] at hfind
      cases hfind
      rw [cond_true, filter_cons]
      by_cases hpath : path = validator.parent
      · rw [if_pos hpath, if_pos (by simpa using hpath.symm)]
        exact (hpos _ _ hid).symm
      · rw [if_neg hpath, if_neg (by simpa using Ne.symm hpath)]
    | false =>
      rw [hid] at hfind
      have hrest := ih hfind
      rw [cond_false, filter_cons, filter_cons]
      by_cases hhead : (head.parent == path) = true
      · rw [if_pos hhead, if_pos hhead, hrest]
        split
        · exact (hneg _ _ (Bool.eq_false_iff.mp hid)).symm
        · rfl
      · rw [if_neg hhead, if_neg hhead, hrest]

theorem Registry.Good.del (h : r.Good) {id : ℕ}
    (hid : ∃ validator ∈ r.validators, validator.node.id = id) :
    ∃ r', operClassValidatorDel r id = some r' ∧ r'.Good ∧
      r'.rootEvalNode ≠ none := by
  obtain ⟨v, hv, hvid⟩ := hid
  obtain ⟨validator, hfind⟩ : ∃ validator,
      r.validators.find? (·.node.id == id) = some validator :=
    Option.isSome_iff_exists.mp
      (find?_isSome.mpr ⟨v, hv, by simpa using hvid⟩)
  have hmem := mem_of_find?_eq_some hfind
  cases hroot : r.rootEvalNode with
  | none =>
    rw [h.empty hroot] at hmem
    cases hmem
  | some root =>
    obtain ⟨hnamed, hrootid⟩ := h.named root hroot
    have hat : callbacksAt validator.parent root ≠ [] := by
      rw [h.callbacks root hroot]
      refine ne_nil_of_mem (mem_map.mpr ⟨validator, ?_, rfl⟩)
      exact mem_filter.mpr ⟨hmem, beq_self_eq_true _⟩
    obtain ⟨root', hedit, hnamed', hid', -, hcallbacks⟩ :=
      @editNode_spec P false (·.eraseP (·.id == id)) validator.parent root
        hnamed (.inr hat)
    refine ⟨{ r with
      rootEvalNode := some root'
      validators := r.validators.eraseP (·.node.id == id) }, ?_,
      ⟨?_, (fun hnone => nomatch hnone), ?_, ?_⟩, Option.some_ne_none root'⟩
    · rw [operClassValidatorDel, hfind, hroot]
      simp only [hedit, Option.map_some]
    · intro validator' hvalidator'
      exact h.parents validator' (mem_of_mem_eraseP hvalidator')
    · rintro _ ⟨⟩
      exact ⟨hnamed', hid'.trans hrootid⟩
    · rintro _ ⟨⟩ q
      rw [hcallbacks, h.callbacks root hroot]
      exact (registered_eraseP hfind q).symm

theorem Registry.Good.step (h : r.Good) {call : Call P}
    (hlegal : call.Legal r) :
    ∃ r', r.call call = some r' ∧ r'.Good ∧ r'.rootEvalNode ≠ none := by
  cases call with
  | add pathStr callback => exact h.add hlegal callback
  | del id => exact h.del hlegal

theorem Run.good (h : Run calls r) :
    r.Good ∧ (r.rootEvalNode = none ↔ calls = []) := by
  induction h with
  | nil =>
    refine ⟨⟨fun _ hv => absurd hv not_mem_nil, fun _ => rfl,
      (fun _ hroot => nomatch hroot), fun _ hroot => nomatch hroot⟩, ?_⟩
    exact ⟨fun _ => rfl, fun _ => rfl⟩
  | @snoc calls r r' call _ hlegal hcall ih =>
    obtain ⟨r'', hcall', hgood, hroot⟩ := ih.1.step hlegal
    rw [hcall] at hcall'
    cases hcall'
    refine ⟨hgood, iff_of_false hroot ?_⟩
    exact append_ne_nil_of_right_ne_nil calls (cons_ne_nil _ _)

end Runs

/-! ## Evaluation -/

/-- The callbacks registered for the path are called, and no others. -/
def CallsRegistered (r : Registry P) (params : P) (entry : ACLEntry)
    (path : Path) : Prop :=
  ∃ called result,
    evaluateACLEntry r.rootEvalNode params entry path = some (called, result) ∧
      called.Perm (r.registered path) ∧ (called = [] → result = false)

/-- An entry with variables is evaluated by the callbacks of its path exactly in
two cases: nothing was ever registered and the path has several components, or
something was, and the path has one component and no callback. -/
theorem callsRegistered_iff {calls : List (Call P)} {r : Registry P}
    (h : Run calls r) (params : P) (entry : ACLEntry) (hvars : entry.vars ≠ [])
    (pathStr : List Char) (path : Path)
    (hpath : parsePath pathStr = some path) :
    CallsRegistered r params entry path ↔
      if calls = [] then 2 ≤ path.length
      else path.length = 1 ∧ r.registered path = [] := by
  obtain ⟨hgood, hempty⟩ := h.good
  have hne := (parsePath_eq.mp hpath).2
  unfold CallsRegistered evaluateACLEntry
  rw [if_neg hvars]
  cases hroot : r.rootEvalNode with
  | none =>
    have hnone : r.registered path = [] := by
      rw [Registry.registered, hgood.empty hroot]
      rfl
    rw [if_pos (hempty.mp hroot), hnone]
    match path, hne with
    | [identifier], _ | identifier :: next :: path, _ => simp [walkPath]
  | some root =>
    have hcalls : calls ≠ [] := fun hnil => by
      rw [hempty.mpr hnil] at hroot
      cases hroot
    have hcallbacks : root.callbacks = [] :=
      (hgood.callbacks root hroot []).trans hgood.registered_nil
    rw [if_neg hcalls]
    match path, hne with
    | [identifier], _ =>
      have hwalk : walkPath [identifier] (some root).toList =
          some (some []) := by
        rw [← hcallbacks]
        rfl
      rw [hwalk]
      constructor
      · rintro ⟨called, result, heq, hperm, -⟩
        cases heq
        exact ⟨rfl, hperm.nil_eq.symm⟩
      · rintro ⟨-, hnil⟩
        exact ⟨[], false, rfl, by rw [hnil], fun _ => rfl⟩
    | identifier :: next :: path, _ =>
      -- The root has no identifier to compare with.
      simp [walkPath, findPathNodeForIdentifier, (hgood.named root hroot).2]

def sampleEntry : ACLEntry := ⟨[⟨"channel".toList, "#x".toList⟩], .allow⟩

/-- A callback is registered for `kill`. -/
def sampleRegistry : Registry Unit :=
  ⟨some (.mk none [.mk (some "kill".toList) [] [⟨0, fun _ _ => .allow⟩]] []),
    [⟨⟨0, fun _ _ => .allow⟩, ["kill".toList]⟩], 1⟩

theorem run_sampleRegistry :
    Run [.add "kill".toList fun _ _ => .allow] sampleRegistry :=
  @Run.snoc Unit [] _ _ _ .nil (by decide : strtokens _ _ ≠ []) rfl

/-- For another path there is no callback, and none is called. -/
theorem callsRegistered_rehash :
    CallsRegistered sampleRegistry () sampleEntry ["rehash".toList] := by
  refine (callsRegistered_iff run_sampleRegistry () sampleEntry
    (cons_ne_nil _ _) "rehash".toList _ (by decide)).mpr ?_
  rw [if_neg (cons_ne_nil _ _)]
  exact ⟨rfl, rfl⟩

/-- The callback for `kill` is not called for this path. -/
theorem not_callsRegistered_kill :
    ∃ r : Registry Unit, Run [.add "kill".toList fun _ _ => .allow] r ∧
      (r.registered ["kill".toList]).length = 1 ∧
      ¬ CallsRegistered r () sampleEntry ["kill".toList] := by
  refine ⟨sampleRegistry, run_sampleRegistry, rfl, ?_⟩
  rintro ⟨called, result, heq, hperm, -⟩
  cases heq
  exact absurd hperm.length_eq (by decide)

end UnrealIrcd.Operclass
