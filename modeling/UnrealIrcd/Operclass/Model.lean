import UnrealIrcd.Support.CString

/-!
# Operclasses

The permissions of IRC operators (`operclass.c`): nested blocks with entries
that allow or deny, operclasses that inherit from a parent, and the callbacks
that modules register for entries with variables.

A function that follows a NULL pointer has the result `none`.
-/

namespace UnrealIrcd.Operclass

open Support

inductive OperPermission where
  | allow
  | deny
  deriving DecidableEq, Repr

/-- `OperClassEntryType`. -/
inductive EntryType where
  | allow
  | deny
  deriving DecidableEq, Repr

/-- `OperClassACLEntryVar`. -/
structure EntryVar where
  name : List Char
  value : List Char
  deriving DecidableEq, Repr

/-- `OperClassACLEntry`. -/
structure ACLEntry where
  vars : List EntryVar
  type : EntryType
  deriving DecidableEq, Repr

/-- `OperClassACL`: a block with its entries and the blocks in it. -/
inductive ACL where
  | mk (name : List Char) (entries : List ACLEntry) (acls : List ACL)

def ACL.name : ACL → List Char
  | .mk name _ _ => name

def ACL.entries : ACL → List ACLEntry
  | .mk _ entries _ => entries

def ACL.acls : ACL → List ACL
  | .mk _ _ acls => acls

/-- `OperClass`.  `isa` is the parent. -/
structure OperClass where
  isa : Option (List Char)
  name : List Char
  acls : List ACL

/-! ## Paths -/

/-- `OperClassACLPath`: the components of a path. -/
abbrev Path := List (List Char)

/-- The second loop of `OperClass_parsePath` turns the list around.  `prev` is
what the head has behind it. -/
def reversePath (prev : Path) : Path → Option Path
  | [] => none
  | [identifier] => some (identifier :: prev)
  | identifier :: next :: path => reversePath (identifier :: prev) (next :: path)

/-- `OperClass_parsePath`. -/
def parsePath (path : List Char) : Option Path :=
  reversePath [] ((strtokens (· == ':') path).foldl
    (fun pathHead str => str :: pathHead) [])

theorem reversePath_eq (prev path : Path) (h : path ≠ []) :
    reversePath prev path = some (path.reverse ++ prev) := by
  induction path generalizing prev with
  | nil => exact absurd rfl h
  | cons identifier path ih =>
    cases path with
    | nil => rfl
    | cons next path =>
      rw [reversePath, ih _ (List.cons_ne_nil _ _),
        List.reverse_cons (a := identifier), List.append_assoc]
      rfl

theorem parsePath_eq {path : List Char} {p : Path} :
    parsePath path = some p ↔ strtokens (· == ':') path = p ∧ p ≠ [] := by
  rw [parsePath, List.foldl_flip_cons_eq_append', List.append_nil]
  by_cases hnil : strtokens (· == ':') path = []
  · rw [hnil]
    constructor
    · intro h
      cases h
    · rintro ⟨rfl, hne⟩
      exact absurd rfl hne
  · rw [reversePath_eq _ _ (List.reverse_ne_nil_iff.mpr hnil),
      List.reverse_reverse, List.append_nil, Option.some.injEq]
    exact ⟨fun h => ⟨h, h ▸ hnil⟩, And.left⟩

/-! ## Callbacks for entries with variables -/

section Callbacks

-- `P` stands for the parameters of a check.
variable {P : Type}

/-- `OperClassCallbackNode`.  The number stands for its address. -/
structure CallbackNode (P : Type) where
  id : ℕ
  callback : List EntryVar → P → OperPermission

/-- `OperClassPathNode`.  Only the root has no identifier. -/
inductive PathNode (P : Type) where
  | mk (identifier : Option (List Char)) (children : List (PathNode P))
      (callbacks : List (CallbackNode P))

def PathNode.identifier : PathNode P → Option (List Char)
  | .mk identifier _ _ => identifier

def PathNode.children : PathNode P → List (PathNode P)
  | .mk _ children _ => children

def PathNode.callbacks : PathNode P → List (CallbackNode P)
  | .mk _ _ callbacks => callbacks

/-- `OperClass_findPathNodeForIdentifier` in a list of nodes. -/
def findPathNodeForIdentifier (identifier : List Char) :
    List (PathNode P) → Option (Option (PathNode P))
  | [] => some none
  | head :: next =>
    match head.identifier with
    | none => none
    | some id =>
      if id = identifier then some (some head)
      else findPathNodeForIdentifier identifier next

/-- The loop of `OperClass_evaluateACLEntry`, where a pointer to a node is the
list that starts with it: the callbacks to call, or none if it returns 0
before. -/
def walkPath : Path → List (PathNode P) →
    Option (Option (List (CallbackNode P)))
  | [], _ => none
  | [_], [] => none
  | [_], node :: _ => some (some node.callbacks)
  | _ :: _ :: _, [] => some none
  | identifier :: next :: path, node =>
    match findPathNodeForIdentifier identifier node with
    | none => none
    | some none => some none
    | some (some node) => walkPath (next :: path) node.children

/-- All callbacks are called, and the answer of the last one counts. -/
def runCallbacks (vars : List EntryVar) (params : P)
    (callbacks : List (CallbackNode P)) : Bool :=
  callbacks.foldl
    (fun _ node => node.callback vars params == .allow) false

/-- `OperClass_evaluateACLEntry`: the callbacks that were called, and the
result. -/
def evaluateACLEntry (root : Option (PathNode P)) (params : P)
    (entry : ACLEntry) (path : Path) : Option (List (CallbackNode P) × Bool) :=
  if entry.vars = [] then some ([], true)
  else
    match walkPath path root.toList with
    | none => none
    | some none => some ([], false)
    | some (some callbacks) =>
      some (callbacks, runCallbacks entry.vars params callbacks)

end Callbacks

/-! ## Permissions -/

/-- `OperClass_FindACL`. -/
def findACL (acls : List ACL) (name : List Char) : Option ACL :=
  acls.find? (·.name == name)

/-- The loop of `ValidatePermissionsForPathEx`: the most specific block, and
whether a block for the next component was missing in it. -/
def descend : ACL → Path → ACL × Bool
  | acl, [] => (acl, false)
  | acl, identifier :: path =>
    if acl.acls.isEmpty then (acl, false)
    else
      match findACL acl.acls identifier with
      | none => (acl, true)
      | some tmp => descend tmp path

/-- The loop over the entries.  An entry is skipped if one of its type has
matched. -/
def processEntries (evaluate : ACLEntry → Option Bool) :
    Bool → Bool → List ACLEntry → Option (Bool × Bool)
  | allow, deny, [] => some (allow, deny)
  | allow, deny, entry :: entries =>
    if (entry.type = .allow ∧ allow = true) ∨
        (entry.type = .deny ∧ deny = true) then
      processEntries evaluate allow deny entries
    else
      match evaluate entry with
      | none => none
      | some result =>
        match entry.type with
        | .allow => processEntries evaluate result deny entries
        | .deny => processEntries evaluate allow result entries

def validatePermissionsForPathEx (evaluate : ACLEntry → Option Bool)
    (acl : ACL) (path : Path) : Option OperPermission :=
  let r := descend acl path.tail
  if r.1.acls.isEmpty = false ∧ r.2 = true then some .deny
  else if r.1.entries = [] then some .allow
  else
    (processEntries evaluate false false r.1.entries).map fun (allow, deny) =>
      if allow && !deny then .allow else .deny

/-- What the server knows of a client. -/
structure Client where
  isServer : Bool
  isMe : Bool
  isULine : Bool
  isOper : Bool
  myUser : Bool
  operlogin : Option (List Char)
  /-- The module data `operclass`. -/
  operclass : Option (List Char)

/-- The blocks `oper` (with their names and operclasses) and `operclass` of the
configuration. -/
structure Config where
  opers : List (List Char × List Char)
  operclasses : List OperClass

def Config.findOper (C : Config) (name : Option (List Char)) :
    Option (List Char) :=
  name.bind fun name => (C.opers.find? (·.1 == name)).map Prod.snd

def Config.findOperclass (C : Config) (name : List Char) : Option OperClass :=
  C.operclasses.find? (·.name == name)

def Config.operclassOf (C : Config) (client : Client) : Option (List Char) :=
  match C.findOper client.operlogin with
  | some operclass => some operclass
  | none => client.operclass

/-- The loop of `ValidatePermissionsForPath`.  `left` counts down to the point
where `looping` is above 10. -/
def validateLoop (C : Config) (validate : ACL → Option OperPermission)
    (identifier : List Char) : ℕ → OperClass → Option OperPermission
  | 0, _ => some .deny
  | left + 1, oc =>
    match findACL oc.acls identifier with
    | some acl => validate acl
    | none =>
      match oc.isa.bind C.findOperclass with
      | none => some .deny
      | some oc => validateLoop C validate identifier left oc

def validatePermissionsForPath {P : Type} (C : Config)
    (root : Option (PathNode P)) (params : P) (client : Client)
    (path : List Char) : Option OperPermission :=
  if client.isServer || client.isMe || client.isULine ||
      (client.isOper && !client.myUser) then some .allow
  else if !client.isOper then some .deny
  else
    match (C.operclassOf client).bind C.findOperclass with
    | none => some .deny
    | some oc =>
      match parsePath path with
      | none => none
      | some [] => some .deny
      | some (identifier :: rest) =>
        validateLoop C
          (fun acl => validatePermissionsForPathEx
            (fun entry => (evaluateACLEntry root params entry
              (identifier :: rest)).map Prod.snd)
            acl (identifier :: rest))
          identifier 11 oc

end UnrealIrcd.Operclass
