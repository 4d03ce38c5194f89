import UnrealIrcd.Operclass.Model

/-!
# Permissions of local opers

What `ValidatePermissionsForPath` decides if no entry has variables: the first
class on the chain of parents that has a block for the first component decides,
by the block that the rest of the path leads to.
-/

namespace UnrealIrcd.Operclass

open Support List

/-! ## What the classes say -/

/-- The first classes on the chain of parents. -/
def Config.chain (C : Config) : ℕ → OperClass → List OperClass
  | 0, _ => []
  | n + 1, oc => oc :: ((oc.isa.bind C.findOperclass).map (C.chain n)).getD []

/-- The path leads from a block to a block that is reached fully or has no
blocks in it. -/
inductive ACL.Resolves : ACL → Path → ACL → Prop
  | reached (acl : ACL) : acl.Resolves [] acl
  | leaf {acl : ACL} (path : Path) (h : acl.acls = []) : acl.Resolves path acl
  | step {acl sub block : ACL} {identifier : List Char} {path : Path}
      (hsub : findACL acl.acls identifier = some sub)
      (h : sub.Resolves path block) : acl.Resolves (identifier :: path) block

/-- The block has no entries, or an allow entry and no deny entry. -/
def ACL.Grants (block : ACL) : Prop :=
  block.entries = [] ∨ (∃ entry ∈ block.entries, entry.type = .allow) ∧
    ∀ entry ∈ block.entries, entry.type ≠ .deny

def Config.Allows (C : Config) (client : Client) (identifier : List Char)
    (rest : Path) : Prop :=
  ∃ start oc acl block, (C.operclassOf client).bind C.findOperclass = some start ∧
    (C.chain 11 start).find? (fun oc => (findACL oc.acls identifier).isSome) =
      some oc ∧
    findACL oc.acls identifier = some acl ∧ acl.Resolves rest block ∧
    block.Grants

/-- A user of this server who is an oper. -/
structure Client.LocalOper (client : Client) : Prop where
  isServer : client.isServer = false
  isMe : client.isMe = false
  isULine : client.isULine = false
  isOper : client.isOper = true
  myUser : client.myUser = true

/-! ## Blocks without variables -/

/-- The block is `acl` or somewhere in it. -/
inductive ACL.Within : ACL → ACL → Prop
  | refl (acl : ACL) : acl.Within acl
  | step {block sub acl : ACL} (hsub : sub ∈ acl.acls) (h : block.Within sub) :
      block.Within acl

def ACL.NoVariables (acl : ACL) : Prop :=
  ∀ block : ACL, block.Within acl → ∀ entry ∈ block.entries, entry.vars = []

def OperClass.NoVariables (oc : OperClass) : Prop :=
  ∀ acl ∈ oc.acls, acl.NoVariables

theorem ACL.NoVariables.sub {acl sub : ACL} (h : acl.NoVariables)
    (hsub : sub ∈ acl.acls) : sub.NoVariables :=
  fun block hblock => h block (.step hsub hblock)

theorem ACL.noVariables_mk {name : List Char} {entries : List ACLEntry}
    {acls : List ACL} :
    (ACL.mk name entries acls).NoVariables ↔
      (∀ entry ∈ entries, entry.vars = []) ∧
        ∀ sub ∈ acls, sub.NoVariables := by
  constructor
  · exact fun h => ⟨h _ (.refl _), fun sub hsub => h.sub hsub⟩
  · rintro ⟨hentries, hsubs⟩ block hblock
    cases hblock with
    | refl => exact hentries
    | step hsub h => exact hsubs _ hsub block h

/-- What the blocks decide by themselves. -/
def ACL.decision (acl : ACL) (path : Path) : OperPermission :=
  let r := descend acl path
  if r.1.acls.isEmpty = false ∧ r.2 = true then .deny
  else if r.1.entries = [] then .allow
  else if (r.1.entries.any (·.type == .allow)) &&
      !r.1.entries.any (·.type == .deny) then .allow
  else .deny

section Blocks

variable {acl : ACL} {path : Path}

theorem within_descend (acl : ACL) (path : Path) :
    (descend acl path).1.Within acl := by
  induction path generalizing acl with
  | nil => exact .refl acl
  | cons identifier path ih =>
    rw [descend]
    split
    · exact .refl acl
    split
    · exact .refl acl
    · next tmp hfind => exact .step (mem_of_find?_eq_some hfind) (ih tmp)

/-- Every entry matches, so one of each type is enough. -/
theorem processEntries_eq {evaluate : ACLEntry → Option Bool}
    {entries : List ACLEntry}
    (h : ∀ entry ∈ entries, evaluate entry = some true) (allow deny : Bool) :
    processEntries evaluate allow deny entries =
      some (allow || entries.any (·.type == .allow),
        deny || entries.any (·.type == .deny)) := by
  induction entries generalizing allow deny with
  | nil => rw [processEntries, any_nil, any_nil, Bool.or_false, Bool.or_false]
  | cons entry entries ih =>
    have hrest := ih fun e he => h e (mem_cons_of_mem entry he)
    rw [processEntries, h entry mem_cons_self, any_cons, any_cons]
    cases htype : entry.type with
    | allow =>
      cases allow with
      | true =>
        rw [if_pos (.inl ⟨rfl, rfl⟩), hrest]
        rfl
      | false =>
        rw [if_neg (by simp)]
        exact hrest _ _
    | deny =>
      cases deny with
      | true =>
        rw [if_pos (.inr ⟨rfl, rfl⟩), hrest]
        rfl
      | false =>
        rw [if_neg (by simp)]
        exact hrest _ _

theorem validatePermissionsForPathEx_eq {evaluate : ACLEntry → Option Bool}
    (hacl : acl.NoVariables)
    (h : ∀ entry : ACLEntry, entry.vars = [] → evaluate entry = some true)
    (path : Path) :
    validatePermissionsForPathEx evaluate acl path =
      some (acl.decision path.tail) := by
  have hentries : ∀ entry ∈ (descend acl path.tail).1.entries,
      evaluate entry = some true := fun entry hentry =>
    h entry (hacl _ (within_descend acl path.tail) entry hentry)
  rw [validatePermissionsForPathEx, ACL.decision]
  split
  · rfl
  split
  · rfl
  · rw [processEntries_eq hentries]
    simp only [Option.map_some, Bool.false_or]

theorem resolves_descend (h : (descend acl path).1.acls.isEmpty = true ∨
    (descend acl path).2 = false) : acl.Resolves path (descend acl path).1 := by
  induction path generalizing acl with
  | nil => exact .reached acl
  | cons identifier path ih =>
    rw [descend] at h ⊢
    split
    · next hempty => exact .leaf _ (List.isEmpty_iff.mp hempty)
    · next hempty =>
        rw [if_neg hempty] at h
        split
        · next hnone =>
            rw [hnone] at h
            rcases h with h | h
            · exact absurd h hempty
            · cases h
        · next tmp hfind =>
            rw [hfind] at h
            exact .step hfind (ih h)

theorem ACL.Resolves.descend {block : ACL} (h : acl.Resolves path block) :
    (descend acl path).1 = block ∧
      ((descend acl path).1.acls.isEmpty = true ∨
        (descend acl path).2 = false) := by
  induction h with
  | reached acl => exact ⟨rfl, .inr rfl⟩
  | @leaf acl path hleaf =>
    cases path with
    | nil => exact ⟨rfl, .inr rfl⟩
    | cons identifier path =>
      have hempty := List.isEmpty_iff.mpr hleaf
      rw [Operclass.descend, if_pos hempty]
      exact ⟨rfl, .inl hempty⟩
  | @step acl sub block identifier path hsub h ih =>
    have hne : ¬ acl.acls.isEmpty = true := by
      intro hempty
      rw [List.isEmpty_iff.mp hempty] at hsub
      cases hsub
    rw [Operclass.descend, if_neg hne, hsub]
    exact ih

theorem grants_iff {block : ACL} :
    block.Grants ↔ block.entries = [] ∨
      (block.entries.any (·.type == .allow) &&
        !block.entries.any (·.type == .deny)) = true := by
  simp only [ACL.Grants, Bool.and_eq_true, any_eq_true, beq_iff_eq,
    Bool.not_eq_true', any_eq_false]

theorem decision_eq_allow_iff :
    acl.decision path = .allow ↔
      ∃ block, acl.Resolves path block ∧ block.Grants := by
  have hcond : ¬ ((descend acl path).1.acls.isEmpty = false ∧
      (descend acl path).2 = true) ↔
      ((descend acl path).1.acls.isEmpty = true ∨
        (descend acl path).2 = false) := by
    rw [not_and_or, Bool.not_eq_false, Bool.not_eq_true]
  rw [ACL.decision]
  constructor
  · intro h
    split at h
    · cases h
    · next hfound =>
        refine ⟨_, resolves_descend (hcond.mp hfound), grants_iff.mpr ?_⟩
        split at h
        · next hnil => exact .inl hnil
        · split at h
          · next hany => exact .inr hany
          · cases h
  · rintro ⟨block, hblock, hgrants⟩
    obtain ⟨rfl, hfound⟩ := hblock.descend
    rw [if_neg (hcond.mpr hfound)]
    rcases grants_iff.mp hgrants with hnil | hany
    · rw [if_pos hnil]
    · rw [if_pos hany, ite_self]

end Blocks

/-! ## The chain of parents -/

section Chain

variable {C : Config} {identifier : List Char}

theorem validateLoop_eq {validate : ACL → Option OperPermission}
    {decide : ACL → OperPermission}
    (h : ∀ oc ∈ C.operclasses, ∀ acl, findACL oc.acls identifier = some acl →
      validate acl = some (decide acl))
    (n : ℕ) {oc : OperClass} (hoc : oc ∈ C.operclasses) :
    validateLoop C validate identifier n oc =
      some ((((C.chain n oc).find? fun oc =>
        (findACL oc.acls identifier).isSome).bind fun oc =>
          findACL oc.acls identifier).elim .deny decide) := by
  induction n generalizing oc with
  | zero => rfl
  | succ n ih =>
    rw [validateLoop, Config.chain]
    cases hfind : findACL oc.acls identifier with
    | some acl =>
      rw [find?_cons_of_pos (by rw [hfind]; rfl), Option.bind_some, hfind]
      exact h oc hoc acl hfind
    | none =>
      rw [find?_cons_of_neg (by rw [hfind]; exact Bool.false_ne_true)]
      cases hparent : oc.isa.bind C.findOperclass with
      | none => rfl
      | some parent =>
        obtain ⟨isa, -, hisa⟩ := Option.bind_eq_some_iff.mp hparent
        exact ih (mem_of_find?_eq_some hisa)

/-- What the classes decide by themselves. -/
def Config.decision (C : Config) (client : Client) (identifier : List Char)
    (rest : Path) : OperPermission :=
  ((C.operclassOf client).bind C.findOperclass).elim .deny fun oc =>
    (((C.chain 11 oc).find? fun oc =>
      (findACL oc.acls identifier).isSome).bind fun oc =>
        findACL oc.acls identifier).elim .deny (·.decision rest)

/-- What is decided for a local oper if no entry has variables. -/
theorem validatePermissionsForPath_eq {P : Type} {root : Option (PathNode P)}
    {params : P} {client : Client} (hclient : client.LocalOper)
    (hC : ∀ oc ∈ C.operclasses, oc.NoVariables) {path : List Char}
    {rest : Path} (hpath : parsePath path = some (identifier :: rest)) :
    validatePermissionsForPath C root params client path =
      some (C.decision client identifier rest) := by
  have hlocal : (client.isServer || client.isMe || client.isULine ||
      (client.isOper && !client.myUser)) = false := by
    rw [hclient.isServer, hclient.isMe, hclient.isULine, hclient.myUser]
    simp
  rw [validatePermissionsForPath, hlocal, hclient.isOper, Config.decision]
  cases hoper : (C.operclassOf client).bind C.findOperclass with
  | none => rfl
  | some oc =>
    obtain ⟨name, -, hname⟩ := Option.bind_eq_some_iff.mp hoper
    have hoc := mem_of_find?_eq_some hname
    simp only [hpath]
    refine validateLoop_eq ?_ 11 hoc
    intro oc hoc acl hacl
    refine validatePermissionsForPathEx_eq
      (hC oc hoc acl (mem_of_find?_eq_some hacl)) ?_ _
    intro entry hentry
    rw [evaluateACLEntry, if_pos hentry]
    rfl

theorem elim_deny_eq_allow {α : Type} {o : Option α} {f : α → OperPermission} :
    o.elim .deny f = .allow ↔ ∃ a, o = some a ∧ f a = .allow := by
  cases o with
  | none | some a => simp

theorem allows_iff {client : Client} {rest : Path} :
    C.Allows client identifier rest ↔
      C.decision client identifier rest = .allow := by
  rw [Config.decision, elim_deny_eq_allow]
  constructor
  · rintro ⟨start, oc, acl, block, hstart, hoc, hacl, hblock, hgrants⟩
    refine ⟨start, hstart, ?_⟩
    rw [hoc, Option.bind_some, hacl]
    exact decision_eq_allow_iff.mpr ⟨block, hblock, hgrants⟩
  · rintro ⟨start, hstart, h⟩
    obtain ⟨acl, hbind, h⟩ := elim_deny_eq_allow.mp h
    obtain ⟨oc, hoc, hacl⟩ := Option.bind_eq_some_iff.mp hbind
    obtain ⟨block, hblock, hgrants⟩ := decision_eq_allow_iff.mp h
    exact ⟨start, oc, acl, block, hstart, hoc, hacl, hblock, hgrants⟩

end Chain

/-! ## The order of entries -/

/-- The same block with the entries in another order, at every depth. -/
inductive ACL.Reordered : ACL → ACL → Prop
  | mk (name : List Char) {entries entries' : List ACLEntry}
      {acls acls' : List ACL} (hentries : entries.Perm entries')
      (hacls : List.Forall₂ ACL.Reordered acls acls') :
      ACL.Reordered (.mk name entries acls) (.mk name entries' acls')

/-- The same class with the entries of its blocks in another order. -/
structure OperClass.Reordered (oc oc' : OperClass) : Prop where
  isa : oc'.isa = oc.isa
  name : oc'.name = oc.name
  acls : List.Forall₂ ACL.Reordered oc.acls oc'.acls

/-- The same configuration with the entries in another order. -/
structure Config.Reordered (C C' : Config) : Prop where
  opers : C'.opers = C.opers
  operclasses : List.Forall₂ OperClass.Reordered C.operclasses C'.operclasses

section Related

variable {α β : Type} {R : α → β → Prop} {l : List α} {l' : List β}
  {o : Option α} {o' : Option β}

theorem find?_forall₂ {p : α → Bool} {q : β → Bool}
    (hpq : ∀ a b, R a b → p a = q b) (h : List.Forall₂ R l l') :
    Option.Rel R (l.find? p) (l'.find? q) := by
  induction h with
  | nil => exact .none
  | @cons a b l l' hab _ ih =>
    rw [find?_cons, find?_cons, hpq a b hab]
    cases q b with
    | true => exact .some hab
    | false => exact ih

theorem isEmpty_of_forall₂ (h : List.Forall₂ R l l') :
    l.isEmpty = l'.isEmpty := by
  cases h with
  | nil | cons hab h => rfl

theorem exists_mem_of_forall₂ (h : List.Forall₂ R l l') {b : β} (hb : b ∈ l') :
    ∃ a ∈ l, R a b := by
  induction h with
  | nil => cases hb
  | @cons a b' l l' hab _ ih =>
    rcases mem_cons.mp hb with rfl | hb
    · exact ⟨a, mem_cons_self, hab⟩
    · obtain ⟨a', ha', hab'⟩ := ih hb
      exact ⟨a', mem_cons_of_mem a ha', hab'⟩

theorem isSome_of_rel (h : Option.Rel R o o') : o.isSome = o'.isSome := by
  cases h with
  | none | some hab => rfl

theorem elim_rel {γ : Type} {f : α → γ} {g : β → γ}
    (hfg : ∀ a b, R a b → f a = g b) (d : γ) (h : Option.Rel R o o') :
    o.elim d f = o'.elim d g := by
  cases h with
  | none => rfl
  | some hab => exact hfg _ _ hab

end Related

section Order

variable {acl acl' : ACL}

namespace ACL.Reordered

theorem name (h : acl.Reordered acl') : acl.name = acl'.name := by
  cases h
  rfl

theorem entries (h : acl.Reordered acl') : acl.entries.Perm acl'.entries := by
  cases h with
  | mk name hentries hacls => exact hentries

theorem acls (h : acl.Reordered acl') :
    List.Forall₂ ACL.Reordered acl.acls acl'.acls := by
  cases h with
  | mk name hentries hacls => exact hacls

end ACL.Reordered

theorem findACL_reordered {acls acls' : List ACL}
    (h : List.Forall₂ ACL.Reordered acls acls') (name : List Char) :
    Option.Rel ACL.Reordered (findACL acls name) (findACL acls' name) :=
  find?_forall₂ (fun _ _ hab => by rw [hab.name]) h

theorem descend_reordered (h : acl.Reordered acl') (path : Path) :
    (descend acl path).1.Reordered (descend acl' path).1 ∧
      (descend acl path).2 = (descend acl' path).2 := by
  induction path generalizing acl acl' with
  | nil => exact ⟨h, rfl⟩
  | cons identifier path ih =>
    rw [descend, descend, isEmpty_of_forall₂ h.acls]
    split
    · exact ⟨h, rfl⟩
    · have hfind := findACL_reordered h.acls identifier
      generalize findACL acl.acls identifier = found at hfind ⊢
      generalize findACL acl'.acls identifier = found' at hfind ⊢
      cases hfind with
      | none => exact ⟨h, rfl⟩
      | some hsub => exact ih hsub

theorem decision_reordered (h : acl.Reordered acl') (path : Path) :
    acl.decision path = acl'.decision path := by
  obtain ⟨hblock, hmissing⟩ := descend_reordered h path
  have hany : ∀ type : EntryType,
      ((descend acl path).1.entries.any fun entry => entry.type == type) =
        (descend acl' path).1.entries.any fun entry => entry.type == type := by
    intro type
    rw [Bool.eq_iff_iff, any_eq_true, any_eq_true]
    simp only [hblock.entries.mem_iff]
  have hnil : (descend acl path).1.entries = [] ↔
      (descend acl' path).1.entries = [] := by
    rw [← length_eq_zero_iff, ← length_eq_zero_iff, hblock.entries.length_eq]
  simp only [ACL.decision, isEmpty_of_forall₂ hblock.acls, hmissing, hany, hnil]

variable {C C' : Config}

theorem bind_findOperclass_reordered (h : C.Reordered C')
    (name : Option (List Char)) :
    Option.Rel OperClass.Reordered (name.bind C.findOperclass)
      (name.bind C'.findOperclass) := by
  cases name with
  | none => exact .none
  | some name =>
    exact find?_forall₂ (fun _ _ hab => by rw [hab.name]) h.operclasses

theorem chain_reordered (h : C.Reordered C') (n : ℕ) {oc oc' : OperClass}
    (hoc : oc.Reordered oc') :
    List.Forall₂ OperClass.Reordered (C.chain n oc) (C'.chain n oc') := by
  induction n generalizing oc oc' with
  | zero => exact .nil
  | succ n ih =>
    rw [Config.chain, Config.chain, hoc.isa]
    refine .cons hoc ?_
    have hparent := bind_findOperclass_reordered h oc.isa
    generalize oc.isa.bind C.findOperclass = parent at hparent ⊢
    generalize oc.isa.bind C'.findOperclass = parent' at hparent ⊢
    cases hparent with
    | none => exact .nil
    | some hparent => exact ih hparent

theorem decision_of_reordered (h : C.Reordered C') (client : Client)
    (identifier : List Char) (rest : Path) :
    C.decision client identifier rest = C'.decision client identifier rest := by
  have hname : C'.operclassOf client = C.operclassOf client := by
    rw [Config.operclassOf, Config.findOper, h.opers]
    rfl
  rw [Config.decision, Config.decision, hname]
  refine elim_rel ?_ _ (bind_findOperclass_reordered h (C.operclassOf client))
  intro start start' hstart
  refine elim_rel (R := ACL.Reordered)
    (fun acl acl' hacl => decision_reordered hacl rest) _ ?_
  have hfound := find?_forall₂ (fun oc oc' hoc =>
    isSome_of_rel (findACL_reordered hoc.acls identifier))
      (chain_reordered h 11 hstart)
  generalize (C.chain 11 start).find? _ = o,
    (C'.chain 11 start').find? _ = o' at hfound ⊢
  cases hfound with
  | none => exact .none
  | some hoc => exact findACL_reordered hoc.acls identifier

theorem noVariables_of_reordered (h : acl.Reordered acl')
    (hacl : acl.NoVariables) : acl'.NoVariables := by
  intro block hblock
  induction hblock generalizing acl with
  | refl =>
    intro entry hentry
    exact hacl acl (.refl acl) entry (h.entries.mem_iff.mpr hentry)
  | step hsub _ ih =>
    obtain ⟨sub', hsub', hrel⟩ := exists_mem_of_forall₂ h.acls hsub
    exact ih hrel (hacl.sub hsub')

theorem operclasses_noVariables_of_reordered (h : C.Reordered C')
    (hC : ∀ oc ∈ C.operclasses, oc.NoVariables) :
    ∀ oc ∈ C'.operclasses, oc.NoVariables := by
  intro oc' hoc' acl' hacl'
  obtain ⟨oc, hoc, hrel⟩ := exists_mem_of_forall₂ h.operclasses hoc'
  obtain ⟨acl, hacl, hrel'⟩ := exists_mem_of_forall₂ hrel.acls hacl'
  exact noVariables_of_reordered hrel' (hC oc hoc acl hacl)

end Order

/-! ## The decision -/

/-- For a local oper and classes whose entries have no variables, the check
comes to a decision.  It allows a path exactly if the classes do, and the order
of entries does not matter. -/
theorem validatePermissionsForPath_spec {P : Type} (C : Config)
    (hC : ∀ oc ∈ C.operclasses, oc.NoVariables) (root : Option (PathNode P))
    (params : P) (client : Client) (hclient : client.LocalOper)
    (path identifier : List Char) (rest : Path)
    (hpath : strtokens (· == ':') path = identifier :: rest) :
    (∃ permission,
      validatePermissionsForPath C root params client path = some permission ∧
        (permission = .allow ↔ C.Allows client identifier rest)) ∧
      ∀ C' : Config, C.Reordered C' →
        validatePermissionsForPath C' root params client path =
          validatePermissionsForPath C root params client path := by
  have hparse : parsePath path = some (identifier :: rest) :=
    parsePath_eq.mpr ⟨hpath, cons_ne_nil _ _⟩
  have heq := fun C' (hC' : ∀ oc ∈ Config.operclasses C', oc.NoVariables) =>
    @validatePermissionsForPath_eq C' identifier P root params client hclient
      hC' path rest hparse
  refine ⟨⟨_, heq C hC, allows_iff.symm⟩, fun C' h => ?_⟩
  rw [heq C hC, heq C' (operclasses_noVariables_of_reordered h hC),
    decision_of_reordered h]

/-- An oper of the class `helper`, which denies `kill:global` and inherits from
`base`.  The parent of `base` is `helper` again. -/
def sampleConfig : Config where
  opers := [("bob".toList, "helper".toList)]
  operclasses :=
    [⟨some "base".toList, "helper".toList,
        [.mk "kill".toList []
          [.mk "local".toList [] [], .mk "global".toList [⟨[], .deny⟩] []]]⟩,
      ⟨some "helper".toList, "base".toList, [.mk "self".toList [] []]⟩]

def sampleOper : Client :=
  ⟨false, false, false, true, true, some "bob".toList, none⟩

/-- `kill:local` is allowed by a block without entries. -/
theorem validatePermissionsForPath_sample :
    validatePermissionsForPath sampleConfig none () sampleOper
        "kill:local".toList = some .allow ∧
      sampleConfig.Allows sampleOper "kill".toList ["local".toList] := by
  obtain ⟨⟨permission, heq, hiff⟩, -⟩ := validatePermissionsForPath_spec
    sampleConfig (by simp [sampleConfig, OperClass.NoVariables,
      ACL.noVariables_mk]) none () sampleOper
    ⟨rfl, rfl, rfl, rfl, rfl⟩ "kill:local".toList "kill".toList
    ["local".toList] (by decide)
  have hallow : validatePermissionsForPath sampleConfig none () sampleOper
      "kill:local".toList = some .allow := by decide
  refine ⟨hallow, hiff.mp ?_⟩
  rw [hallow] at heq
  exact (Option.some.inj heq).symm

end UnrealIrcd.Operclass
