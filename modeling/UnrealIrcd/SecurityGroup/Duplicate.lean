import UnrealIrcd.SecurityGroup.Model

/-!
# Copies of security groups

`duplicate_security_group` copies the lists and reads the rules again from their
texts.  It does not copy the flags, the reputation score and the connect time, and
a group that sets one of these can differ from its copy.
-/

namespace UnrealIrcd.SecurityGroup

open Support Criteria List

variable {Node : Type}

/-- A `SecurityGroup` with `prettyrule` and `exclude_prettyrule`, from which the
rules are parsed.  `add_nvplist` stores no empty value. -/
structure Stored (M : Modules Node) where
  group : Group Node
  prettyrule : Side → Option String
  rule_eq : ∀ side, (group side).rule = (prettyrule side).bind M.cruleParse
  extended_ne : ∀ side, ∀ p ∈ (group side).extended, p.2 ≠ some ""

/-- `unreal_duplicate_masks`. -/
def unrealDuplicateMasks (existing : List String) : List String :=
  existing.foldl (fun ret n => n :: ret) []

def duplicateNameList (e : List String) : List String :=
  e.foldl (fun ret n => ret ++ [n]) []

/-- `duplicate_nvplist`.  The priorities are all 0. -/
def duplicateNvplist (e : List (String × Option String)) :
    List (String × Option String) :=
  e.foldl (fun n p => (p.1, p.2.bind nvpValue) :: n) []

theorem duplicateNameList_eq (e : List String) : duplicateNameList e = e :=
  foldl_append_eq_append.trans (flatMap_singleton' e)

theorem duplicateNvplist_eq {e : List (String × Option String)}
    (h : ∀ p ∈ e, p.2 ≠ some "") : duplicateNvplist e = e.reverse := by
  have hkeep : ∀ p ∈ e, (p.1, p.2.bind nvpValue) = p := by
    rintro ⟨name, value⟩ hp
    cases value with
    | none => rfl
    | some v =>
      have hv : v ≠ "" := fun hv => h _ hp (congrArg some hv)
      exact congrArg (Prod.mk name) (if_neg hv)
  rw [duplicateNvplist, foldl_flip_cons_eq_append, append_nil,
    map_congr_left hkeep, map_id']

def duplicateSecurityGroup {M : Modules Node} (s : Stored M) : Stored M where
  group := fun side =>
    { (Criteria.empty : Criteria Node) with
      mask := unrealDuplicateMasks (s.group side).mask
      names := fun kind => duplicateNameList ((s.group side).names kind)
      rule := (s.prettyrule side).bind M.cruleParse
      extended := duplicateNvplist (s.group side).extended }
  prettyrule := s.prettyrule
  rule_eq := fun _ => rfl
  extended_ne := fun side p hp =>
    s.extended_ne side p
      (List.mem_reverse.mp (duplicateNvplist_eq (s.extended_ne side) ▸ hp))

/-- What is not copied. -/
def Criteria.scalars (c : Criteria Node) : Criteria Node :=
  { c with mask := [], names := fun _ => [], rule := none, extended := [] }

/-- The rest. -/
def Criteria.lists (c : Criteria Node) : Criteria Node :=
  { c with flags := fun _ => false, reputationScore := 0, connectTime := 0 }

variable (M : Modules Node) (N : Tkl.InetPton) (client : Client Node)

theorem namesHold_nil (inGroup : String → Bool) (ctx : Context) (kind : NameKind) :
    namesHold N client inGroup ctx kind [] = false := by
  cases kind with
  | ip =>
    unfold namesHold unrealMatchIplist
    repeat' split
    all_goals rfl
  | serverPort | securityGroup => rfl
  | destination =>
    unfold namesHold
    cases ctx.destination <;> rfl

variable (G : Groups Node) (ctx : Context) (side : Side)

/-- The checks of one side of a group. -/
def sideHolds (c : Criteria Node) : Bool :=
  checks M N client
    (allowedByName G (allowedTo M N client G 8)) ctx
    (match side with
      | .included => client.tlsIncluded
      | .excluded => client.tlsExcluded) c

theorem allowed_eq_sides (g : Group Node) :
    userAllowedBySecurityGroupContext M N client G g ctx =
      (!sideHolds M N client G ctx .excluded (g .excluded) &&
        sideHolds M N client G ctx .included (g .included)) := rfl

theorem sideHolds_eq (c : Criteria Node) :
    sideHolds M N client G ctx side c =
      (sideHolds M N client G ctx side c.scalars ||
        sideHolds M N client G ctx side c.lists) := by
  have hbound : ∀ n, boundHolds 0 n = false := fun _ => rfl
  have hmask : ∀ f, unrealMaskMatch f [] = false := fun _ => rfl
  simp only [sideHolds, checks, scalars, lists, hbound, hmask, namesHold_nil,
    any_nil, Option.any_none, Bool.false_and, Bool.or_false, Bool.false_or,
    Bool.or_assoc]

theorem sideHolds_empty :
    sideHolds M N client G ctx side Criteria.empty = false := by
  simp only [sideHolds, checks, Criteria.empty, namesHold_nil, any_nil,
    Option.any_none, Bool.false_and, Bool.or_false]
  rfl

/-- The order of the masks and of the extended server bans does not matter. -/
theorem sideHolds_duplicate (s : Stored M) :
    sideHolds M N client G ctx side ((duplicateSecurityGroup s).group side) =
      sideHolds M N client G ctx side (s.group side).lists := by
  have hmask : unrealDuplicateMasks (s.group side).mask =
      (s.group side).mask.reverse ++ [] := foldl_flip_cons_eq_append'
  simp only [sideHolds, checks, duplicateSecurityGroup, lists,
    Criteria.empty, hmask, append_nil, unrealMaskMatch, reverse_eq_nil_iff,
    filter_reverse, isEmpty_reverse, any_reverse, duplicateNameList_eq,
    s.rule_eq side, duplicateNvplist_eq (s.extended_ne side)]

/-- No extbans, and every time is a minute. -/
def sampleModules : Modules Unit where
  findmodByBantypeRaw := fun _ => none
  cruleParse := fun _ => none
  checkvalTime := fun _ => 60

/-- No text is an address. -/
def sampleInetPton : Tkl.InetPton where
  inet := fun _ => none
  inet6 := fun _ => none
  inet_chars := nofun
  inet6_colon := nofun
  inet6_chars := nofun

/-- A client that is logged in, and connected for 100 seconds. -/
def sampleClient : Client Node where
  tkl := ⟨false, [], [], none, none, none, true, fun _ => false,
    fun _ => false, fun _ => false⟩
  isLoggedIn := true
  webirc := false
  websocket := false
  reputation := 0
  connectedTime := 100
  isSecureConnect := false
  myConnect := true
  isUser := true
  isSecure := false
  serverPort := 6667
  serverBan := fun _ _ => false
  isBanned := fun _ _ _ => false
  cruleEval := fun _ _ _ => false

/-- A client for whom each flag and number of a side holds. -/
def scalarClient (c : Criteria Node) : Client Node :=
  { sampleClient with
    webirc := true
    websocket := true
    reputation := c.reputationScore
    connectedTime := c.connectTime
    isSecureConnect := true }

theorem eq_zero_of_boundHolds {n : ℤ} (h : boundHolds n n = false) : n = 0 := by
  simp [boundHolds] at h
  omega

theorem sideHolds_scalarClient {c : Criteria Node} (h : c.scalars ≠ Criteria.empty) :
    sideHolds M N (scalarClient c) G ctx side c.scalars = true := by
  by_contra hnone
  simp only [sideHolds, checks, Bool.not_eq_true, Bool.or_eq_false_iff,
    and_assoc] at hnone
  obtain ⟨hidentified, hwebirc, hwebsocket, hreputation, hconnect, htls, -⟩ :=
    hnone
  apply h
  have hflags : c.flags = fun _ => false := by
    funext flag
    cases flag with
    | identified => exact (Bool.and_true _).symm.trans hidentified
    | webirc => exact (Bool.and_true _).symm.trans hwebirc
    | websocket => exact (Bool.and_true _).symm.trans hwebsocket
    | tls =>
      cases side with
      | included | excluded => exact (Bool.and_true _).symm.trans htls
  have hscore : c.reputationScore = 0 := eq_zero_of_boundHolds hreputation
  have htime : c.connectTime = 0 := eq_zero_of_boundHolds hconnect
  rw [scalars, hflags, hscore, htime]
  rfl

/-- A group with the flags and numbers of another one and with names. -/
def withNames (M : Modules Node) (g : Group Node)
    (names : Side → NameKind → List String) : Stored M where
  group side := { (g side).scalars with names := names side }
  prettyrule := fun _ => none
  rule_eq := fun _ => rfl
  extended_ne := fun _ _ hp => absurd hp not_mem_nil

/-- The port of `sampleClient` is on the list of those that are included. -/
def samplePorts : Side → NameKind → List String
  | .included, .serverPort => ["6667"]
  | _, _ => []

theorem sideHolds_samplePorts (c : Criteria Node) (g : Group Node) :
    sideHolds M N (scalarClient c) G ctx .included
      ((withNames M g samplePorts).group .included).lists = true := by
  have hport : ∀ inGroup, namesHold N (scalarClient c) inGroup ctx .serverPort
      ["6667"] = true := fun _ => (Bool.or_false _).trans
    (by decide : strcasecmpEq "6667".toList (decimal 6667) = true)
  have hnames : ((withNames M g samplePorts).group .included).lists.names
      .serverPort = ["6667"] := rfl
  simp only [sideHolds, checks, hnames, hport, Bool.or_true, Bool.true_or]

/-- The groups with certain flags and numbers are copied right, whatever their lists
are, exactly if no flag and no number is set. -/
theorem duplicate_allowed_iff (M : Modules Node) (g : Group Node) :
    (∀ s : Stored M, (∀ side, (s.group side).scalars = (g side).scalars) →
      ∀ N client G ctx,
        userAllowedBySecurityGroupContext M N client G
            (duplicateSecurityGroup s).group ctx =
          userAllowedBySecurityGroupContext M N client G s.group ctx) ↔
    ∀ side, (g side).scalars = Criteria.empty := by
  simp only [allowed_eq_sides, sideHolds_duplicate]
  constructor
  · intro h
    have hsides : ∀ names client, _ := fun names client =>
      h (withNames M g names) (fun _ => rfl) sampleInetPton client [] .none
    have hparts : ∀ names client side, sideHolds M sampleInetPton client [] .none
        side ((withNames M g names).group side) =
        (sideHolds M sampleInetPton client [] .none side (g side).scalars ||
          sideHolds M sampleInetPton client [] .none side
            ((withNames M g names).group side).lists) :=
      fun names client side => sideHolds_eq _ _ _ _ _ _ _
    have hexcluded : (g .excluded).scalars = Criteria.empty := by
      by_contra hne
      -- all that are on the port are included, and the copy excludes none of them
      have hsame := hsides samplePorts (scalarClient (g .excluded))
      have hnone : ((withNames M g samplePorts).group .excluded).lists =
        Criteria.empty := rfl
      rw [hparts, sideHolds_samplePorts, sideHolds_scalarClient _ _ _ _ _ hne,
        hnone, sideHolds_empty] at hsame
      cases hsame
    rintro (_ | _)
    · by_contra hne
      -- without lists the copy includes nobody
      have hsame := hsides (fun _ _ => []) (scalarClient (g .included))
      have hnone : ∀ side, ((withNames M g fun _ _ => []).group side).lists =
        Criteria.empty := fun _ => rfl
      rw [hparts, hparts, hnone, hnone, sideHolds_scalarClient _ _ _ _ _ hne,
        hexcluded, sideHolds_empty, sideHolds_empty] at hsame
      cases hsame
    · exact hexcluded
  · intro hempty s hs N client G ctx
    have hsides : ∀ side, sideHolds M N client G ctx side (s.group side) =
        sideHolds M N client G ctx side (s.group side).lists := by
      intro side
      rw [sideHolds_eq, hs, hempty, sideHolds_empty, Bool.false_or]
    rw [hsides, hsides]

/-- A client that is logged in is in the group of `match { identified yes; }` and
not in the copy. -/
theorem identified_not_duplicated :
    ∃ s : Stored sampleModules,
      confMatchBlock sampleModules
          (.mk "match" none [.mk "identified" (some "yes") []]) = some s.group ∧
        userAllowedBySecurityGroupContext sampleModules sampleInetPton
          sampleClient [] s.group .none = true ∧
        userAllowedBySecurityGroupContext sampleModules sampleInetPton
          sampleClient [] (duplicateSecurityGroup s).group .none = false := by
  let g : Group Unit :=
    Group.modify (fun _ => Criteria.empty) .included (setFlag .identified true)
  have hrule : ∀ side, (g side).rule = none := fun side => by cases side <;> rfl
  have hextended : ∀ side, (g side).extended = [] := fun side => by
    cases side <;> rfl
  refine ⟨⟨g, fun _ => none, hrule, fun side => ?_⟩, rfl, rfl, rfl⟩
  rw [hextended side]
  exact forall_mem_nil _

end UnrealIrcd.SecurityGroup
