import UnrealIrcd.Nick.Model

/-!
# Looking clients up

Ids start with a digit and have no small letters, and nicks do not start with a
digit.  So the search for an id finds the client with that id
(`findClient_id`), and the search for a nick finds the client with that nick
(`findClient_nick`).
-/

namespace UnrealIrcd.Nick

open Support

/-! ## Comparing names -/

theorem sameName_iff {s t : List Char} :
    sameName s t = true ↔ s.map Char.toUpper = t.map Char.toUpper := by
  rw [sameName, beq_iff_eq]

theorem sameName_comm (s t : List Char) : sameName s t = sameName t s := by
  rw [Bool.eq_iff_iff, sameName_iff, sameName_iff]
  exact eq_comm

theorem isDigit_toUpper (c : Char) : c.toUpper.isDigit = c.isDigit := by
  unfold Char.toUpper
  split
  · next h =>
      rw [Bool.eq_iff_iff]
      simp only [Char.isDigit, Bool.and_eq_true, decide_eq_true_eq, ge_iff_le,
        UInt32.le_iff_toNat_le] at h ⊢
      rw [UInt32.toNat_add]
      simp at h ⊢
      omega
  · rfl

theorem toUpper_of_lt {c : Char} (h : c.val < 'a'.val) : c.toUpper = c :=
  dif_neg fun hlower => UInt32.not_lt.mpr hlower.1 h

theorem toUpper_of_isDigit {c : Char} (h : c.isDigit = true) :
    c.toUpper = c := by
  have hle := of_decide_eq_true (Bool.and_eq_true_iff.mp h).2
  exact toUpper_of_lt (UInt32.lt_of_le_of_lt hle (by decide))

/-! ## Ids -/

theorem exists_cons_uid (id : Uid) :
    ∃ c cs, id.val = c :: cs ∧ c.isDigit = true ∧
      ∀ d ∈ cs, d.isDigit = true ∨ d.isUpper = true := by
  obtain ⟨s, hs⟩ := id
  cases s with
  | nil => cases hs
  | cons c cs =>
    simp only [validUid, Bool.and_eq_true, List.all_eq_true,
      Bool.or_eq_true] at hs
    exact ⟨c, cs, rfl, hs.2.1, hs.2.2⟩

theorem map_toUpper_uid (id : Uid) : id.val.map Char.toUpper = id.val := by
  obtain ⟨c, cs, hcs, hc, hrest⟩ := exists_cons_uid id
  rw [hcs, List.map_cons, toUpper_of_isDigit hc]
  have hmap : cs.map Char.toUpper = cs.map fun d => d := by
    refine List.map_congr_left fun d hd => ?_
    rcases hrest d hd with hdigit | hupper
    · exact toUpper_of_isDigit hdigit
    · exact toUpper_of_lt
        (UInt32.lt_of_le_of_lt (of_decide_eq_true hupper).2 (by decide))
  rw [hmap, List.map_id_fun']
  rfl

variable {nick : List Char}

/-- An id is never the nick of a client. -/
theorem sameName_uid_nick (id : Uid) (h : NickText nick) :
    sameName id.val nick = false := by
  obtain ⟨c, cs, hcs, hc, -⟩ := exists_cons_uid id
  rw [Bool.eq_false_iff, ne_eq, sameName_iff, hcs]
  intro hmap
  cases nick with
  | nil => cases hmap
  | cons d nick =>
    have hhead := (List.cons.inj hmap).1
    have hd : d.isDigit = false := h.2 d rfl
    rw [← isDigit_toUpper, ← hhead, isDigit_toUpper, hc] at hd
    cases hd

/-! ## Clients -/

theorem findClient_id (clients : List Client) (id : Uid) :
    findClient clients id.val = clients.find? fun c => c.id = id := by
  have hid : hashFindId clients id.val = clients.find? fun c => c.id = id := by
    unfold hashFindId
    congr 1
    funext c
    rw [Bool.eq_iff_iff, sameName_iff, map_toUpper_uid, map_toUpper_uid,
      decide_eq_true_eq, Subtype.ext_iff]
    exact eq_comm
  have hname : hashFindClient clients id.val = none := by
    refine List.find?_eq_none.mpr fun c _ => ?_
    rw [sameName_uid_nick id c.name.property]
    exact Bool.false_ne_true
  rw [findClient, hid, hname, Option.or_none]

theorem findClient_nick (clients : List Client) (h : NickText nick) :
    findClient clients nick = hashFindClient clients nick := by
  have hid : hashFindId clients nick = none := by
    refine List.find?_eq_none.mpr fun c _ => ?_
    rw [sameName_comm, sameName_uid_nick c.id h]
    exact Bool.false_ne_true
  rw [findClient, hid, Option.none_or]

variable {clients : List Client} {client : Client}

theorem findClient_eq_some (h : NickText nick) (hmem : client ∈ clients)
    (hname : sameName nick client.name.val = true)
    (honly : ∀ c ∈ clients, sameName nick c.name.val = true → c = client) :
    findClient clients nick = some client := by
  rw [findClient_nick clients h, hashFindClient]
  cases hfind : clients.find? fun c => sameName nick c.name.val with
  | none => exact absurd hname (List.find?_eq_none.mp hfind client hmem)
  | some c =>
    have hc : sameName nick c.name.val = true :=
      @List.find?_some Client (fun c => sameName nick c.name.val) _ _ hfind
    rw [honly c (List.mem_of_find?_eq_some hfind) hc]

/-! ## Who is in the tables -/

/-- A client with this id is in the tables. -/
def Known (clients : List Client) (id : Uid) : Prop := ∃ c ∈ clients, c.id = id

theorem mem_exitClient {client c : Client} :
    c ∈ exitClient clients client ↔ c ∈ clients ∧ c.id ≠ client.id := by
  rw [exitClient, List.mem_filter, bne_iff_ne]

theorem known_exitClient {id : Uid} :
    Known (exitClient clients client) id ↔
      Known clients id ∧ id ≠ client.id := by
  constructor
  · rintro ⟨c, hc, rfl⟩
    obtain ⟨hmem, hne⟩ := mem_exitClient.mp hc
    exact ⟨⟨c, hmem, rfl⟩, hne⟩
  · rintro ⟨⟨c, hmem, rfl⟩, hne⟩
    exact ⟨c, mem_exitClient.mpr ⟨hmem, hne⟩, rfl⟩

theorem known_rename {nick : NickName} {lastnick : ℤ} {id : Uid} :
    Known (rename clients client nick lastnick) id ↔ Known clients id := by
  have hid : ∀ c : Client, (if c.id = client.id then
      { c with name := nick, lastnick := lastnick } else c).id = c.id := by
    intro c
    split <;> rfl
  constructor
  · rintro ⟨d, hd, rfl⟩
    obtain ⟨c, hc, rfl⟩ := List.mem_map.mp hd
    exact ⟨c, hc, (hid c).symm⟩
  · rintro ⟨c, hc, rfl⟩
    exact ⟨_, List.mem_map_of_mem hc, hid c⟩

end UnrealIrcd.Nick
