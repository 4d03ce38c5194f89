import UnrealIrcd.Support.Decimal
import Mathlib.Data.List.Basic

/-!
# WebSocket output

`websocket_create_packet_ex` makes one frame of every line of a buffer.  Line
ends are skipped behind a line only, so a buffer that starts with one gives an
empty frame first.
-/

namespace UnrealIrcd.Websocket

open Support List

/-! ## The encoder -/

def isNewline (c : UInt8) : Bool := c == 10 || c == 13

/-- One frame, of `bytes_single_frame` bytes. -/
def createFrame (opcode : UInt8) (line : List UInt8) : List UInt8 :=
  let n := line.length
  if n < 126 then [opcode ||| 0x80, UInt8.ofNat n] ++ line
  else if n < 65536 then
    [opcode ||| 0x80, 126, UInt8.ofNat (n / 2 ^ 8), UInt8.ofNat n] ++ line
  else
    [opcode ||| 0x80, 127, 0, 0, 0, 0, UInt8.ofNat (n / 2 ^ 24),
      UInt8.ofNat (n / 2 ^ 16), UInt8.ofNat (n / 2 ^ 8), UInt8.ofNat n] ++ line

theorem length_createFrame (opcode : UInt8) (line : List UInt8) :
    2 ≤ (createFrame opcode line).length := by
  unfold createFrame
  dsimp only
  split_ifs
  all_goals simp

/-- Up to a line end, or to a NUL byte. -/
def inLine (c : UInt8) : Bool := c != 0 && !isNewline c

/-- What is behind a line and its line ends. -/
def behindLine (s : List UInt8) : List UInt8 :=
  (s.dropWhile inLine).dropWhile isNewline

/-- The loop over the lines of `s`, behind what is in `sendbuf`. -/
def createLoop (opcode : UInt8) (sendbufsize : ℕ) (s sendbuf : List UInt8) :
    Option (List UInt8) :=
  let frame := createFrame opcode (s.takeWhile inLine)
  if sendbufsize < sendbuf.length + frame.length then none
  else
    if behindLine s = [] then some (sendbuf ++ frame)
    else createLoop opcode sendbufsize (behindLine s) (sendbuf ++ frame)
  termination_by sendbufsize - sendbuf.length
  decreasing_by
    have hpos : 2 ≤ frame.length := length_createFrame _ _
    change sendbufsize - (sendbuf ++ frame).length < _
    rw [List.length_append]
    omega

/-- The frames of a buffer, or nothing if this fails. -/
def websocketCreatePacketEx (opcode : UInt8) (buf : List UInt8)
    (sendbufsize : ℕ) : Option (List UInt8) :=
  if buf = [] then none else createLoop opcode sendbufsize buf []

/-! ## The protocol -/

/-- The frame without a mask at the front of a buffer: its first byte and its
payload, and what follows. -/
def decodeFrame : List UInt8 → Option ((UInt8 × List UInt8) × List UInt8)
  | b₀ :: b₁ :: p =>
    let width := if b₁ = 126 then 2 else if b₁ = 127 then 8 else 0
    let len := if width = 0 then b₁.toNat
      else leValue (p.take width).reverse
    if 128 ≤ b₁ ∨ (p.drop width).length < len then none
    else some ((b₀, (p.drop width).take len), (p.drop width).drop len)
  | _ => none

def decodeFrames : ℕ → List UInt8 → Option (List (UInt8 × List UInt8))
  | _, [] => some []
  | 0, _ => none
  | fuel + 1, buf =>
    (decodeFrame buf).bind fun r =>
      (decodeFrames fuel r.2).map (r.1 :: ·)

def nonemptyLines (buf : List UInt8) : List (List UInt8) :=
  (buf.splitOnP isNewline).filter (· ≠ [])

/-! ## Decoding -/

theorem decodeFrame_append (b₀ : UInt8) {b₁ : UInt8} {number line : List UInt8}
    (hwidth : number.length = if b₁ = 126 then 2 else if b₁ = 127 then 8 else 0)
    (hlen : line.length =
      if number.length = 0 then b₁.toNat else leValue number.reverse)
    (hmask : b₁ < 128) (tail : List UInt8) :
    decodeFrame (b₀ :: b₁ :: number ++ line ++ tail) =
      some ((b₀, line), tail) := by
  have hshort : ¬ (128 ≤ b₁ ∨ (line ++ tail).length < line.length) := by
    rintro (hle | hlt)
    · exact UInt8.not_le.mpr hmask hle
    · rw [length_append] at hlt
      omega
  rw [cons_append, cons_append, cons_append, cons_append,
    append_assoc, decodeFrame]
  simp only [← hwidth, take_left, drop_left, ← hlen, if_neg hshort]

theorem decodeFrame_createFrame (opcode : UInt8) {line : List UInt8}
    (hlen : line.length < 2 ^ 31) (tail : List UInt8) :
    decodeFrame (createFrame opcode line ++ tail) =
      some ((opcode ||| 0x80, line), tail) := by
  unfold createFrame
  dsimp only
  split_ifs with hshort hmedium
  · have hnum : (UInt8.ofNat line.length).toNat = line.length :=
      UInt8.toNat_ofNat_of_lt' (hshort.trans (by decide))
    have hne : ∀ b : UInt8, 126 ≤ b.toNat → UInt8.ofNat line.length ≠ b := by
      rintro _ hb rfl
      omega
    refine @decodeFrame_append _ _ [] line ?_ hnum.symm ?_ tail
    · rw [if_neg (hne 126 (by decide)), if_neg (hne 127 (by decide))]
      rfl
    · rw [UInt8.lt_iff_toNat_lt, hnum]
      exact hshort.trans (by decide)
  · refine @decodeFrame_append _ 126 [_, _] line rfl ?_ (by decide) tail
    exact (@leValue_leBytes_of_lt 2 line.length hmedium).symm
  · refine @decodeFrame_append _ 127 [0, 0, 0, 0, _, _, _, _] line rfl ?_
      (by decide) tail
    have hvalue := @leValue_leBytes_of_lt 8 line.length (by omega)
    have hzero : ∀ k, 2 ^ 32 ≤ k → line.length / k = 0 :=
      fun k hk => Nat.div_eq_of_lt (by omega)
    simpa [leBytes, Nat.div_div_eq_div_mul, hzero] using hvalue.symm

theorem length_flatMap_createFrame (opcode : UInt8)
    (lines : List (List UInt8)) :
    lines.length ≤ (lines.flatMap (createFrame opcode)).length := by
  induction lines with
  | nil => exact Nat.le_refl _
  | cons line lines ih =>
    have hpos := length_createFrame opcode line
    rw [flatMap_cons, length_append, length_cons]
    omega

theorem decodeFrames_flatMap (opcode : UInt8) {lines : List (List UInt8)}
    (hlen : ∀ line ∈ lines, line.length < 2 ^ 31) {fuel : ℕ}
    (hfuel : lines.length ≤ fuel) :
    decodeFrames fuel (lines.flatMap (createFrame opcode)) =
      some (lines.map fun line => (opcode ||| 0x80, line)) := by
  induction lines generalizing fuel with
  | nil =>
    cases fuel <;> rfl
  | cons line lines ih =>
    obtain ⟨fuel, rfl⟩ := Nat.exists_eq_add_one.mpr
      (Nat.zero_lt_of_lt (Nat.lt_of_succ_le hfuel))
    have hpos := length_createFrame opcode line
    have hrest := ih (fun l hl => hlen l (by simp [hl]))
      (Nat.le_of_succ_le_succ hfuel)
    rw [flatMap_cons, decodeFrames, decodeFrame_createFrame opcode
      (hlen line (by simp)), Option.bind_some, hrest]
    · rfl
    · intro hnil
      simp [(append_eq_nil_iff.mp hnil).1] at hpos

/-! ## The lines -/

theorem nonemptyLines_newline {c : UInt8} (hc : isNewline c = true)
    (s : List UInt8) : nonemptyLines (c :: s) = nonemptyLines s := by
  rw [nonemptyLines, splitOnP_cons_eq_if_modifyHead, if_pos hc]
  rfl

theorem nonemptyLines_dropWhile (s : List UInt8) :
    nonemptyLines (s.dropWhile isNewline) = nonemptyLines s := by
  induction s with
  | nil => rfl
  | cons c s ih =>
    by_cases hc : isNewline c = true
    · rw [dropWhile_cons_of_pos hc, ih, nonemptyLines_newline hc]
    · rw [dropWhile_cons_of_neg hc]

/-- The first line, which may be empty, and what is behind it. -/
theorem splitOnP_isNewline {s : List UInt8} (hnul : 0 ∉ s) :
    ∃ rest, s.splitOnP isNewline = s.takeWhile inLine :: rest ∧
      rest.filter (· ≠ []) = nonemptyLines (behindLine s) := by
  simp only [behindLine, nonemptyLines_dropWhile]
  induction s with
  | nil => exact ⟨[], rfl, rfl⟩
  | cons c s ih =>
    rw [splitOnP_cons_eq_if_modifyHead]
    by_cases hc : isNewline c = true
    · have hin : ¬ inLine c = true := by simp [inLine, hc]
      refine ⟨s.splitOnP isNewline, ?_, ?_⟩
      · rw [if_pos hc, takeWhile_cons_of_neg hin]
      · rw [dropWhile_cons_of_neg hin, nonemptyLines_newline hc]
        rfl
    · have hne : c ≠ 0 := fun heq => hnul (by simp [heq])
      have hin : inLine c = true := by simp [inLine, hne, hc]
      obtain ⟨rest, hsplit, hrest⟩ := ih (not_mem_of_not_mem_cons hnul)
      refine ⟨rest, ?_, ?_⟩
      · rw [if_neg hc, hsplit, takeWhile_cons_of_pos hin]
        rfl
      · rw [dropWhile_cons_of_pos hin, hrest]

theorem nonemptyLines_cons {c : UInt8} {s : List UInt8}
    (hc : isNewline c = false) (hnul : 0 ∉ c :: s) :
    nonemptyLines (c :: s) = (c :: s).takeWhile inLine ::
      nonemptyLines (behindLine (c :: s)) := by
  have hne : c ≠ 0 := fun heq => hnul (by simp [heq])
  obtain ⟨rest, hsplit, hrest⟩ := splitOnP_isNewline hnul
  rw [nonemptyLines, hsplit, filter_cons_of_pos, hrest]
  simp [inLine, hne, hc]

/-- The loop makes a frame of what is in front of the first line end, and of
every line behind it that is not empty. -/
theorem createLoop_eq {opcode : UInt8} {size : ℕ} {s sendbuf out : List UInt8}
    (hnul : 0 ∉ s) (h : createLoop opcode size s sendbuf = some out) :
    ∃ lines, lines = s.takeWhile inLine :: nonemptyLines (behindLine s) ∧
      (∀ line ∈ lines, line.length ≤ s.length) ∧
      out = sendbuf ++ lines.flatMap (createFrame opcode) := by
  refine ⟨_, rfl, ?_⟩
  fun_induction createLoop opcode size s sendbuf with
  | case1 => cases h
  | case2 s sendbuf frame hroom hend =>
    cases h
    have hle := (takeWhile_sublist inLine (l := s)).length_le
    simp [hend, nonemptyLines, frame, hle]
  | case3 s sendbuf frame hroom hmore ih =>
    have hsub : (behindLine s).Sublist s :=
      (dropWhile_sublist _).trans (dropWhile_sublist _)
    have hnul' : 0 ∉ behindLine s := fun hzero => hnul (hsub.subset hzero)
    have hhead : isNewline ((behindLine s).head hmore) = false :=
      head_dropWhile_not ..
    obtain ⟨c, rest, hrest⟩ := exists_cons_of_ne_nil hmore
    have hlines : nonemptyLines (behindLine s) =
        (behindLine s).takeWhile inLine ::
          nonemptyLines (behindLine (behindLine s)) := by
      simp only [hrest, head_cons] at hnul' hhead ⊢
      exact nonemptyLines_cons hhead hnul'
    obtain ⟨hle, hout⟩ := ih hnul' h
    rw [← hlines] at hle hout
    refine ⟨?_, by rw [hout, flatMap_cons, append_assoc]⟩
    intro line hline
    rcases mem_cons.mp hline with rfl | hline
    · exact (takeWhile_sublist _).length_le
    · exact (hle line hline).trans hsub.length_le

/-- A packet consists of the lines of the buffer exactly if the buffer does not
start with a line end. -/
theorem decodeFrames_websocketCreatePacketEx_iff (opcode : UInt8)
    {buf : List UInt8} (hlen : buf.length < 2 ^ 31) (hnul : 0 ∉ buf)
    {sendbufsize : ℕ} {out : List UInt8}
    (h : websocketCreatePacketEx opcode buf sendbufsize = some out) :
    decodeFrames out.length out =
        some ((nonemptyLines buf).map fun line => (opcode ||| 0x80, line)) ↔
      ∀ c ∈ buf.head?, isNewline c = false := by
  cases buf with
  | nil => cases h
  | cons c s =>
    obtain ⟨lines, hlines, hle, rfl⟩ := createLoop_eq hnul h
    have hdecode := decodeFrames_flatMap opcode
      (fun line hline => (hle line hline).trans_lt hlen)
      (length_flatMap_createFrame opcode lines)
    rw [nil_append, hdecode, Option.some_inj,
      (map_injective_iff.mpr fun _ _ heq => (Prod.mk.inj heq).2).eq_iff, hlines]
    simp only [head?_cons, Option.mem_some_iff, forall_eq']
    constructor
    · intro heq
      by_contra hc
      have hempty : (c :: s).takeWhile inLine = [] :=
        takeWhile_cons_of_neg (by simp_all [inLine])
      have hmem : [] ∈ nonemptyLines (c :: s) := by simp [← heq, hempty]
      simp [nonemptyLines] at hmem
    · intro hc
      exact (nonemptyLines_cons hc hnul).symm

/-- Two lines, one of them with two line ends. -/
theorem decodeFrames_twoLines :
    decodeFrames 7 [0x81, 1, 97, 0x81, 2, 98, 99] =
      some [(0x81, [97]), (0x81, [98, 99])] := by
  have hcreate : websocketCreatePacketEx 1 [97, 13, 10, 98, 99] 100 =
      some [0x81, 1, 97, 0x81, 2, 98, 99] := by
    simp [websocketCreatePacketEx, createLoop, createFrame, behindLine, inLine,
      isNewline]
    decide
  exact (decodeFrames_websocketCreatePacketEx_iff 1 (by decide) (by decide)
    hcreate).mpr (by rintro _ ⟨⟩; rfl)

/-- A line end in front of the line makes an empty frame. -/
theorem websocketCreatePacketEx_leadingNewline :
    websocketCreatePacketEx 1 [13, 97] 100 = some [0x81, 0, 0x81, 1, 97] ∧
      decodeFrames 5 [0x81, 0, 0x81, 1, 97] =
        some [(0x81, []), (0x81, [97])] ∧
      nonemptyLines [13, 97] = [[97]] := by
  refine ⟨?_, by decide, by decide⟩
  simp [websocketCreatePacketEx, createLoop, createFrame, behindLine, inLine,
    isNewline]
  decide

end UnrealIrcd.Websocket
