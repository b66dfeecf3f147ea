import PageSpeed.Base.Ascii

/-!
Chunked bodies, taken apart buffer by buffer. A machine that goes byte by byte says what comes of a stream, however it
is cut.
-/

namespace PageSpeed.Iis

inductive Mode
  | chunkLength
  | lengthCr
  | lengthLf
  | block
  | blockCr
  | blockLf
  | extension
  deriving DecidableEq

structure Dechunker where
  chunked : Bool
  currentmode : Mode := .chunkLength
  sizeBuffer : GoogleString := []
  currentblocklength : ℕ := 0
  currentData : Option GoogleString := none
  data : Option GoogleString := none
  validStream : Bool := true
  eof : Bool := false

/-- An `unsigned long` has 32 bits on Windows. -/
def ulongMax : ℕ := 2 ^ 32 - 1

def isHexDigit (c : UInt8) : Bool := (97 ≤ c && c ≤ 102) || (48 ≤ c && c ≤ 57)

def hexDigit (c : UInt8) : ℕ := if c ≤ 57 then c.toNat - 48 else c.toNat - 87

def hexNumber (digits : GoogleString) : ℕ := digits.foldl (fun n c => 16 * n + hexDigit c) 0

def strtoul (digits : GoogleString) : ℕ := min (hexNumber digits) ulongMax

namespace Dechunker

def init (chunked : Bool) : Dechunker := { chunked }

def setInvalidStream (d : Dechunker) : Dechunker := { d with validStream := false, data := none, eof := true }

def expect (d : Dechunker) (c expected : UInt8) (newmode : Mode) : Bool × Dechunker :=
  if c = expected then (true, { d with currentmode := newmode }) else (false, d.setInvalidStream)

def feedChunk (d : Dechunker) (data : GoogleString) : Bool × Dechunker :=
  if !d.validStream || d.eof then (false, d) else (true, { d with data := some data, currentData := none })

/-- Mode 1: `\r`, or the start of chunk extensions. -/
def lengthEnd (d : Dechunker) (c : UInt8) : Bool × Dechunker :=
  if c = 59 ∨ c = 32 ∨ c = 9 then (true, { d with currentmode := .extension }) else d.expect c 13 .lengthLf

def parseLength (d : Dechunker) (c : UInt8) : Bool × Dechunker :=
  if d.sizeBuffer.length = 19 then (false, d.setInvalidStream)
  else if isHexDigit (lowerChar c) then (true, { d with sizeBuffer := d.sizeBuffer ++ [lowerChar c] })
  else if d.sizeBuffer = [] ∨ strtoul d.sizeBuffer = ulongMax then (false, d.setInvalidStream)
  else if strtoul d.sizeBuffer = 0 then
    (false, { d with
      currentblocklength := 0, sizeBuffer := [], data := none, currentData := none, eof := true
      currentmode := .chunkLength })
  else
    lengthEnd { d with
      currentblocklength := strtoul d.sizeBuffer, sizeBuffer := [], currentmode := .lengthCr } c

def parseByte (d : Dechunker) (c : UInt8) : Bool × Dechunker :=
  match d.currentmode with
  | .chunkLength => d.parseLength c
  | .lengthCr => d.lengthEnd c
  | .lengthLf => d.expect c 10 .block
  | .block => (true, d)
  | .blockCr => d.expect c 13 .blockLf
  | .blockLf => d.expect c 10 .chunkLength
  | .extension =>
    if c = 13 then (true, { d with currentmode := .lengthLf })
    else if c = 10 then (false, d.setInvalidStream)
    else (true, d)

def takeBlock (d : Dechunker) (bytes : GoogleString) : Dechunker :=
  if bytes.length ≤ d.currentblocklength then
    { d with
      currentblocklength := d.currentblocklength - bytes.length, currentData := some bytes, data := some [] }
  else
    { d with
      currentblocklength := 0, currentmode := .blockCr, currentData := some (bytes.take d.currentblocklength)
      data := some (bytes.drop d.currentblocklength) }

def parseLoop : Dechunker → GoogleString → Bool × Dechunker
  | d, [] => (false, { d with currentData := none, data := some [] })
  | d, c :: bytes =>
    if d.currentmode = .block then (true, d.takeBlock (c :: bytes))
    else
      match d.parseByte c with
      | (false, d) => (false, d)
      | (true, d) => parseLoop d bytes

def parseNext (d : Dechunker) : Bool × Dechunker :=
  if !d.chunked then
    match d.data with
    | some bytes => (true, { d with currentData := some bytes, data := none })
    | none => (false, { d with currentData := none })
  else if !d.validStream || d.eof then (false, d)
  else
    match d.data with
    | none => (false, { d with currentData := none })
    | some bytes => parseLoop { d with currentData := none } bytes

/-- The blocks of a buffer: `ParseNext` is called until it returns false. -/
def blocksFuel : ℕ → Dechunker → Option (List GoogleString × Dechunker)
  | 0, _ => none
  | fuel + 1, d =>
    match d.parseNext with
    | (false, d) => some ([], d)
    | (true, d) => (blocksFuel fuel d).map fun r => (d.currentData.getD [] :: r.1, r.2)

def takeBuffer (d : Dechunker) (buffer : GoogleString) : Option (List GoogleString × Dechunker) :=
  blocksFuel (2 * buffer.length + 2) (d.feedChunk buffer).2

def takeBuffers (d : Dechunker) : List GoogleString → Option (List GoogleString × Dechunker)
  | [] => some ([], d)
  | buffer :: buffers =>
    (d.takeBuffer buffer).bind fun r => (takeBuffers r.2 buffers).map fun r' => (r.1 ++ r'.1, r'.2)

def result (chunked : Bool) (buffers : List GoogleString) : Option (GoogleString × Bool × Bool) :=
  ((init chunked).takeBuffers buffers).map fun r => (r.1.flatten, r.2.validStream, r.2.eof)

end Dechunker

/-! A stream byte by byte. -/

inductive Phase
  | size (digits : GoogleString)
  | sizeEnd (left : ℕ)
  | extension (left : ℕ)
  | lineFeed (left : ℕ)
  | body (left : ℕ)
  | bodyLf
  | done
  | bad
  deriving DecidableEq

namespace Phase

def endSize (left : ℕ) (c : UInt8) : Phase :=
  if c = 59 ∨ c = 32 ∨ c = 9 then .extension left else if c = 13 then .lineFeed left else .bad

def nextSize (digits : GoogleString) (c : UInt8) : Phase :=
  if digits.length = 19 then .bad
  else if isHexDigit (lowerChar c) then .size (digits ++ [lowerChar c])
  else if digits = [] ∨ ulongMax ≤ hexNumber digits then .bad
  else if hexNumber digits = 0 then .done
  else endSize (hexNumber digits) c

def next : Phase → UInt8 → Phase
  | .size digits, c => nextSize digits c
  | .sizeEnd left, c => endSize left c
  | .extension left, c => if c = 13 then .lineFeed left else if c = 10 then .bad else .extension left
  | .lineFeed left, c => if c = 10 then .body left else .bad
  | .body 0, c => if c = 13 then .bodyLf else .bad
  | .body (left + 1), _ => .body left
  | .bodyLf, c => if c = 10 then .size [] else .bad
  | .done, _ => .done
  | .bad, _ => .bad

def emits : Phase → UInt8 → GoogleString
  | .body (_ + 1), c => [c]
  | _, _ => []

def run (p : Phase) (s : GoogleString) : Phase := s.foldl next p

def output : Phase → GoogleString → GoogleString
  | _, [] => []
  | p, c :: s => p.emits c ++ (p.next c).output s

variable {p : Phase}

theorem run_append (p : Phase) (s t : GoogleString) : p.run (s ++ t) = (p.run s).run t := List.foldl_append

theorem output_append (p : Phase) (s t : GoogleString) : p.output (s ++ t) = p.output s ++ (p.run s).output t := by
  induction s generalizing p with
  | nil => rfl
  | cons c s ih =>
    rw [List.cons_append, output, output, ih, List.append_assoc]
    rfl

theorem run_ended {p : Phase} (h : p = .done ∨ p = .bad) (s : GoogleString) : p.run s = p ∧ p.output s = [] := by
  induction s with
  | nil => exact ⟨rfl, rfl⟩
  | cons c s ih =>
    have hnext : p.next c = p ∧ p.emits c = [] := by
      obtain rfl | rfl := h
      · exact ⟨rfl, rfl⟩
      · exact ⟨rfl, rfl⟩
    have hrun : p.run (c :: s) = (p.next c).run s := rfl
    rw [hrun, output, hnext.1, hnext.2]
    exact ih

theorem run_body {n : ℕ} {s : GoogleString} (h : s.length ≤ n) :
    (Phase.body n).run s = .body (n - s.length) ∧ (Phase.body n).output s = s := by
  induction s generalizing n with
  | nil => exact ⟨rfl, rfl⟩
  | cons c s ih =>
    cases n with
    | zero => exact absurd h (Nat.not_succ_le_zero _)
    | succ n =>
      obtain ⟨hrun, houtput⟩ := ih (Nat.le_of_succ_le_succ h)
      refine ⟨?_, ?_⟩
      · have hcons : (Phase.body (n + 1)).run (c :: s) = (Phase.body n).run s := rfl
        rw [hcons, hrun, List.length_cons, Nat.add_sub_add_right]
      · rw [output, next, houtput]
        rfl

end Phase

namespace Dechunker

variable {d : Dechunker}

def livePhase (d : Dechunker) : Phase :=
  match d.currentmode with
  | .chunkLength => .size d.sizeBuffer
  | .lengthCr => .sizeEnd d.currentblocklength
  | .lengthLf => .lineFeed d.currentblocklength
  | .block => .body d.currentblocklength
  | .blockCr => .body 0
  | .blockLf => .bodyLf
  | .extension => .extension d.currentblocklength

def phase (d : Dechunker) : Phase :=
  if d.validStream = false then .bad else if d.eof = true then .done else d.livePhase

structure Inv (d : Dechunker) : Prop where
  chunked : d.chunked = true
  digits : d.currentmode ≠ .chunkLength → d.sizeBuffer = []
  ended : d.validStream = false → d.eof = true

theorem Inv.valid (h : Inv d) (hlive : d.eof = false) : d.validStream = true := by
  cases hvalid : d.validStream with
  | true => rfl
  | false =>
    have heof := h.ended hvalid
    rw [hlive] at heof
    cases heof

theorem phase_live (h : Inv d) (hlive : d.eof = false) : d.phase = d.livePhase := by
  rw [phase, h.valid hlive, hlive]
  rfl

theorem phase_ended (h : d.eof = true) : d.phase = .done ∨ d.phase = .bad := by
  rw [phase, if_pos h]
  split_ifs
  · exact Or.inr rfl
  · exact Or.inl rfl

structure Turn (p : Phase) (r : Bool × Dechunker) : Prop where
  inv : Inv r.2
  phase : r.2.phase = p
  goes : r.1 = !r.2.eof

theorem turn_invalid (h : Inv d) : Turn .bad (false, d.setInvalidStream) :=
  ⟨⟨h.chunked, h.digits, fun _ => rfl⟩, rfl, rfl⟩

theorem turn_live (h : Inv d) (hlive : d.eof = false) : Turn d.livePhase (true, d) :=
  ⟨h, phase_live h hlive, by rw [hlive]; rfl⟩

theorem Inv.mode (h : Inv d) (hdigits : d.sizeBuffer = []) (mode : Mode) : Inv { d with currentmode := mode } :=
  ⟨h.chunked, fun _ => hdigits, h.ended⟩

theorem turn_expect (h : Inv d) (hlive : d.eof = false) (hdigits : d.sizeBuffer = []) (c expected : UInt8)
    (mode : Mode) : Turn (if c = expected then ({ d with currentmode := mode } : Dechunker).livePhase else .bad)
      (d.expect c expected mode) := by
  rw [expect]
  split_ifs
  · exact turn_live (h.mode hdigits mode) hlive
  · exact turn_invalid h

theorem turn_lengthEnd (h : Inv d) (hlive : d.eof = false) (hdigits : d.sizeBuffer = []) (c : UInt8) :
    Turn (Phase.endSize d.currentblocklength c) (d.lengthEnd c) := by
  rw [lengthEnd, Phase.endSize]
  split_ifs with hext hcr
  · exact turn_live (h.mode hdigits .extension) hlive
  · rw [expect, if_pos hcr]
    exact turn_live (h.mode hdigits .lengthLf) hlive
  · rw [expect, if_neg hcr]
    exact turn_invalid h

theorem strtoul_eq_ulongMax_iff (digits : GoogleString) : strtoul digits = ulongMax ↔ ulongMax ≤ hexNumber digits :=
  min_eq_right_iff

theorem turn_parseLength (h : Inv d) (hlive : d.eof = false) (hmode : d.currentmode = .chunkLength) (c : UInt8) :
    Turn (Phase.nextSize d.sizeBuffer c) (d.parseLength c) := by
  have hinvalid := strtoul_eq_ulongMax_iff d.sizeBuffer
  rw [parseLength, Phase.nextSize]
  by_cases hlong : d.sizeBuffer.length = 19
  · rw [if_pos hlong, if_pos hlong]
    exact turn_invalid h
  rw [if_neg hlong, if_neg hlong]
  by_cases hhex : isHexDigit (lowerChar c) = true
  · have hsize : ({ d with sizeBuffer := d.sizeBuffer ++ [lowerChar c] } : Dechunker).livePhase =
        .size (d.sizeBuffer ++ [lowerChar c]) := by
      simp only [livePhase, hmode]
    rw [if_pos hhex, if_pos hhex, ← hsize]
    exact turn_live ⟨h.chunked, fun hne => absurd hmode hne, h.ended⟩ hlive
  rw [if_neg hhex, if_neg hhex]
  by_cases hnumber : d.sizeBuffer = [] ∨ ulongMax ≤ hexNumber d.sizeBuffer
  · have hwrong : d.sizeBuffer = [] ∨ strtoul d.sizeBuffer = ulongMax := hnumber.imp_right hinvalid.mpr
    rw [if_pos hnumber, if_pos hwrong]
    exact turn_invalid h
  have hright : ¬ (d.sizeBuffer = [] ∨ strtoul d.sizeBuffer = ulongMax) := fun hor =>
    hnumber (hor.imp_right hinvalid.mp)
  rw [if_neg hnumber, if_neg hright]
  have hvalue : strtoul d.sizeBuffer = hexNumber d.sizeBuffer :=
    min_eq_left (Nat.le_of_not_le fun hle => hnumber (Or.inr hle))
  rw [hvalue]
  split_ifs
  · refine ⟨⟨h.chunked, fun hne => absurd rfl hne, fun _ => rfl⟩, ?_, rfl⟩
    rw [phase, h.valid hlive]
    rfl
  · exact turn_lengthEnd
      (d := { d with
        currentblocklength := hexNumber d.sizeBuffer, sizeBuffer := [], currentmode := .lengthCr })
      ⟨h.chunked, fun _ => rfl, h.ended⟩ hlive rfl c

theorem turn_parseByte (h : Inv d) (hlive : d.eof = false) (hblock : d.currentmode ≠ .block) (c : UInt8) :
    Turn (d.phase.next c) (d.parseByte c) ∧ d.phase.emits c = [] := by
  rw [phase_live h hlive, livePhase, parseByte]
  cases hmode : d.currentmode with
  | chunkLength => exact ⟨turn_parseLength h hlive hmode c, rfl⟩
  | lengthCr => exact ⟨turn_lengthEnd h hlive (h.digits (by rw [hmode]; decide)) c, rfl⟩
  | lengthLf => exact ⟨turn_expect h hlive (h.digits (by rw [hmode]; decide)) c 10 .block, rfl⟩
  | block => exact absurd hmode hblock
  | blockCr => exact ⟨turn_expect h hlive (h.digits (by rw [hmode]; decide)) c 13 .blockLf, rfl⟩
  | blockLf =>
    have hdigits := h.digits (by rw [hmode]; decide)
    have hturn := turn_expect h hlive hdigits c 10 .chunkLength
    rw [livePhase, hdigits] at hturn
    exact ⟨hturn, rfl⟩
  | extension =>
    refine ⟨?_, rfl⟩
    have hdigits := h.digits (by rw [hmode]; decide)
    have hlivePhase : d.livePhase = .extension d.currentblocklength := by rw [livePhase, hmode]
    dsimp only
    rw [Phase.next]
    split_ifs
    · exact turn_live (h.mode hdigits .lengthLf) hlive
    · exact turn_invalid h
    · rw [← hlivePhase]
      exact turn_live h hlive

/-! A buffer. -/

def cost (d : Dechunker) (bytes : GoogleString) : ℕ :=
  2 * bytes.length + if d.currentmode = .block ∧ d.currentblocklength = 0 then 1 else 0

structure Found (d : Dechunker) (bytes : GoogleString) (d' : Dechunker) : Prop where
  inv : Inv d'
  live : d'.eof = false
  taken : ∃ front rest, bytes = front ++ rest ∧ d'.data = some rest ∧ d'.phase = d.phase.run front ∧
    d'.currentData = some (d.phase.output front) ∧ d'.cost rest < d.cost bytes

structure Finished (d : Dechunker) (bytes : GoogleString) (d' : Dechunker) : Prop where
  inv : Inv d'
  phase : d'.phase = d.phase.run bytes
  output : d.phase.output bytes = []

theorem found_takeBlock (h : Inv d) (hlive : d.eof = false) (hmode : d.currentmode = .block) {bytes : GoogleString}
    (hbytes : bytes ≠ []) : Found d bytes (d.takeBlock bytes) := by
  have hphase : d.phase = .body d.currentblocklength := by rw [phase_live h hlive, livePhase, hmode]
  have hdigits := h.digits (by rw [hmode]; decide)
  have hpos := List.length_pos_of_ne_nil hbytes
  rw [takeBlock]
  split_ifs with hle
  · have hinv : Inv { d with
        currentblocklength := d.currentblocklength - bytes.length, currentData := some bytes, data := some [] } :=
      ⟨h.chunked, fun _ => hdigits, h.ended⟩
    obtain ⟨hrun, houtput⟩ := Phase.run_body hle
    refine ⟨hinv, hlive, bytes, [], (List.append_nil _).symm, rfl, ?_, ?_, ?_⟩
    · rw [phase_live hinv hlive, livePhase, hmode, hphase, hrun]
    · rw [hphase, houtput]
    · rw [cost, cost, List.length_nil]
      split_ifs <;> omega
  · have hlength : (bytes.take d.currentblocklength).length = d.currentblocklength :=
      List.length_take_of_le (Nat.le_of_not_le hle)
    have hinv : Inv { d with
        currentblocklength := 0, currentmode := .blockCr, currentData := some (bytes.take d.currentblocklength)
        data := some (bytes.drop d.currentblocklength) } :=
      ⟨h.chunked, fun _ => hdigits, h.ended⟩
    obtain ⟨hrun, houtput⟩ := Phase.run_body hlength.le
    rw [hlength, Nat.sub_self] at hrun
    refine ⟨hinv, hlive, bytes.take d.currentblocklength, bytes.drop d.currentblocklength,
      (List.take_append_drop _ _).symm, rfl, ?_, ?_, ?_⟩
    · rw [phase_live hinv hlive, livePhase, hphase, hrun]
    · rw [hphase, houtput]
    · rw [cost, cost, List.length_drop, hmode]
      simp
      split_ifs <;> omega

theorem parseLoop_spec (h : Inv d) (hlive : d.eof = false) (bytes : GoogleString) :
    (d.parseLoop bytes).1 = true ∧ Found d bytes (d.parseLoop bytes).2 ∨
      (d.parseLoop bytes).1 = false ∧ Finished d bytes (d.parseLoop bytes).2 := by
  induction bytes generalizing d with
  | nil => exact Or.inr ⟨rfl, ⟨h.chunked, h.digits, h.ended⟩, rfl, rfl⟩
  | cons c bytes ih =>
    rw [parseLoop]
    by_cases hblock : d.currentmode = .block
    · rw [if_pos hblock]
      exact Or.inl ⟨rfl, found_takeBlock h hlive hblock (List.cons_ne_nil _ _)⟩
    · rw [if_neg hblock]
      obtain ⟨hturn, hemits⟩ := turn_parseByte h hlive hblock c
      generalize d.parseByte c = r at hturn
      obtain ⟨goes, d'⟩ := r
      obtain ⟨hinv, hphase, hgoes⟩ := hturn
      dsimp only at hinv hphase hgoes
      have hrun : d.phase.run (c :: bytes) = d'.phase.run bytes := by
        rw [hphase]
        rfl
      have houtput : d.phase.output (c :: bytes) = d'.phase.output bytes := by rw [Phase.output, hemits, hphase]; rfl
      cases heof : d'.eof with
      | true =>
        obtain rfl : goes = false := by rw [hgoes, heof]; rfl
        obtain ⟨hrest, hnone⟩ := Phase.run_ended (phase_ended heof) bytes
        exact Or.inr ⟨rfl, hinv, hrun.trans hrest |>.symm, houtput.trans hnone⟩
      | false =>
        obtain rfl : goes = true := by rw [hgoes, heof]; rfl
        obtain ⟨hfound, hinv', hlive', front, rest, rfl, hdata, hphase', hcurrent, hcost⟩ | ⟨hdone, hfinished⟩ :=
          ih hinv heof
        · refine Or.inl ⟨hfound, hinv', hlive', c :: front, rest, rfl, hdata, ?_, ?_, hcost.trans ?_⟩
          · rw [hphase', hphase]
            rfl
          · rw [hcurrent, hphase, Phase.output, hemits]
            rfl
          · have hnone : ¬ (d.currentmode = .block ∧ d.currentblocklength = 0) := fun hand => hblock hand.1
            rw [cost, cost, if_neg hnone, List.length_cons]
            split_ifs <;> omega
        · exact Or.inr ⟨hdone, hfinished.inv, hfinished.phase.trans hrun.symm, houtput.trans hfinished.output⟩

theorem blocksFuel_spec (fuel : ℕ) {bytes : GoogleString} (h : Inv d) (hlive : d.eof = false)
    (hdata : d.data = some bytes) (hfuel : d.cost bytes < fuel) :
    ∃ blocks d', blocksFuel fuel d = some (blocks, d') ∧ Inv d' ∧
      d'.phase = d.phase.run bytes ∧ blocks.flatten = d.phase.output bytes := by
  induction fuel generalizing d bytes with
  | zero => exact absurd hfuel (Nat.not_lt_zero _)
  | succ fuel ih =>
    have hnext : d.parseNext = parseLoop { d with currentData := none } bytes := by
      rw [parseNext, h.chunked, h.valid hlive, hlive, hdata]
      rfl
    have hinv : Inv { d with currentData := none } := ⟨h.chunked, h.digits, h.ended⟩
    have hloop := parseLoop_spec hinv hlive bytes
    rw [blocksFuel, hnext]
    generalize parseLoop { d with currentData := none } bytes = r at hloop
    obtain ⟨found, d'⟩ := r
    obtain ⟨rfl, hinv', hlive', front, rest, rfl, hdata', hphase, hcurrent, hcost⟩ | ⟨rfl, hfinished⟩ := hloop
    · obtain ⟨blocks, d'', hblocks, hinv'', hphase', hflatten⟩ :=
        ih hinv' hlive' hdata' (Nat.lt_of_lt_of_le hcost (Nat.le_of_lt_succ hfuel))
      dsimp only at hcurrent hblocks hphase' hflatten
      refine ⟨d.phase.output front :: blocks, d'', ?_, hinv'', ?_, ?_⟩
      · dsimp only
        rw [hblocks, hcurrent]
        rfl
      · rw [hphase', hphase, Phase.run_append]
        rfl
      · rw [List.flatten_cons, hflatten, hphase, Phase.output_append]
        rfl
    · exact ⟨[], d', rfl, hfinished.inv, hfinished.phase, hfinished.output.symm⟩

theorem takeBuffer_spec (h : Inv d) (buffer : GoogleString) : ∃ blocks d', d.takeBuffer buffer = some (blocks, d') ∧
    Inv d' ∧ d'.phase = d.phase.run buffer ∧ blocks.flatten = d.phase.output buffer := by
  cases hlive : d.eof with
  | true =>
    obtain ⟨hrun, houtput⟩ := Phase.run_ended (phase_ended hlive) buffer
    have hfeed : (d.feedChunk buffer).2 = d := by
      rw [feedChunk, hlive, Bool.or_true]
      rfl
    have hnext : d.parseNext = (false, d) := by
      rw [parseNext, h.chunked, hlive, Bool.or_true]
      rfl
    refine ⟨[], d, ?_, h, hrun.symm, houtput.symm⟩
    rw [takeBuffer, hfeed, blocksFuel, hnext]
  | false =>
    have hfeed : (d.feedChunk buffer).2 = { d with data := some buffer, currentData := none } := by
      rw [feedChunk, h.valid hlive, hlive]
      rfl
    have hinv : Inv { d with data := some buffer, currentData := none } := ⟨h.chunked, h.digits, h.ended⟩
    rw [takeBuffer, hfeed]
    refine blocksFuel_spec _ hinv hlive rfl ?_
    rw [cost]
    split_ifs <;> omega

theorem takeBuffers_spec (h : Inv d) (buffers : List GoogleString) : ∃ blocks d',
    d.takeBuffers buffers = some (blocks, d') ∧ Inv d' ∧
      d'.phase = d.phase.run buffers.flatten ∧ blocks.flatten = d.phase.output buffers.flatten := by
  induction buffers generalizing d with
  | nil => exact ⟨[], d, rfl, h, rfl, rfl⟩
  | cons buffer buffers ih =>
    obtain ⟨blocks, d', hbuffer, hinv, hphase, hblocks⟩ := takeBuffer_spec h buffer
    obtain ⟨blocks', d'', hbuffers, hinv', hphase', hblocks'⟩ := ih hinv
    refine ⟨blocks ++ blocks', d'', ?_, hinv', ?_, ?_⟩
    · rw [takeBuffers, hbuffer, Option.bind_some, hbuffers]
      rfl
    · rw [hphase', hphase, List.flatten_cons, Phase.run_append]
    · rw [List.flatten_append, hblocks, hblocks', hphase, List.flatten_cons, Phase.output_append]

theorem phase_eq (h : Inv d) : d.validStream = !decide (d.phase = .bad) ∧
    d.eof = (decide (d.phase = .bad) || decide (d.phase = .done)) := by
  cases hlive : d.eof with
  | true =>
    rw [phase, hlive]
    cases d.validStream with
    | true => exact ⟨rfl, rfl⟩
    | false => exact ⟨rfl, rfl⟩
  | false =>
    rw [h.valid hlive, phase_live h hlive, livePhase]
    cases d.currentmode <;> exact ⟨rfl, rfl⟩

theorem result_chunked (buffers : List GoogleString) : result true buffers =
    some ((Phase.size []).output buffers.flatten, !decide ((Phase.size []).run buffers.flatten = .bad),
      decide ((Phase.size []).run buffers.flatten = .bad) || decide ((Phase.size []).run buffers.flatten = .done)) := by
  have hinit : Inv (init true) := ⟨rfl, fun _ => rfl, nofun⟩
  obtain ⟨blocks, d, htake, hinv, hphase, hblocks⟩ := takeBuffers_spec hinit buffers
  obtain ⟨hvalid, heof⟩ := phase_eq hinv
  rw [hphase] at hvalid heof
  rw [result, htake, Option.map_some]
  dsimp only
  rw [hblocks, hvalid, heof]
  rfl

theorem takeBuffer_plain (hchunked : d.chunked = false) (hvalid : d.validStream = true) (hlive : d.eof = false)
    (buffer : GoogleString) : ∃ d', d.takeBuffer buffer = some ([buffer], d') ∧ d'.chunked = false ∧
      d'.validStream = true ∧ d'.eof = false := by
  have hfeed : (d.feedChunk buffer).2 = { d with data := some buffer, currentData := none } := by
    rw [feedChunk, hvalid, hlive]
    rfl
  refine ⟨{ d with data := none, currentData := none }, ?_, hchunked, hvalid, hlive⟩
  rw [takeBuffer, hfeed, blocksFuel, parseNext]
  simp only [hchunked, Bool.not_false, if_true]
  rw [blocksFuel, parseNext]
  simp only [Bool.not_false, if_true]
  rfl

theorem takeBuffers_plain (hchunked : d.chunked = false) (hvalid : d.validStream = true) (hlive : d.eof = false)
    (buffers : List GoogleString) : ∃ d', d.takeBuffers buffers = some (buffers, d') ∧ d'.validStream = true ∧
      d'.eof = false := by
  induction buffers generalizing d with
  | nil => exact ⟨d, rfl, hvalid, hlive⟩
  | cons buffer buffers ih =>
    obtain ⟨d', hbuffer, hchunked', hvalid', hlive'⟩ := takeBuffer_plain hchunked hvalid hlive buffer
    obtain ⟨d'', hbuffers, hvalid'', hlive''⟩ := ih hchunked' hvalid' hlive'
    refine ⟨d'', ?_, hvalid'', hlive''⟩
    rw [takeBuffers, hbuffer, Option.bind_some, hbuffers]
    rfl

theorem result_plain (buffers : List GoogleString) : result false buffers = some (buffers.flatten, true, false) := by
  obtain ⟨d, htake, hvalid, hlive⟩ := takeBuffers_plain (d := init false) rfl rfl rfl buffers
  rw [result, htake, Option.map_some, hvalid, hlive]

theorem result_flatten (chunked : Bool) (buffers : List GoogleString) :
    (result chunked buffers).isSome = true ∧ result chunked buffers = result chunked [buffers.flatten] := by
  cases chunked with
  | true =>
    rw [result_chunked, result_chunked, List.flatten_singleton]
    exact ⟨rfl, rfl⟩
  | false =>
    rw [result_plain, result_plain, List.flatten_singleton]
    exact ⟨rfl, rfl⟩

end Dechunker

/-! Encoded bodies. -/

structure SizeLine where
  digits : GoogleString
  extensions : GoogleString
  hex : ∀ c ∈ digits, isHexDigit (lowerChar c) = true
  nonempty : digits ≠ []
  short : digits.length ≤ 18
  begins : ∀ c ∈ extensions.head?, c = 59 ∨ c = 32 ∨ c = 9
  plain : ∀ c ∈ extensions, c ≠ 13 ∧ c ≠ 10

def SizeLine.size (line : SizeLine) : ℕ := hexNumber (line.digits.map lowerChar)

def SizeLine.text (line : SizeLine) : GoogleString := line.digits ++ (line.extensions ++ ascii "\r\n")

structure Chunk extends SizeLine where
  bytes : GoogleString
  filled : bytes ≠ []
  counted : toSizeLine.size = bytes.length
  bounded : bytes.length < 2 ^ 32 - 1

def Chunk.text (chunk : Chunk) : GoogleString := chunk.toSizeLine.text ++ (chunk.bytes ++ ascii "\r\n")

structure LastChunk extends SizeLine where
  trailer : GoogleString
  counted : toSizeLine.size = 0

def LastChunk.text (last : LastChunk) : GoogleString := last.toSizeLine.text ++ last.trailer

namespace Phase

theorem run_digits {digits : GoogleString} (h : ∀ c ∈ digits, isHexDigit (lowerChar c) = true) (front : GoogleString)
    (hlength : front.length + digits.length ≤ 18) :
    (Phase.size front).run digits = .size (front ++ digits.map lowerChar) ∧ (Phase.size front).output digits = [] := by
  induction digits generalizing front with
  | nil => exact ⟨by rw [List.map_nil, List.append_nil]; rfl, rfl⟩
  | cons c digits ih =>
    rw [List.forall_mem_cons] at h
    rw [List.length_cons] at hlength
    have hnext : (Phase.size front).next c = .size (front ++ [lowerChar c]) := by
      rw [next, nextSize, if_neg (by omega), if_pos h.1]
    obtain ⟨hrun, houtput⟩ := ih h.2 (front ++ [lowerChar c]) (by rw [List.length_append, List.length_singleton]; omega)
    constructor
    · have hcons : (Phase.size front).run (c :: digits) = ((Phase.size front).next c).run digits := rfl
      rw [hcons, hnext, hrun, List.append_assoc, List.map_cons]
      rfl
    · rw [output, hnext, houtput]
      rfl

theorem run_extension {s : GoogleString} (h : ∀ c ∈ s, c ≠ 13 ∧ c ≠ 10) (n : ℕ) :
    (Phase.extension n).run s = .extension n ∧ (Phase.extension n).output s = [] := by
  induction s with
  | nil => exact ⟨rfl, rfl⟩
  | cons c s ih =>
    rw [List.forall_mem_cons] at h
    have hnext : (Phase.extension n).next c = .extension n := by rw [next, if_neg h.1.1, if_neg h.1.2]
    have hcons : (Phase.extension n).run (c :: s) = ((Phase.extension n).next c).run s := rfl
    rw [hcons, output, hnext]
    exact ih h.2

theorem run_sizeEnd (line : SizeLine) (n : ℕ) : ∃ c rest, line.extensions ++ ascii "\r\n" = c :: rest ∧
    isHexDigit (lowerChar c) = false ∧ (endSize n c).run rest = .body n ∧ (endSize n c).output rest = [] := by
  cases hext : line.extensions with
  | nil => exact ⟨13, [10], rfl, rfl, rfl, rfl⟩
  | cons c ext =>
    have hc : c = 59 ∨ c = 32 ∨ c = 9 := line.begins c (by rw [hext]; rfl)
    have hplain := line.plain
    rw [hext, List.forall_mem_cons] at hplain
    obtain ⟨hrun, houtput⟩ := run_extension hplain.2 n
    refine ⟨c, ext ++ ascii "\r\n", rfl, ?_, ?_, ?_⟩
    · obtain rfl | rfl | rfl := hc <;> rfl
    · rw [endSize, if_pos hc, run_append, hrun]
      rfl
    · rw [endSize, if_pos hc, output_append, houtput, hrun]
      rfl

theorem run_sizeLine (line : SizeLine) (h : line.size < ulongMax) : ∃ c rest, line.text = line.digits ++ c :: rest ∧
    (Phase.size []).run line.digits = .size (line.digits.map lowerChar) ∧ (Phase.size []).output line.digits = [] ∧
    (Phase.size (line.digits.map lowerChar)).next c = (if line.size = 0 then .done else endSize line.size c) ∧
    (endSize line.size c).run rest = .body line.size ∧ (endSize line.size c).output rest = [] := by
  obtain ⟨c, rest, hend, hhex, hrun, houtput⟩ := run_sizeEnd line line.size
  obtain ⟨hdigits, hnone⟩ := run_digits line.hex [] (by rw [List.length_nil, Nat.zero_add]; exact line.short)
  refine ⟨c, rest, by rw [SizeLine.text, hend], hdigits, hnone, ?_, hrun, houtput⟩
  have hshort : (line.digits.map lowerChar).length ≠ 19 := by
    have hle := line.short
    rw [List.length_map]
    omega
  have hhex' : ¬ isHexDigit (lowerChar c) = true := by
    rw [hhex]
    exact Bool.false_ne_true
  have hnumber : ¬ (line.digits.map lowerChar = [] ∨ ulongMax ≤ hexNumber (line.digits.map lowerChar)) := by
    rintro (hnil | hle)
    · exact line.nonempty (List.map_eq_nil_iff.mp hnil)
    · exact absurd hle (Nat.not_le.mpr h)
  rw [next, nextSize, if_neg hshort, if_neg hhex', if_neg hnumber, SizeLine.size]

theorem run_chunk (chunk : Chunk) :
    (Phase.size []).run chunk.text = .size [] ∧ (Phase.size []).output chunk.text = chunk.bytes := by
  have hbound : chunk.size < ulongMax := by
    rw [chunk.counted]
    exact chunk.bounded
  have hpos : chunk.size ≠ 0 := by
    rw [chunk.counted]
    exact (List.length_pos_of_ne_nil chunk.filled).ne'
  obtain ⟨c, rest, htext, hdigits, hnone, hnext, hrun, houtput⟩ := run_sizeLine chunk.toSizeLine hbound
  rw [if_neg hpos] at hnext
  obtain ⟨hbody, hbytes⟩ := run_body (n := chunk.size) chunk.counted.ge
  rw [chunk.counted, Nat.sub_self] at hbody
  have hcons : ∀ t, (Phase.size (chunk.digits.map lowerChar)).run (c :: t) = (endSize chunk.size c).run t := fun t => by
    rw [← hnext]
    rfl
  have hemit : ∀ t, (Phase.size (chunk.digits.map lowerChar)).output (c :: t) = (endSize chunk.size c).output t :=
    fun t => by
      rw [output, hnext]
      rfl
  rw [Chunk.text, htext, List.append_assoc, List.cons_append]
  constructor
  · rw [run_append, hdigits, hcons, run_append, hrun, run_append, chunk.counted, hbody]
    rfl
  · rw [output_append, hnone, hdigits, hemit, output_append, houtput, hrun, output_append, hbytes, chunk.counted, hbody]
    exact List.append_nil _

theorem run_chunks (chunks : List Chunk) : (Phase.size []).run (chunks.flatMap Chunk.text) = .size [] ∧
    (Phase.size []).output (chunks.flatMap Chunk.text) = chunks.flatMap Chunk.bytes := by
  induction chunks with
  | nil => exact ⟨rfl, rfl⟩
  | cons chunk chunks ih =>
    obtain ⟨hrun, houtput⟩ := run_chunk chunk
    rw [List.flatMap_cons, List.flatMap_cons, run_append, output_append, hrun, houtput, ih.1, ih.2]
    exact ⟨rfl, rfl⟩

theorem run_last (last : LastChunk) : (Phase.size []).run last.text = .done ∧ (Phase.size []).output last.text = [] ∧
    (Phase.size []).run last.digits = .size (last.digits.map lowerChar) ∧ (Phase.size []).output last.digits = [] := by
  have hbound : last.size < ulongMax := by
    rw [last.counted]
    decide
  obtain ⟨c, rest, htext, hdigits, hnone, hnext, _, _⟩ := run_sizeLine last.toSizeLine hbound
  rw [if_pos last.counted] at hnext
  obtain ⟨hended, hsilent⟩ := run_ended (p := .done) (Or.inl rfl) (rest ++ last.trailer)
  rw [LastChunk.text, htext, List.append_assoc, List.cons_append]
  refine ⟨?_, ?_, hdigits, hnone⟩
  · have hcons : (Phase.size (last.digits.map lowerChar)).run (c :: (rest ++ last.trailer)) =
        ((Phase.size (last.digits.map lowerChar)).next c).run (rest ++ last.trailer) := rfl
    rw [run_append, hdigits, hcons, hnext, hended]
  · rw [output_append, hnone, hdigits, output, hnext, hsilent]
    rfl

end Phase

namespace Dechunker

/-- However a stream is cut, the same comes of it; and an encoded body is taken apart into the body, which ends at the
last chunk and not before. -/
theorem dechunks : (∀ chunked buffers, (result chunked buffers).isSome = true ∧
      result chunked buffers = result chunked [buffers.flatten]) ∧
    ∀ (chunks : List Chunk) (last : LastChunk) (buffers : List GoogleString),
      (buffers.flatten = chunks.flatMap Chunk.text ++ last.text →
        result true buffers = some (chunks.flatMap Chunk.bytes, true, true)) ∧
      (buffers.flatten <+: chunks.flatMap Chunk.text ++ last.digits →
        ∃ body, body <+: chunks.flatMap Chunk.bytes ∧ result true buffers = some (body, true, false)) := by
  refine ⟨result_flatten, fun chunks last buffers => ?_⟩
  obtain ⟨hrun, houtput⟩ := Phase.run_chunks chunks
  obtain ⟨hdone, hsilent, hdigits, hnone⟩ := Phase.run_last last
  constructor
  · intro htext
    rw [result_chunked, htext, Phase.run_append, Phase.output_append, hrun, houtput, hdone, hsilent, List.append_nil]
    rfl
  · rintro ⟨rest, hrest⟩
    have hwhole : ((Phase.size []).run buffers.flatten).run rest = .size (last.digits.map lowerChar) := by
      rw [← Phase.run_append, hrest, Phase.run_append, hrun, hdigits]
    have hbytes : (Phase.size []).output buffers.flatten ++ ((Phase.size []).run buffers.flatten).output rest =
        chunks.flatMap Chunk.bytes := by
      rw [← Phase.output_append, hrest, Phase.output_append, hrun, houtput, hnone, List.append_nil]
    have hgoes : (Phase.size []).run buffers.flatten ≠ .done ∧ (Phase.size []).run buffers.flatten ≠ .bad := by
      constructor
      · intro hended
        rw [hended, (Phase.run_ended (Or.inl rfl) rest).1] at hwhole
        cases hwhole
      · intro hended
        rw [hended, (Phase.run_ended (Or.inr rfl) rest).1] at hwhole
        cases hwhole
    refine ⟨_, ⟨_, hbytes⟩, ?_⟩
    rw [result_chunked, decide_eq_false hgoes.1, decide_eq_false hgoes.2]
    rfl

/-- Three bytes in one chunk, cut within the size line and within the block. -/
theorem dechunks_cut : result true [ascii "03 ;", ascii "x\r\nab", ascii "c\r\n0\r\n\r\n"] =
    some (ascii "abc", true, true) := by
  have hplain : ∀ c ∈ ascii " ;x", decide (c ≠ 13 ∧ c ≠ 10) = true := List.all_eq_true.mp (by decide)
  let line : SizeLine := ⟨ascii "03", ascii " ;x", List.all_eq_true.mp (by decide), by decide, by decide,
    fun c hc => Or.inr (Or.inl (Option.some_inj.mp hc).symm), fun c hc => of_decide_eq_true (hplain c hc)⟩
  let zero : SizeLine := ⟨ascii "0", [], List.all_eq_true.mp (by decide), by decide, by decide, nofun, nofun⟩
  exact (dechunks.2 [⟨line, ascii "abc", by decide, rfl, by decide⟩] ⟨zero, ascii "\r\n", by decide⟩
    [ascii "03 ;", ascii "x\r\nab", ascii "c\r\n0\r\n\r\n"]).1 rfl

end Dechunker

end PageSpeed.Iis
