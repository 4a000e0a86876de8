import Xrt.Errno
import Xrt.Lib.Bytes
import Xrt.Lib.Run

/-!
# Programming the flash from an MCS stream

`programXSpiDrv` takes the records of an MCS stream together into buffers of contiguous data, one
buffer and one write at a time, until `nextAddr` is `UINT_MAX`. Only an end record sets it so: a
stream that is used up before leaves it as it is, and the loop goes on with empty buffers.

The tool reads the fields of a line with `substr` and `stoi`, which throw on a short line and on a text
without a number.
-/
namespace Xrt.Flash

open Lib

abbrev Line := List Char

/-- How a function of the flash tool can end without a result. -/
inductive Failure
  | einval
  | invalidArgument
  | outOfRange
  | assertion
  deriving DecidableEq, Repr

/-- How a program of the flash tool stands. -/
inductive Outcome
  | returned (ret : Int)
  | failed (failure : Failure)
  | running
  deriving DecidableEq, Repr

/-! ### `std::string` -/

def hexDigit (c : Char) : Option Nat :=
  if '0' ≤ c ∧ c ≤ '9' then some (c.toNat - '0'.toNat)
  else if 'a' ≤ c ∧ c ≤ 'f' then some (c.toNat - 'a'.toNat + 10)
  else if 'A' ≤ c ∧ c ≤ 'F' then some (c.toNat - 'A'.toNat + 10)
  else none

def isSpace (c : Char) : Bool := c == ' ' || ('\t' ≤ c && c ≤ '\r')

/-- The number that the digits write. -/
def hexValue (digits : List Nat) : Nat := digits.foldl (fun n d => 16 * n + d) 0

/-- The digits at the start of the text. -/
def leadingDigits : Line → List Nat
  | [] => []
  | c :: rest =>
    match hexDigit c with
    | some d => d :: leadingDigits rest
    | none => []

def skipPrefix : Line → Line
  | '0' :: x :: c :: rest =>
    if (x = 'x' ∨ x = 'X') ∧ (hexDigit c).isSome then c :: rest else '0' :: x :: c :: rest
  | text => text

/-- The sign, and what follows it. -/
def splitSign : Line → Bool × Line
  | '-' :: rest => (true, rest)
  | '+' :: rest => (false, rest)
  | text => (false, text)

def stoi (text : Line) : Except Failure Int :=
  let signed := splitSign (text.dropWhile isSpace)
  match leadingDigits (skipPrefix signed.2) with
  | [] => .error .invalidArgument
  | digits =>
    let value : Int := if signed.1 then -(hexValue digits : Int) else hexValue digits
    if value < -2 ^ 31 ∨ 2 ^ 31 ≤ value then .error .outOfRange else .ok value

/-- `stoi` where the result goes to an `unsigned int`. -/
def stou (text : Line) : Except Failure Nat := do
  let value ← stoi text
  return (value % 2 ^ 32).toNat

def substr (text : Line) (pos count : Nat) : Except Failure Line :=
  if pos > text.length then .error .outOfRange else .ok ((text.drop pos).take count)

def field (line : Line) (pos count : Nat) : Except Failure Nat := do
  let text ← substr line pos count
  stou text

/-- `count` bytes of two digits each, from position `pos` on. -/
def dataBytes (text : Line) : Nat → Nat → Except Failure (List Byte)
  | 0, _ => .ok []
  | count + 1, pos => do
    let value ← field text pos 2
    let rest ← dataBytes text count (pos + 2)
    return BitVec.ofNat 8 value :: rest

def UINT_MAX : Nat := 2 ^ 32 - 1

def pagesz : Nat := 2 ^ 20

def pageOffset (addr : Nat) : Nat := addr % 2 ^ 16

/-- The type of the record, its address and its data. -/
def splitMcsLine (line : Line) : Except Failure (Nat × Nat × List Byte) :=
  if line.head? ≠ some ':' then .error .einval
  else do
    let len ← field line 1 2
    let type ← field line 7 2
    let address ← field line 3 4
    match type with
    | 0 =>
      if len > 16 then .error .einval
      else do
        let d ← substr line 9 (len * 2)
        let data ← dataBytes d len 0
        return (type, address, data)
    | 1 => return (type, address, [])
    | 4 => do
      let address ← field line 9 (len * 2)
      if len ≠ 2 then .error .einval else return (type, address, [])
    | _ => .error .einval

/-- The buffer that `mcsStreamToBin` fills. -/
structure Bin where
  currentAddr : Nat
  buf : List Byte
  nextAddr : Nat
  deriving DecidableEq, Repr

/-- The case of a data record in the loop of `mcsStreamToBin`. -/
def binData (s : Bin) (addr : Nat) (data : List Byte) : Except Failure Bin :=
  if s.currentAddr = UINT_MAX then .error .einval
  else if s.buf = [] then
    if pageOffset s.currentAddr ≠ 0 then .error .assertion
    else .ok { s with currentAddr := s.currentAddr ||| addr, buf := data }
  else if pageOffset (u32 (s.currentAddr + s.buf.length)) ≠ addr then .error .einval
  else .ok { s with buf := s.buf ++ data }

/-- The case of an extended address, and whether the buffer is done. -/
def binSegment (s : Bin) (addr : Nat) : Bin × Bool :=
  if s.currentAddr = UINT_MAX then ({ s with currentAddr := addr }, false)
  -- the size of the buffer has 64 bits, so this sum does not overflow
  else if s.currentAddr + s.buf.length ≠ addr then ({ s with nextAddr := addr }, true)
  else (s, false)

/-- One record of the loop of `mcsStreamToBin`, and whether the buffer is done. -/
def binRecord (s : Bin) (type addr : Nat) (data : List Byte) : Except Failure (Bin × Bool) :=
  match type with
  | 0 => do
    let s ← binData s addr data
    return (s, false)
  | 1 => .ok ({ s with nextAddr := UINT_MAX }, true)
  | 4 => .ok (binSegment s (u32 (addr <<< 16)))
  | _ => .ok (s, false)

/-- The loop of `mcsStreamToBin`; returns the lines that are left. -/
def binLoop : List Line → Bin → Except Failure (Bin × List Line)
  | [], s => .ok (s, [])
  | line :: rest, s =>
    if line = [] then binLoop rest s
    else do
      let (type, addr, data) ← splitMcsLine line
      let (s, done) ← binRecord s type addr data
      if done then .ok (s, rest) else binLoop rest s

def mcsStreamToBin (lines : List Line) (currentAddr nextAddr : Nat) :
    Except Failure (Bin × List Line) := do
  let (s, rest) ← binLoop lines ⟨currentAddr, [], nextAddr⟩
  if s.buf.length > UINT_MAX then .error .einval else return (s, rest)

/-- One `fwrite` to the flash device. -/
structure Write where
  position : Nat
  data : List Byte
  deriving DecidableEq, Repr

/-- The index of the flash is the most significant byte of the position. -/
def toAddr (secondary offset : Nat) : Nat := secondary * 2 ^ 56 + offset

/-- What `writeToFlash` returns, after what has been written. -/
abbrev Device := List Write → Write → Int

/-- The loop of `writeBitstream` over what is left of the buffer, from offset `i` on. -/
def writeLoop (device : Device) (index addr : Nat) :
    Nat → Nat → List Byte → List Write → List Write × Int
  | 0, _, _, writes => (writes, 0)
  | fuel + 1, i, rest, writes =>
    if rest = [] then (writes, 0)
    else
      let len := min (pagesz - (addr + i) % pagesz) rest.length
      let write : Write := ⟨toAddr index (u32 (addr + i)), rest.take len⟩
      let ret := device writes write
      if ret = 0 then writeLoop device index addr fuel (i + len) (rest.drop len) (writes ++ [write])
      else (writes, ret)

/-- Every piece has at least one byte. -/
def writeBitstream (device : Device) (index addr : Nat) (buf : List Byte) (writes : List Write) :
    List Write × Int :=
  writeLoop device index addr buf.length 0 buf writes

/-- The loop of `programXSpiDrv`. -/
def programLoop (device : Device) (index addressShift : Nat) :
    Nat → List Line → Nat → Nat → List Write → List Write × Outcome
  | 0, _, _, _, writes => (writes, .running)
  | fuel + 1, lines, curAddr, nextAddr, writes =>
    if nextAddr = UINT_MAX then (writes, .returned 0)
    else
      match mcsStreamToBin lines curAddr nextAddr with
      | .error .einval => (writes, .returned (-EINVAL))
      | .error failure => (writes, .failed failure)
      | .ok (s, rest) =>
        if s.nextAddr ≠ UINT_MAX ∧ pageOffset s.nextAddr ≠ 0 then (writes, .failed .assertion)
        else
          let made := writeBitstream device index (u32 (s.currentAddr + addressShift)) s.buf writes
          if made.2 ≠ 0 then (made.1, .returned made.2)
          else programLoop device index addressShift fuel rest s.nextAddr s.nextAddr made.1

/-- The tool after so many rounds of its loop. -/
def programXSpiDrv (device : Device) (index addressShift rounds : Nat) (lines : List Line) :
    List Write × Outcome :=
  programLoop device index addressShift rounds lines UINT_MAX 0 []

/-! ### Where the stream ends -/

/-- The lines go on behind a buffer of `len` bytes at `cur` without an end record and without a fault:
each record can be read, data come behind the first extended address and continue the buffer, and an
extended address that does not continue it begins a new one. -/
inductive Continues : Nat → Nat → List Line → Prop
  | nil {cur len : Nat} (small : len ≤ UINT_MAX) : Continues cur len []
  | blank {cur len : Nat} {rest : List Line} (later : Continues cur len rest) :
      Continues cur len ([] :: rest)
  | data {cur len addr : Nat} {line : Line} {bytes : List Byte} {rest : List Line}
      (read : splitMcsLine line = .ok (0, addr, bytes)) (known : cur ≠ UINT_MAX)
      (fits : if len = 0 then pageOffset cur = 0 else pageOffset (u32 (cur + len)) = addr)
      (later : Continues (if len = 0 then cur ||| addr else cur) (len + bytes.length) rest) :
      Continues cur len (line :: rest)
  | segment {cur len addr : Nat} {line : Line} {bytes : List Byte} {rest : List Line}
      (read : splitMcsLine line = .ok (4, addr, bytes))
      (same : cur ≠ UINT_MAX → cur + len = u32 (addr <<< 16))
      (later : Continues (if cur = UINT_MAX then u32 (addr <<< 16) else cur) len rest) :
      Continues cur len (line :: rest)
  | another {cur len addr : Nat} {line : Line} {bytes : List Byte} {rest : List Line}
      (read : splitMcsLine line = .ok (4, addr, bytes)) (known : cur ≠ UINT_MAX)
      (other : cur + len ≠ u32 (addr <<< 16)) (small : len ≤ UINT_MAX)
      (later : Continues (u32 (addr <<< 16)) 0 rest) : Continues cur len (line :: rest)

variable {lines rest : List Line} {line : Line} {s t : Bin} {type addr : Nat} {data : List Byte}
  {done : Bool}

/-- An address that is not `UINT_MAX`, and the begin of a page. -/
def Goes (nextAddr : Nat) : Prop := nextAddr ≠ UINT_MAX ∧ pageOffset nextAddr = 0

theorem goes_segment (addr : Nat) : Goes (u32 (addr <<< 16)) := by
  rw [Goes, pageOffset, u32, UINT_MAX, Nat.shiftLeft_eq]
  omega

theorem splitMcsLine_ne_nil {record : Nat × Nat × List Byte} (read : splitMcsLine line = .ok record) :
    line ≠ [] := by
  rintro rfl
  cases read

/-- A line that is read leads to its record. -/
theorem binLoop_read (read : splitMcsLine line = .ok (type, addr, data)) (s : Bin) :
    binLoop (line :: rest) s = (binRecord s type addr data).bind fun next =>
      if next.2 then .ok (next.1, rest) else binLoop rest next.1 := by
  rw [binLoop, if_neg (splitMcsLine_ne_nil read), read]
  rfl

/-- Lines that go on fill a buffer, and what is left of them goes on behind it. -/
theorem binLoop_of_continues {cur len : Nat} (continues : Continues cur len lines)
    (at' : s.currentAddr = cur) (sized : s.buf.length = len) (goes : Goes s.nextAddr) :
    ∃ t rest, binLoop lines s = .ok (t, rest) ∧ t.buf.length ≤ UINT_MAX ∧ Goes t.nextAddr
      ∧ Continues t.nextAddr 0 rest := by
  induction continues generalizing s with
  | nil small => exact ⟨s, [], rfl, sized ▸ small, goes, .nil (Nat.zero_le _)⟩
  | blank _ ih =>
    rw [binLoop, if_pos rfl]
    exact ih at' sized goes
  | @data cur len addr line bytes rest read known fits _ ih =>
    subst at' sized
    rw [binLoop_read read, binRecord, binData, if_neg known]
    simp only [List.length_eq_zero_iff] at fits ih
    split_ifs at fits ih ⊢ with none
    · exact absurd fits ‹_›
    · exact ih rfl (by simp [none]) goes
    · exact absurd fits ‹_›
    · exact ih rfl (by simp) goes
  | @segment cur len addr line bytes rest read same _ ih =>
    subst at' sized
    rw [binLoop_read read, binRecord, binSegment]
    split_ifs at ih ⊢ with none
    · exact ih rfl rfl goes
    · exact absurd (same none) ‹_›
    · exact ih rfl rfl goes
  | @another cur len addr line bytes rest read known other small later =>
    subst at' sized
    rw [binLoop_read read, binRecord, binSegment, if_neg known, if_pos other]
    exact ⟨_, _, rfl, small, goes_segment addr, later⟩

theorem splitMcsLine_type (read : splitMcsLine line = .ok (type, addr, data)) :
    type = 0 ∨ type = 1 ∨ type = 4 := by
  unfold splitMcsLine at read
  split_ifs at read
  obtain ⟨len, -, read⟩ := ok_of_bind_ok read
  obtain ⟨kind, -, read⟩ := ok_of_bind_ok read
  obtain ⟨address, -, read⟩ := ok_of_bind_ok read
  split at read
  · split_ifs at read
    obtain ⟨d, -, read⟩ := ok_of_bind_ok read
    obtain ⟨bytes, -, read⟩ := ok_of_bind_ok read
    cases read
    exact .inl rfl
  · cases read
    exact .inr (.inl rfl)
  · obtain ⟨address, -, read⟩ := ok_of_bind_ok read
    split_ifs at read
    cases read
    exact .inr (.inr rfl)
  · cases read

/-- What the loop does with a line that is not empty. -/
theorem binLoop_cons (nonempty : line ≠ []) (made : binLoop (line :: lines) s = .ok (t, rest)) :
    ∃ type addr data s' done, splitMcsLine line = .ok (type, addr, data) ∧
      binRecord s type addr data = .ok (s', done) ∧
        (done = true ∧ s' = t ∧ lines = rest ∨ done = false ∧ binLoop lines s' = .ok (t, rest)) := by
  rw [binLoop, if_neg nonempty] at made
  obtain ⟨⟨type, addr, data⟩, split, made⟩ := ok_of_bind_ok made
  obtain ⟨⟨s', done⟩, record, made⟩ := ok_of_bind_ok made
  refine ⟨type, addr, data, s', done, split, record, ?_⟩
  dsimp only at made
  cases done with
  | true =>
    cases made
    exact .inl ⟨rfl, rfl, rfl⟩
  | false => exact .inr ⟨rfl, made⟩

theorem binLoop_fewer (made : binLoop lines s = .ok (t, rest)) :
    rest.length ≤ lines.length - 1 := by
  induction lines generalizing s with
  | nil =>
    cases made
    exact le_rfl
  | cons line lines ih =>
    by_cases empty : line = []
    · rw [binLoop, if_pos empty] at made
      exact (ih made).trans (Nat.sub_le _ _)
    · obtain ⟨_, _, _, _, _, -, -, ⟨-, -, rfl⟩ | ⟨-, made⟩⟩ := binLoop_cons empty made
      · exact le_rfl
      · exact (ih made).trans (Nat.sub_le _ _)

/-- The lines that fill a buffer without an end record go on, if those that are left do. -/
theorem continues_of_binLoop (made : binLoop lines s = .ok (t, rest)) (goes : t.nextAddr ≠ UINT_MAX)
    (small : t.buf.length ≤ UINT_MAX) (later : Continues t.nextAddr 0 rest) :
    Continues s.currentAddr s.buf.length lines := by
  induction lines generalizing s with
  | nil =>
    cases made
    exact .nil small
  | cons line lines ih =>
    by_cases empty : line = []
    · subst empty
      rw [binLoop, if_pos rfl] at made
      exact .blank (ih made)
    · obtain ⟨type, addr, data, s', done, read, record, next⟩ := binLoop_cons empty made
      have on (goesOn : done = false) : Continues s'.currentAddr s'.buf.length lines := by
        rcases next with ⟨stops, -⟩ | ⟨-, made⟩
        · cases goesOn.symm.trans stops
        · exact ih made
      rcases splitMcsLine_type read with rfl | rfl | rfl
      · obtain ⟨s'', ok, same⟩ := ok_of_bind_ok record
        cases same
        unfold binData at ok
        split_ifs at ok with unknown none page offset <;> cases ok
        · exact .data read unknown (by simpa [none] using page) (by simpa [none] using on rfl)
        · exact .data read unknown (by simpa [none] using offset) (by simpa [none] using on rfl)
      · cases record
        rcases next with ⟨-, rfl, -⟩ | ⟨stops, -⟩
        · exact absurd rfl goes
        · cases stops
      · rw [binRecord, binSegment] at record
        split_ifs at record with unknown other <;> cases record
        · exact .segment read (absurd unknown) (by simpa [unknown] using on rfl)
        · rcases next with ⟨-, rfl, rfl⟩ | ⟨stops, -⟩
          · exact .another read unknown other small later
          · cases stops
        · exact .segment read (fun _ => not_not.mp other) (by simpa [unknown] using on rfl)

theorem mcsStreamToBin_ok_iff {currentAddr nextAddr : Nat} :
    mcsStreamToBin lines currentAddr nextAddr = .ok (s, rest)
      ↔ binLoop lines ⟨currentAddr, [], nextAddr⟩ = .ok (s, rest) ∧ s.buf.length ≤ UINT_MAX := by
  constructor
  · intro made
    obtain ⟨⟨s', rest'⟩, loop, sized⟩ := ok_of_bind_ok made
    dsimp only at sized
    split_ifs at sized with long
    cases sized
    exact ⟨loop, Nat.not_lt.mp long⟩
  · rintro ⟨loop, small⟩
    rw [mcsStreamToBin, loop]
    exact if_neg (Nat.not_lt.mpr small)

variable {device : Device} {index addressShift rounds curAddr nextAddr : Nat} {writes : List Write}

/-- A device that takes every write. -/
theorem writeLoop_ok (addr fuel i : Nat) (bytes : List Byte) :
    (writeLoop (fun _ _ => 0) index addr fuel i bytes writes).2 = 0 := by
  induction fuel generalizing i bytes writes with
  | zero => rfl
  | succ fuel ih =>
    rw [writeLoop]
    split_ifs
    · rfl
    · exact ih _ _

theorem programLoop_of_continues (continues : Continues curAddr 0 lines) (goes : Goes nextAddr) :
    (programLoop (fun _ _ => 0) index addressShift rounds lines curAddr nextAddr writes).2 = .running := by
  induction rounds generalizing lines curAddr nextAddr writes with
  | zero => rfl
  | succ rounds ih =>
    obtain ⟨t, rest, made, small, goes', later⟩ :=
      binLoop_of_continues continues (s := ⟨curAddr, [], nextAddr⟩) rfl rfl goes
    have wrote (addr : Nat) : (writeBitstream (fun _ _ => 0) index addr t.buf writes).2 = 0 :=
      writeLoop_ok ..
    rw [programLoop, if_neg goes.1, mcsStreamToBin_ok_iff.mpr ⟨made, small⟩]
    simp only [goes'.2, ne_eq, not_true_eq_false, and_false, if_false, wrote]
    exact ih later goes'

/-- A tool that is not done after as many rounds as there are lines, and one more, has lines that go
on. -/
theorem continues_of_programLoop (enough : lines.length < rounds)
    (runs : (programLoop device index addressShift rounds lines curAddr nextAddr writes).2 = .running) :
    nextAddr ≠ UINT_MAX ∧ Continues curAddr 0 lines := by
  induction rounds generalizing lines curAddr nextAddr writes with
  | zero => omega
  | succ rounds ih =>
    rw [programLoop] at runs
    split_ifs at runs with ended
    refine ⟨ended, ?_⟩
    split at runs
    · cases runs
    · cases runs
    next s rest made =>
      dsimp only at runs
      split_ifs at runs
      obtain ⟨loop, small⟩ := mcsStreamToBin_ok_iff.mp made
      cases lines with
      | nil => exact .nil (Nat.zero_le _)
      | cons line lines =>
        have fewer : rest.length ≤ lines.length := binLoop_fewer loop
        rw [List.length_cons] at enough
        obtain ⟨goes, later⟩ := ih (by omega) runs
        exact continues_of_binLoop loop goes small later

end Xrt.Flash
