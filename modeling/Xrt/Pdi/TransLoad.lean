import Xrt.Pdi.Transform

/-!
# Loading a transformed PDI

The command zone is copied into a cache of 1024 bytes and executed from there, a piece at a
time. What a piece ends in the middle of is kept and put in front of the next piece.
-/
namespace Xrt.Pdi

open Lib

def cacheLen : Nat := 1024 / 4

/-- What the end of a piece leaves over: nothing, the begin of a run's header (kept under the
id of a NOP), or a run with its last, incomplete entry. The count has 16 bits. -/
inductive XCdoCmdLeft
  | none
  | header (words : List Word)
  | cmds (id : CmdId) (cmdNum : BitVec 16) (words : List Word)
deriving DecidableEq, Repr

/-- The words that go into the cache first. -/
def XCdoCmdLeft.words : XCdoCmdLeft → List Word
  | .none => []
  | .header words => words
  | .cmds id cmdNum words => id.code :: cmdNum.setWidth 32 :: words

section

variable (base : BitVec 64) (dataBuf : List Word)

/-- The offset is in bytes, and `parseDma` has made it a multiple of 4. -/
def xcdoDmaWriteTrans (entry : List Word) : Io :=
  .memcpy (addr64 base entry)
    ((dataBuf.drop ((entry.getD 2 0).toNat / 4)).take (entry.getD 3 0 &&& 0xFFFF).toNat)

def executeTrans (id : CmdId) (entry : List Word) : List Io :=
  match id with
  | .maskWrite => [xcdoMaskWrite base entry]
  | .write => [xcdoWrite base entry]
  | .dmaWrite => [xcdoDmaWriteTrans base dataBuf entry]
  | .maskWrite64 => [xcdoMaskWrite64 base entry]
  | .write64 => [xcdoWrite64 base entry]
  | .nop => []

/-- The loop over a run: the accesses, how many commands are left, and the words left. -/
def loadRun (id : CmdId) : Nat → List Word → List Io × Nat × List Word
  | 0, buf => ([], 0, buf)
  | num + 1, buf =>
    if buf.length < id.width then ([], num + 1, buf)
    else
      let (ios, left, rest) := loadRun id num (buf.drop id.width)
      (executeTrans base dataBuf id (buf.take id.width) ++ ios, left, rest)

/-- The words at the end of a piece that are too few for a run. -/
def leftHeader (buf : List Word) : XCdoCmdLeft := if buf = [] then .none else .header buf

/-- An unknown command ends the piece: the caller goes on with the next one, since it stops
only if the result is 1. -/
def xcdoLoadTransCdo : Nat → List Word → List Io × XCdoCmdLeft
  | fuel + 1, w :: n :: v :: buf =>
    match CmdId.ofCode (w &&& 0xFF) with
    | .none | some .nop => ([], .none)
    | some id =>
      match loadRun base dataBuf id n.toNat (v :: buf) with
      | (ios, 0, rest) =>
        let (more, left) := xcdoLoadTransCdo fuel rest
        (ios ++ more, left)
      | (ios, num + 1, rest) => (ios, .cmds id (BitVec.ofNat 16 (num + 1)) rest)
  | _, buf => ([], leftHeader buf)

def xcdoLoadTransCdoAsmLoop : Nat → List Word → XCdoCmdLeft → List Io
  | fuel + 1, w :: host, left =>
    -- what the last piece has left is put before the next words of the zone
    let cpyLen := min (w :: host).length (cacheLen - left.words.length)
    let cache := left.words ++ (w :: host).take cpyLen
    let (ios, left) := xcdoLoadTransCdo base dataBuf cache.length cache
    ios ++ xcdoLoadTransCdoAsmLoop fuel ((w :: host).drop cpyLen) left
  | _, _, _ => []

end

/-- The length of the command zone is a signed number of bytes. -/
def xcdoLoadTransCdoAsm (base : BitVec 64) (cdo : List Word) (cmdLen : Word) : List Io :=
  let words := cmdLen.toInt.toNat / 4
  let buf := cdo.drop cdoHdrLen
  xcdoLoadTransCdoAsmLoop base (buf.drop words) words (buf.take words) .none

def xpdiLoad (base : BitVec 64) (pdi : List Word) : Except Stop (List Io) :=
  let (type, cmdLen) := xpdiHeaderTransformType pdi
  if type = CMDDATASPERATE then .ok (xcdoLoadTransCdoAsm base (pdi.drop hdrLen) cmdLen)
  else xcdoLoadCdo base (pdi.drop hdrLen)

/-! ### Pieces of a well-formed zone -/

section

variable {base : BitVec 64} {dataBuf : List Word}

abbrev Runs := List (Run CmdId Word)

def encodeRuns (rs : Runs) : List Word := Run.encode CmdId.code (BitVec.ofNat 32) rs

/-- The runs are as the transformation writes them. -/
def Loadable (rs : Runs) : Prop :=
  ∀ r ∈ rs, Run.WellFormed CmdId.width r ∧ r.tag ≠ .nop ∧ r.items.length < 2 ^ 32

/-- The pieces of a zone, with `room` words left in the present one. A run begins in a new piece
if no more than two words are left. Otherwise it takes two words and then as many commands as
fit; the count of the others, with which the next piece begins, has 16 bits. -/
inductive Paged : Nat → List (CmdId × Nat) → Prop
  | nil {room : Nat} : Paged room []
  | turn {room : Nat} {runs : List (CmdId × Nat)} (few : room ≤ 2) (next : Paged cacheLen runs) :
      Paged room runs
  | whole {room n : Nat} {id : CmdId} {runs : List (CmdId × Nat)} (some : 2 < room)
      (fits : n ≤ (room - 2) / id.width) (next : Paged (room - 2 - n * id.width) runs) :
      Paged room ((id, n) :: runs)
  | cut {room n : Nat} {id : CmdId} {runs : List (CmdId × Nat)} (some : 2 < room)
      (goesOn : (room - 2) / id.width < n) (counted : n - (room - 2) / id.width < 2 ^ 16)
      (next : Paged cacheLen ((id, n - (room - 2) / id.width) :: runs)) :
      Paged room ((id, n) :: runs)

def listedIos (base : BitVec 64) (dataBuf : List Word) (rs : Runs) : List Io :=
  (Run.listing rs).flatMap fun (id, entry) => executeTrans base dataBuf id entry

/-- The words kept from a piece are fewer than the first run needs for its first entry. -/
def Short (words : List Word) (rs : Runs) : Prop :=
  ∀ r more, rs = r :: more → words.length < 2 + r.tag.width

@[simp] theorem listedIos_cons (r : Run CmdId Word) (rs : Runs) :
    listedIos base dataBuf (r :: rs)
      = r.items.flatMap (executeTrans base dataBuf r.tag) ++ listedIos base dataBuf rs := by
  simp [listedIos, List.flatMap_map]

variable {rs : Runs} {room : Nat} {runs : List (CmdId × Nat)}

theorem Loadable.tail {r : Run CmdId Word} (loadable : Loadable (r :: rs)) :
    Loadable rs := fun q member => loadable q (List.mem_cons_of_mem r member)

/-- Runs that are complete hold no words too few for a first entry. -/
theorem Short.eq_nil (loadable : Loadable rs) (short : Short (encodeRuns rs) rs) : rs = [] := by
  cases rs with
  | nil => rfl
  | cons r rs =>
    have few := short r rs rfl
    have many := (loadable r List.mem_cons_self).1.length_le CmdId.code (BitVec.ofNat 32)
    rw [encodeRuns, Run.encode_cons, List.length_append] at few
    omega

theorem loadRun_splits (base : BitVec 64) (dataBuf : List Word) (id : CmdId)
    (items : List (List Word)) (tail rest buf : List Word)
    (sized : ∀ i ∈ items, i.length = id.width) (here : buf ++ rest = items.flatten ++ tail) :
    ∃ done left words, items = done ++ left ∧ buf = done.flatten ++ words
      ∧ loadRun base dataBuf id items.length buf
        = (done.flatMap (executeTrans base dataBuf id), left.length, words)
      ∧ words ++ rest = left.flatten ++ tail ∧ (left ≠ [] → words.length < id.width) := by
  -- on the entries of the run; the piece may end inside any of them
  induction items generalizing buf with
  | nil => exact ⟨[], [], buf, rfl, rfl, rfl, here, fun some => absurd rfl some⟩
  | cons i is ih =>
    have width : i.length = id.width := sized i List.mem_cons_self
    rw [List.flatten_cons, List.append_assoc] at here
    rw [List.length_cons, loadRun]
    by_cases short : buf.length < id.width
    · rw [if_pos short]
      refine ⟨[], i :: is, buf, rfl, rfl, rfl, ?_, fun _ => short⟩
      rw [List.flatten_cons, List.append_assoc]
      exact here
    · rw [if_neg short]
      have first : buf.take id.width = i := by
        have both := congrArg (List.take id.width) here
        rwa [List.take_append_of_le_length (by omega), List.take_left' width] at both
      have after : buf.drop id.width ++ rest = is.flatten ++ tail := by
        have both := congrArg (List.drop id.width) here
        rwa [List.drop_append_of_le_length (by omega), List.drop_left' width] at both
      obtain ⟨done, left, words, split, body, ran, kept, incomplete⟩ :=
        ih (buf.drop id.width) (fun j member => sized j (List.mem_cons_of_mem i member)) after
      refine ⟨i :: done, left, words, by rw [split, List.cons_append], ?_, ?_, kept, incomplete⟩
      · rw [List.flatten_cons, List.append_assoc, ← body, ← first, List.take_append_drop]
      · rw [ran, first, List.flatMap_cons]

theorem leftHeader_words (buf : List Word) : (leftHeader buf).words = buf := by
  unfold leftHeader
  split
  next empty => rw [empty]; rfl
  · rfl

theorem CmdId.width_pos {id : CmdId} (named : id ≠ .nop) : 0 < id.width := by
  cases id with
  | nop => exact absurd rfl named
  | _ => decide

section Rounds

variable {id : CmdId} {fuel num : Nat} {n v : Word} {buf rest : List Word} {ios : List Io}

theorem xcdoLoadTransCdo_over (named : id ≠ .nop)
    (ran : loadRun base dataBuf id n.toNat (v :: buf) = (ios, 0, rest)) :
    xcdoLoadTransCdo base dataBuf (fuel + 1) (id.code :: n :: v :: buf)
      = (ios ++ (xcdoLoadTransCdo base dataBuf fuel rest).1,
        (xcdoLoadTransCdo base dataBuf fuel rest).2) := by
  rw [xcdoLoadTransCdo, CmdId.ofCode_code_masked]
  cases id with
  | nop => exact absurd rfl named
  | _ => simp only [ran]

theorem xcdoLoadTransCdo_cut (named : id ≠ .nop)
    (ran : loadRun base dataBuf id n.toNat (v :: buf) = (ios, num + 1, rest)) :
    xcdoLoadTransCdo base dataBuf (fuel + 1) (id.code :: n :: v :: buf)
      = (ios, .cmds id (BitVec.ofNat 16 (num + 1)) rest) := by
  rw [xcdoLoadTransCdo, CmdId.ofCode_code_masked]
  cases id with
  | nop => exact absurd rfl named
  | _ => simp only [ran]

end Rounds

/-- The commands `rs` before a piece of the zone, what the piece did, and the commands that are
left: what it keeps is, with the rest of the zone, their encoding. -/
def Continues (base : BitVec 64) (dataBuf : List Word) (piece : List Io × XCdoCmdLeft)
    (rest : List Word) (rs : Runs) : Prop :=
  ∃ rs', piece.2.words ++ rest = encodeRuns rs'
    ∧ piece.1 ++ listedIos base dataBuf rs' = listedIos base dataBuf rs
    ∧ Loadable rs' ∧ Short piece.2.words rs' ∧ (rest ≠ [] → Paged cacheLen (Run.shape rs'))

theorem Paged.of_few (paged : Paged room runs) (few : room ≤ 2) : Paged cacheLen runs := by
  cases paged with
  | nil => exact .nil
  | turn _ next => exact next
  | whole some | cut some => omega

theorem Paged.of_whole {n : Nat} {id : CmdId}
    (paged : Paged room ((id, n) :: runs)) (some : 2 < room) (fits : n ≤ (room - 2) / id.width) :
    Paged (room - 2 - n * id.width) runs := by
  cases paged with
  | turn few => omega
  | whole _ _ next => exact next
  | cut _ goesOn => omega

theorem Paged.of_cut {n : Nat} {id : CmdId}
    (paged : Paged room ((id, n) :: runs)) (some : 2 < room) (goesOn : (room - 2) / id.width < n) :
    n - (room - 2) / id.width < 2 ^ 16
      ∧ Paged cacheLen ((id, n - (room - 2) / id.width) :: runs) := by
  cases paged with
  | turn few => omega
  | whole _ fits => omega
  | cut _ _ counted next => exact ⟨counted, next⟩

theorem leftHeader_continues {cache rest : List Word} (loadable : Loadable rs)
    (here : cache ++ rest = encodeRuns rs)
    (paged : rest ≠ [] → Paged cache.length (Run.shape rs)) (few : cache.length ≤ 2) :
    Continues base dataBuf ([], leftHeader cache) rest rs := by
  refine ⟨rs, ?_, rfl, loadable, ?_, fun more => (paged more).of_few few⟩
  · rw [leftHeader_words]
    exact here
  · intro r more same
    have pos := CmdId.width_pos (loadable r (same ▸ List.mem_cons_self)).2.1
    rw [leftHeader_words]
    omega

section Cut

variable {r : Run CmdId Word} {more : Runs} {body words rest : List Word}
  {done left : List (List Word)}

/-- The commands of a run that are done fill the piece, if the run goes on behind it. -/
theorem length_done (sized : ∀ i ∈ r.items, i.length = r.tag.width) (split : r.items = done ++ left)
    (held : body = done.flatten ++ words) : body.length = done.length * r.tag.width + words.length := by
  have flat : done.flatten.length = done.length * r.tag.width :=
    Run.length_flatten_of_sized fun i member => sized i (split ▸ List.mem_append_left left member)
  rw [held, List.length_append, flat]

theorem cut_continues (loadable : Loadable (r :: more)) (split : r.items = done ++ left)
    (some : left ≠ []) (held : body = done.flatten ++ words) (nonempty : body ≠ [])
    (kept : words ++ rest = left.flatten ++ encodeRuns more) (short : words.length < r.tag.width)
    (paged : rest ≠ [] → Paged (body.length + 2) (Run.shape (r :: more))) :
    Continues base dataBuf (done.flatMap (executeTrans base dataBuf r.tag),
      .cmds r.tag (BitVec.ofNat 16 left.length) words) rest (r :: more) := by
  obtain ⟨formed, named, counted⟩ := loadable r List.mem_cons_self
  have sizedLeft : ∀ i ∈ left, i.length = r.tag.width :=
    fun i member => formed.sized i (split ▸ List.mem_append_right done member)
  have total : r.items.length = done.length + left.length := by rw [split, List.length_append]
  have behind : rest ≠ [] := by
    rintro rfl
    obtain ⟨i, is, rfl⟩ := List.exists_cons_of_ne_nil some
    have lengths := congrArg List.length kept
    rw [List.append_nil, List.flatten_cons, List.append_assoc, List.length_append,
      sizedLeft i List.mem_cons_self] at lengths
    omega
  have length := length_done formed.sized split held
  have filled : body.length / r.tag.width = done.length := by
    refine Nat.div_eq_of_lt_le (by omega) ?_
    rw [Nat.add_mul]
    omega
  have pos : 0 < left.length := List.length_pos_of_ne_nil some
  have bodyPos : 0 < body.length := List.length_pos_of_ne_nil nonempty
  have page := (paged behind).of_cut (by omega) (by rw [Nat.add_sub_cancel, filled, total]; omega)
  rw [Nat.add_sub_cancel, filled, total, Nat.add_sub_cancel_left] at page
  refine ⟨⟨r.tag, left⟩ :: more, ?_, ?_, ?_, ?_, fun _ => page.2⟩
  · have count : (BitVec.ofNat 16 left.length).setWidth 32 = BitVec.ofNat 32 left.length := by
      apply BitVec.eq_of_toNat_eq
      simp only [BitVec.toNat_setWidth, BitVec.toNat_ofNat]
      omega
    change r.tag.code :: (BitVec.ofNat 16 left.length).setWidth 32 :: (words ++ rest) = _
    rw [count, kept]
    rfl
  · rw [listedIos_cons, listedIos_cons, split, List.flatMap_append, List.append_assoc]
  · intro q member
    rcases List.mem_cons.mp member with rfl | later
    · have bound : left.length < 2 ^ 32 := by omega
      exact ⟨⟨some, sizedLeft⟩, named, bound⟩
    · exact loadable.tail q later
  · rintro q rest' ⟨⟩
    change words.length + 1 + 1 < 2 + r.tag.width
    omega

end Cut

theorem xcdoLoadTransCdo_continues (base : BitVec 64) (dataBuf : List Word) (fuel : Nat)
    (cache rest : List Word) (rs : Runs) (loadable : Loadable rs)
    (here : cache ++ rest = encodeRuns rs)
    (paged : rest ≠ [] → Paged cache.length (Run.shape rs)) (enough : cache.length ≤ fuel) :
    Continues base dataBuf (xcdoLoadTransCdo base dataBuf fuel cache) rest rs := by
  induction fuel generalizing cache rs with
  | zero =>
    have empty : cache = [] := List.length_eq_zero_iff.mp (by omega)
    subst empty
    exact leftHeader_continues loadable here paged (by decide)
  | succ fuel ih =>
    match cache with
    | [] => exact leftHeader_continues loadable here paged (by decide)
    | [w] => exact leftHeader_continues loadable here paged (by simp)
    | [w, n] => exact leftHeader_continues loadable here paged (by simp)
    | w :: n :: v :: buf =>
      cases rs with
      | nil => cases here
      | cons r more =>
        obtain ⟨formed, named, counted⟩ := loadable r List.mem_cons_self
        rw [encodeRuns, Run.encode_cons, Run.encodeRun] at here
        simp only [List.cons_append, List.cons.injEq] at here
        obtain ⟨rfl, rfl, here⟩ := here
        obtain ⟨done, left, words, split, held, ran, kept, incomplete⟩ :=
          loadRun_splits base dataBuf r.tag r.items _ rest (v :: buf) formed.sized here
        have number : (BitVec.ofNat 32 r.items.length).toNat = r.items.length := by
          rw [BitVec.toNat_ofNat, Nat.mod_eq_of_lt counted]
        have length := length_done formed.sized split held
        rw [← number] at ran
        by_cases whole : left = []
        · -- the run is over, and the loop goes on with what follows it
          subst whole
          rw [List.append_nil] at split
          rw [← split] at length ran
          rw [xcdoLoadTransCdo_over named ran]
          have after : words ++ rest = encodeRuns more := kept
          simp only [List.length_cons] at enough length paged
          have page : rest ≠ [] → Paged words.length (Run.shape more) := by
            intro behind
            have pos := CmdId.width_pos named
            have fits : r.items.length ≤ (buf.length + 1 + 1 + 1 - 2) / r.tag.width := by
              rw [Nat.le_div_iff_mul_le pos]
              omega
            have next := (paged behind).of_whole (by omega) fits
            have room : buf.length + 1 + 1 + 1 - 2 - r.items.length * r.tag.width
                = words.length := by omega
            rwa [room] at next
          obtain ⟨rs', kept', same, loadable', short, next⟩ :=
            ih words more loadable.tail after page (by omega)
          refine ⟨rs', kept', ?_, loadable', short, next⟩
          rw [listedIos_cons, List.append_assoc, same]
        · -- the piece ends in the run
          obtain ⟨num, count⟩ : ∃ num, left.length = num + 1 :=
            Nat.exists_eq_succ_of_ne_zero fun zero => whole (List.length_eq_zero_iff.mp zero)
          rw [count] at ran
          rw [xcdoLoadTransCdo_cut named ran, ← count]
          exact cut_continues loadable split whole held (List.cons_ne_nil v buf) kept
            (incomplete whole) paged

theorem CmdId.width_le (id : CmdId) : id.width ≤ 4 := by cases id <;> decide

/-- What the loop has before a round: the words kept and the rest of the zone are the encoding of
the commands that are left. -/
structure Pending (host : List Word) (left : XCdoCmdLeft) (rs : Runs) : Prop where
  loadable : Loadable rs
  here : left.words ++ host = encodeRuns rs
  short : Short left.words rs
  paged : host ≠ [] → Paged cacheLen (Run.shape rs)

theorem Pending.start (loadable : Loadable rs) (paged : Paged cacheLen (Run.shape rs)) :
    Pending (encodeRuns rs) .none rs :=
  ⟨loadable, rfl, fun r _ _ => Nat.lt_of_lt_of_le Nat.zero_lt_two (Nat.le_add_right 2 r.tag.width),
    fun _ => paged⟩

theorem Pending.length_words {host : List Word} {left : XCdoCmdLeft}
    (pending : Pending host left rs) : left.words.length < 6 := by
  cases rs with
  | nil =>
    have empty : left.words = [] := (List.append_eq_nil_iff.mp pending.here).1
    rw [empty]
    decide
  | cons r more =>
    have least := pending.short r more rfl
    have wide := r.tag.width_le
    omega

theorem Pending.over {left : XCdoCmdLeft} (pending : Pending [] left rs) : rs = [] := by
  have here := pending.here
  rw [List.append_nil] at here
  exact Short.eq_nil pending.loadable (here ▸ pending.short)

theorem Pending.round {host : List Word} {left : XCdoCmdLeft}
    (pending : Pending host left rs) (base : BitVec 64) (dataBuf : List Word) {cpyLen : Nat}
    (length : min host.length (cacheLen - left.words.length) = cpyLen) {cache : List Word}
    (filled : left.words ++ host.take cpyLen = cache) {ios : List Io} {left' : XCdoCmdLeft}
    (piece : xcdoLoadTransCdo base dataBuf cache.length cache = (ios, left')) :
    cache.length ≤ cacheLen ∧ ∃ rs', Pending (host.drop cpyLen) left' rs'
      ∧ ios ++ listedIos base dataBuf rs' = listedIos base dataBuf rs := by
  have few := pending.length_words
  have room : 6 ≤ cacheLen := by decide
  have size : cache.length = left.words.length + cpyLen := by
    rw [← filled, List.length_append, List.length_take]
    omega
  have whole : cache ++ host.drop cpyLen = encodeRuns rs := by
    rw [← filled, List.append_assoc, List.take_append_drop]
    exact pending.here
  have full : host.drop cpyLen ≠ [] → Paged cache.length (Run.shape rs) := by
    intro behind
    have rest := List.length_pos_of_ne_nil behind
    rw [List.length_drop] at rest
    have all : cache.length = cacheLen := by omega
    rw [all]
    refine pending.paged ?_
    rintro rfl
    cases cpyLen <;> exact behind rfl
  obtain ⟨rs', kept, same, loadable, short, paged⟩ :=
    xcdoLoadTransCdo_continues base dataBuf _ cache _ rs pending.loadable whole full (le_refl _)
  rw [piece] at kept same short
  exact ⟨by omega, rs', ⟨loadable, kept, short, paged⟩, same⟩

end

end Xrt.Pdi
