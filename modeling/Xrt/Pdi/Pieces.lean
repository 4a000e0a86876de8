import Xrt.Pdi.TransLoad

/-!
# The pieces of a command zone

How the loader of a transformed PDI comes through a command zone whose counts have 16 bits: the
rounds of its loop, with what each of them puts into the cache and into `cmdHeaderLeft`.
-/
namespace Xrt.Pdi

open Lib

/-- `MAX_HEADER_LEFT`, the words of `cmdHeaderLeft`. -/
def maxHeaderLeft : Nat := 6

def XCdoCmdLeft.cmdHeaderLeft : XCdoCmdLeft → List Word
  | .none => []
  | .header words | .cmds _ _ words => words

/-- Each round of `XCdo_LoadTransCdo_Asm` with the words in its cache and what the piece leaves
over. `none`: the loop is not over after `fuel` rounds. -/
def asmRounds (base : BitVec 64) (dataBuf : List Word) :
    Nat → List Word → XCdoCmdLeft → Option (List (List Word × XCdoCmdLeft))
  | _, [], _ => some []
  | 0, _ :: _, _ => none
  | fuel + 1, w :: host, left =>
    let cpyLen := min (w :: host).length (cacheLen - left.words.length)
    let cache := left.words ++ (w :: host).take cpyLen
    let left := (xcdoLoadTransCdo base dataBuf cache.length cache).2
    (asmRounds base dataBuf fuel ((w :: host).drop cpyLen) left).map ((cache, left) :: ·)

def executed (base : BitVec 64) (dataBuf : List Word) (rounds : List (List Word × XCdoCmdLeft)) :
    List Io :=
  rounds.flatMap fun (cache, _) => (xcdoLoadTransCdo base dataBuf cache.length cache).1

/-- Groups of supported commands with counts from 1 to 65535. -/
def ShortRuns (rs : Runs) : Prop :=
  ∀ r ∈ rs, Run.WellFormed CmdId.width r ∧ r.tag ≠ .nop ∧ r.items.length < 2 ^ 16

variable {base : BitVec 64} {dataBuf : List Word} {rs : Runs}

theorem ShortRuns.loadable (short : ShortRuns rs) : Loadable rs := fun r member =>
  ⟨(short r member).1, (short r member).2.1, Nat.lt_trans (short r member).2.2 (by decide)⟩

/-! ### Every zone of short runs can be paged -/

/-- A piece holds a command at least, so that a run comes to its end. -/
theorem paged_cons {id : CmdId} {runs : List (CmdId × Nat)} (named : id ≠ .nop)
    (rest : ∀ room, Paged room runs) (n : Nat) (counted : n < 2 ^ 16) :
    Paged cacheLen ((id, n) :: runs) := by
  induction n using Nat.strong_induction_on with
  | _ n ih =>
    by_cases fits : n ≤ (cacheLen - 2) / id.width
    · exact .whole (by decide) fits (rest _)
    · have held : 0 < (cacheLen - 2) / id.width :=
        Nat.div_pos (id.width_le.trans (by decide)) (CmdId.width_pos named)
      exact .cut (by decide) (by omega) (by omega) (ih _ (by omega) (by omega))

theorem paged_of_short {runs : List (CmdId × Nat)}
    (short : ∀ r ∈ runs, r.1 ≠ .nop ∧ r.2 < 2 ^ 16) (room : Nat) : Paged room runs := by
  induction runs generalizing room with
  | nil => exact .nil
  | cons r runs ih =>
    obtain ⟨id, n⟩ := r
    obtain ⟨named, counted⟩ := short (id, n) List.mem_cons_self
    have rest := ih fun q member => short q (List.mem_cons_of_mem _ member)
    by_cases few : room ≤ 2
    · exact .turn few (paged_cons named rest n counted)
    · by_cases fits : n ≤ (room - 2) / id.width
      · exact .whole (by omega) fits (rest _)
      · have fewer : n - (room - 2) / id.width < 2 ^ 16 := Nat.lt_of_le_of_lt (Nat.sub_le _ _) counted
        exact .cut (by omega) (by omega) fewer (paged_cons named rest _ fewer)

theorem ShortRuns.paged (short : ShortRuns rs) : Paged cacheLen (Run.shape rs) := by
  refine paged_of_short (fun q member => ?_) cacheLen
  obtain ⟨r, inside, rfl⟩ := List.mem_map.mp member
  exact (short r inside).2

/-! ### The rounds -/

theorem XCdoCmdLeft.length_cmdHeaderLeft (left : XCdoCmdLeft) :
    left.cmdHeaderLeft.length ≤ left.words.length := by
  cases left with
  | none | header words => exact le_refl _
  | cmds id cmdNum words => exact Nat.le_add_right words.length 2

/-- The accesses of the loop are those of its rounds. -/
theorem executed_asmRounds {rounds : List (List Word × XCdoCmdLeft)} (fuel : Nat) (host : List Word)
    (left : XCdoCmdLeft) (ran : asmRounds base dataBuf fuel host left = some rounds) :
    xcdoLoadTransCdoAsmLoop base dataBuf fuel host left = executed base dataBuf rounds := by
  induction fuel generalizing host left rounds with
  | zero =>
    cases host with
    | nil => cases ran; rfl
    | cons w host => cases ran
  | succ fuel ih =>
    cases host with
    | nil => cases ran; rfl
    | cons w host =>
      obtain ⟨more, later, rfl⟩ := Option.map_eq_some_iff.mp ran
      exact congrArg (_ ++ ·) (ih _ _ later)

theorem asmRounds_bounded (base : BitVec 64) (dataBuf : List Word) (fuel : Nat) (host : List Word) (left : XCdoCmdLeft) (rs : Runs)
    (pending : Pending host left rs) (enough : host.length ≤ fuel) :
    ∃ rounds, asmRounds base dataBuf fuel host left = some rounds
      ∧ executed base dataBuf rounds = listedIos base dataBuf rs
      ∧ ∀ r ∈ rounds, r.1.length ≤ cacheLen ∧ r.2.cmdHeaderLeft.length ≤ maxHeaderLeft := by
  induction fuel generalizing host left rs with
  | zero =>
    obtain rfl : host = [] := List.length_eq_zero_iff.mp (by omega)
    rw [pending.over]
    exact ⟨[], rfl, rfl, by simp⟩
  | succ fuel ih =>
    cases host with
    | nil =>
      rw [pending.over]
      exact ⟨[], rfl, rfl, by simp⟩
    | cons w host =>
      rw [asmRounds]
      generalize length : min (w :: host).length (cacheLen - left.words.length) = cpyLen
      generalize filled : left.words ++ (w :: host).take cpyLen = cache
      -- fewer than six words are left over, so that every round takes a new one
      have few := pending.length_words
      have room : 6 ≤ cacheLen := by decide
      obtain ⟨held, rs', pending', same⟩ := pending.round base dataBuf length filled rfl
      have fewer : ((w :: host).drop cpyLen).length ≤ fuel := by
        rw [List.length_drop]
        simp only [List.length_cons] at length enough ⊢
        omega
      obtain ⟨rounds, ran, ios, bounds⟩ := ih _ _ rs' pending' fewer
      refine ⟨_, by rw [ran]; rfl, ?_, ?_⟩
      · rw [← same, ← ios]
        rfl
      · intro r member
        rcases List.mem_cons.mp member with rfl | later
        · have kept := pending'.length_words
          have part := (xcdoLoadTransCdo base dataBuf cache.length cache).2.length_cmdHeaderLeft
          exact ⟨held, part.trans (Nat.le_of_lt kept)⟩
        · exact bounds r later

/-- **Where the pieces of a zone end does not matter:** the loader executes the commands of the
groups one after the other, its loop ends, and no round writes behind the cache or behind
`cmdHeaderLeft`. -/
theorem xcdoLoadTransCdoAsm_pieces (base : BitVec 64) (header data : List Word) (cmdLen : Word)
    (short : ShortRuns rs) (hdr : header.length = cdoHdrLen)
    (len : cmdLen.toInt = 4 * (encodeRuns rs).length) :
    xcdoLoadTransCdoAsm base (header ++ (encodeRuns rs ++ data)) cmdLen = listedIos base data rs
      ∧ ∃ rounds, asmRounds base data (encodeRuns rs).length (encodeRuns rs) .none = some rounds
        ∧ executed base data rounds = listedIos base data rs
        ∧ ∀ r ∈ rounds, r.1.length ≤ cacheLen ∧ r.2.cmdHeaderLeft.length ≤ maxHeaderLeft := by
  have pending := Pending.start short.loadable short.paged
  obtain ⟨rounds, ran, ios, bounds⟩ :=
    asmRounds_bounded base data _ _ _ rs pending (le_refl _)
  refine ⟨?_, rounds, ran, ios, bounds⟩
  have words : cmdLen.toInt.toNat / 4 = (encodeRuns rs).length := by
    rw [len]
    omega
  rw [xcdoLoadTransCdoAsm, words, List.drop_left' hdr, List.take_left' rfl, List.drop_left' rfl]
  exact (executed_asmRounds _ _ _ ran).trans ios

/-- A group of 200 writes, which the first piece ends in, and a group of one masked write. -/
def twoGroups : Runs := [⟨.write, List.replicate 200 [4, 7]⟩, ⟨.maskWrite, [[8, 1, 1]]⟩]

theorem xcdoLoadTransCdoAsm_twoGroups :
    xcdoLoadTransCdoAsm 0 (List.replicate 5 0 ++ (encodeRuns twoGroups ++ [])) 1628
      = listedIos 0 [] twoGroups := by
  have short : ShortRuns twoGroups := by
    intro r member
    simp only [twoGroups, List.mem_cons, List.not_mem_nil, or_false] at member
    rcases member with rfl | rfl
    · exact ⟨⟨List.cons_ne_nil _ _, fun i inside => by rw [List.eq_of_mem_replicate inside]; rfl⟩, by decide,
        List.length_replicate.trans_lt (by decide)⟩
    · exact ⟨⟨by decide, fun i inside => by rw [List.mem_singleton.mp inside]; rfl⟩, by decide,
        by decide⟩
  exact (xcdoLoadTransCdoAsm_pieces 0 _ [] 1628 short rfl (by decide +kernel)).1

end Xrt.Pdi
