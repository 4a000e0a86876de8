import Xrt.Execbuf.Contract
import Xrt.Execbuf.Start

/-!
# Copies between buffer objects

A request to copy between two buffers on the device is rewritten, in the driver's copy of the
packet, into a command that starts one of the CUs for copies. Its registers get the addresses and
the number of blocks, and its mask the CUs that may execute it.
-/
namespace Xrt.Execbuf

open Start (copyData ecmdData)

/-- The header of a packet; `low` has the state and the bits up to `extra_cu_masks`. -/
def ertHeader (type : BitVec 4) (opcode : BitVec 5) (count : BitVec 11) (extra : BitVec 2)
    (low : BitVec 10) : BitVec 32 :=
  type ++ opcode ++ count ++ extra ++ low

/-- `ert_fill_copybo_cmd`, up to the pointer behind the packet. The reserved words stay. -/
def ertFillCopyboCmd (pkt : ErtPacket) (srcBo dstBo srcOffset dstOffset size : Nat) : ErtPacket where
  header := ertHeader 0 7 16 3 (pkt.header.extractLsb' 4 6 ++ 1#4)
  data := [0, 0, 0, 0] ++ (List.range' 4 4).map (fun i => pkt.data.getD i 0) ++
    [srcOffset, srcOffset / 2 ^ 32, srcBo, dstOffset, dstOffset / 2 ^ 32, dstBo, size, 0].map
      (BitVec.ofNat 32)

variable (data : List (BitVec 32))

/-- `cu_mask[i / 32] |= 1 << (i % 32)`. -/
def setCu (i : Nat) : List (BitVec 32) :=
  data.set (i / 32) (data.getD (i / 32) 0 ||| BitVec.twoPow 32 (i % 32))

inductive CopySide
  | src
  | dst

def ErtPacket.copyBo (pkt : ErtPacket) : CopySide → Nat
  | .src => pkt.word 10
  | .dst => pkt.word 13

def ErtPacket.copyOff (pkt : ErtPacket) : CopySide → Nat
  | .src => pkt.word64 9 8
  | .dst => pkt.word64 12 11

/-- The first of the two registers with an address. -/
def CopySide.register : CopySide → Nat
  | .src => 0
  | .dst => 3

namespace Call

variable (call : Call)

/-- The command that `copybo_ecmd2xcmd` makes of a request, with the addresses of its buffers. -/
def copyCommand (pkt : ErtPacket) (srcAddr dstAddr : Nat) : ErtPacket :=
  let filled := ertFillCopyboCmd pkt 0 0 srcAddr dstAddr (pkt.word 14 / kdmaBlockSize)
  let first := call.kds.numCus - call.kds.numCdma
  { header := ertHeader 3 0 16 3 (pkt.header.extractLsb' 4 6 ++ 1#4)
    data := (List.range' first (call.kds.numCus - first)).foldl setCu filled.data }

/-- The buffer of a side is on the device, at `start`, and has the range. -/
def Local (pkt : ErtPacket) (t : CopySide) (start : Nat) : Prop :=
  ∃ bo, call.lookup (pkt.copyBo t) = some bo ∧ bo.mmStart = some start ∧ pkt.copyOff t < bo.size ∧
    pkt.copyOff t + pkt.word 14 ≤ bo.size

/-- The same as `get_bo_paddr` tests it, with a sum that may wrap around. -/
def Passes (pkt : ErtPacket) (t : CopySide) (start : Nat) : Prop :=
  ∃ bo, call.lookup (pkt.copyBo t) = some bo ∧ bo.mmStart = some start ∧ pkt.copyOff t < bo.size ∧
    (pkt.copyOff t + pkt.word 14) % 2 ^ 64 ≤ bo.size

end Call

/-- `cu_mgmt->xcus`: for every slot in use, whether its CU is one for copies. -/
abbrev Xcus := List (Option Bool)

/-- `kds_add_cu` takes the first free slot. -/
def kdsAddCu (xcus : Xcus) (m2m : Bool) : Xcus := xcus.set (xcus.findIdx (· == none)) (some m2m)

def maskBit (i : Nat) : Bool := (data.getD (i / 32) 0).getLsbD (i % 32)

def address (info : List (BitVec 32)) (i : Nat) : Nat :=
  (info.getD (i + 1) 0).toNat * 2 ^ 32 + (info.getD i 0).toNat

/-- The command copies the range that the packet asks for: `info` are the registers of the CU. -/
structure Copies (call : Call) (xcus : Xcus) (pkt cmd : ErtPacket) (info : List (BitVec 32)) :
    Prop where
  sides : ∀ t, ∃ start, call.Local pkt t start ∧
    address info t.register = (start + pkt.copyOff t) % 2 ^ 64 ∧ kdmaBlockSize ∣ address info t.register
  size : address info 6 * kdmaBlockSize = pkt.word 14
  cus : ∀ i < 128, maskBit cmd.data i = true ↔ xcus[i]? = some (some true)

/-- What `copybo_ecmd2xcmd` should return: 0 only for a command that copies the range, and 0 for every
range of whole blocks inside of two local buffers. -/
def CopyRight (call : Call) (xcus : Xcus) (pkt : ErtPacket) (reg : Cu.KdsCommand) (ret : Int) : Prop :=
  (ret = 0 → ∃ addr : CopySide → Nat,
    (∀ t, call.boPaddr (pkt.copyBo t) (pkt.copyOff t) (pkt.word 14) = .ok (addr t)) ∧
    Copies call xcus pkt (call.copyCommand pkt (addr .src) (addr .dst))
      (Start.startKrnlEcmd2xcmd reg (call.copyCommand pkt (addr .src) (addr .dst))).info) ∧
  ∀ start : CopySide → Nat, (∀ t, call.Local pkt t (start t)) →
    (∀ t, kdmaBlockSize ∣ (start t + pkt.copyOff t) % 2 ^ 64) → kdmaBlockSize ∣ pkt.word 14 →
    call.kds.numCdma ≠ 0 → ret = 0

/-- A request that passes the tests other than those of the alignment, and whose addresses are multiples
of a block, or the sums that the driver tests instead are: it has offsets of whole blocks and ranges
inside of the buffers, and the CUs for copies are at the end of the table. -/
def Placed (call : Call) (xcus : Xcus) (pkt : ErtPacket) : Prop :=
  ∀ start : CopySide → Nat, (∀ t, call.Passes pkt t (start t)) → kdmaBlockSize ∣ pkt.word 14 →
    call.kds.numCdma ≠ 0 →
    (∀ t, call.Local pkt t (start t) ∧ kdmaBlockSize ∣ start t + pkt.copyOff t)
      ∨ (∀ t, kdmaBlockSize ∣ start t + 2 * pkt.copyOff t) →
    (∀ t, kdmaBlockSize ∣ pkt.copyOff t ∧ call.Local pkt t (start t))
      ∧ ∀ i < 128, xcus[i]? = some (some true) ↔
        call.kds.numCus - call.kds.numCdma ≤ i ∧ i < call.kds.numCus

/-! ### The packet -/

section Header

variable (type : BitVec 4) (opcode : BitVec 5) (count : BitVec 11) (extra : BitVec 2) (low : BitVec 10)

theorem count_ertHeader :
    ErtPacket.count ⟨ertHeader type opcode count extra low, data⟩ = count.toNat := by
  apply congrArg BitVec.toNat
  ext i inside
  have behindLow : ¬ 12 + i < 10 := by omega
  have behindExtra : ¬ 12 + i - 10 < 2 := by omega
  have here : 12 + i - 10 - 2 = i := by omega
  rw [BitVec.getElem_extractLsb']
  change (type ++ opcode ++ count ++ extra ++ low).getLsbD (12 + i) = count[i]
  simp only [BitVec.getLsbD_append, behindLow, behindExtra, here, inside, if_true, if_false,
    BitVec.getLsbD_eq_getElem]

theorem extraCuMasks_ertHeader :
    ErtPacket.extraCuMasks ⟨ertHeader type opcode count extra low, data⟩ = extra.toNat := by
  apply congrArg BitVec.toNat
  ext i inside
  have behindLow : ¬ 10 + i < 10 := by omega
  have here : 10 + i - 10 = i := by omega
  rw [BitVec.getElem_extractLsb']
  change (type ++ opcode ++ count ++ extra ++ low).getLsbD (10 + i) = extra[i]
  simp only [BitVec.getLsbD_append, behindLow, here, inside, if_true, if_false,
    BitVec.getLsbD_eq_getElem]

end Header

theorem maskBit_setCu {data : List (BitVec 32)} {j : Nat} (inside : j / 32 < data.length) (i : Nat) :
    maskBit (setCu data j) i = (maskBit data i || decide (i = j)) := by
  by_cases word : j / 32 = i / 32
  · have bit : j % 32 = i % 32 ↔ i = j := by omega
    have cell : (setCu data j).getD (i / 32) 0 =
        data.getD (i / 32) 0 ||| BitVec.twoPow 32 (j % 32) := by
      rw [word] at inside
      simp [setCu, word, List.getD_eq_getElem?_getD, inside]
    rw [maskBit, cell, BitVec.getLsbD_or, BitVec.getLsbD_twoPow, maskBit,
      decide_eq_true (Nat.mod_lt j (by decide)), Bool.true_and, decide_eq_decide.mpr bit]
  · have other : i ≠ j := fun same => word (same ▸ rfl)
    have cell : (setCu data j).getD (i / 32) 0 = data.getD (i / 32) 0 := by
      simp [setCu, List.getD_eq_getElem?_getD, List.getElem?_set_ne word]
    rw [maskBit, cell, decide_eq_false other, Bool.or_false, maskBit]

theorem foldl_setCu (long : 4 ≤ data.length) {cus : List Nat} (inside : ∀ j ∈ cus, j < 128) :
    (∀ i, maskBit (cus.foldl setCu data) i = (maskBit data i || decide (i ∈ cus))) ∧
      ∀ k, 4 ≤ k → (cus.foldl setCu data).getD k 0 = data.getD k 0 := by
  induction cus generalizing data with
  | nil => simp
  | cons j cus ih =>
    rw [List.forall_mem_cons] at inside
    have first : j / 32 < 4 := by omega
    obtain ⟨bits, words⟩ := ih (setCu data j) (by simpa [setCu] using long) inside.2
    constructor
    · intro i
      rw [List.foldl_cons, bits, maskBit_setCu (by omega)]
      simp [Bool.or_assoc]
    · intro k behind
      have other : j / 32 ≠ k := by omega
      rw [List.foldl_cons, words k behind]
      simp [setCu, List.getD_eq_getElem?_getD, List.getElem?_set_ne other]

section Command

variable {call : Call} {xcus : Xcus} {pkt : ErtPacket} {srcAddr dstAddr : Nat}

theorem copyCommand_words (call : Call) (pkt : ErtPacket) (srcAddr dstAddr : Nat) :
    (call.copyCommand pkt srcAddr dstAddr).extraCuMasks = 3 ∧
      (call.copyCommand pkt srcAddr dstAddr).count -
        Start.numMask (call.copyCommand pkt srcAddr dstAddr) - 4 = 8 := by
  have sixteen : (call.copyCommand pkt srcAddr dstAddr).count = 16 := count_ertHeader ..
  have three : (call.copyCommand pkt srcAddr dstAddr).extraCuMasks = 3 := extraCuMasks_ertHeader ..
  rw [Start.numMask, sixteen, three]
  exact ⟨rfl, rfl⟩

theorem copyCommand_info (pkt : ErtPacket) (srcAddr dstAddr : Nat) (numCus : call.kds.numCus ≤ 128)
    (reg : Cu.KdsCommand) {i : Nat} (inside : i < 8) :
    (Start.startKrnlEcmd2xcmd reg (call.copyCommand pkt srcAddr dstAddr)).info.getD i 0 =
      (ertFillCopyboCmd pkt 0 0 srcAddr dstAddr (pkt.word 14 / kdmaBlockSize)).data.getD (8 + i) 0 := by
  obtain ⟨three, words⟩ := copyCommand_words call pkt srcAddr dstAddr
  rw [Start.startKrnlEcmd2xcmd, words, three]
  refine (Start.getD_copyData inside _).trans ?_
  have behind : 1 + (4 + 3 + i) = 8 + i := by omega
  rw [ecmdData, behind]
  apply (foldl_setCu _ (by simp [ertFillCopyboCmd]) _).2 _ (by omega)
  intro j member
  have := List.mem_range'_1.mp member
  omega

theorem maskBit_copyCommand (numCus : call.kds.numCus ≤ 128) {i : Nat} (inside : i < 128) :
    maskBit (call.copyCommand pkt srcAddr dstAddr).data i = true ↔
      call.kds.numCus - call.kds.numCdma ≤ i ∧ i < call.kds.numCus := by
  have cleared : maskBit
      (ertFillCopyboCmd pkt 0 0 srcAddr dstAddr (pkt.word 14 / kdmaBlockSize)).data i = false := by
    have word : i / 32 = 0 ∨ i / 32 = 1 ∨ i / 32 = 2 ∨ i / 32 = 3 := by omega
    rcases word with word | word | word | word <;> simp [maskBit, word, ertFillCopyboCmd]
  have units : ∀ j ∈ List.range' (call.kds.numCus - call.kds.numCdma)
      (call.kds.numCus - (call.kds.numCus - call.kds.numCdma)), j < 128 := by
    intro j member
    have := List.mem_range'_1.mp member
    omega
  have bits := (foldl_setCu
    (ertFillCopyboCmd pkt 0 0 srcAddr dstAddr (pkt.word 14 / kdmaBlockSize)).data
    (by simp [ertFillCopyboCmd]) units).1 i
  rw [Call.copyCommand]
  dsimp only
  rw [bits, cleared, Bool.false_or, decide_eq_true_iff, List.mem_range'_1]
  omega

theorem address_info (pkt : ErtPacket) (addr : CopySide → Nat) (numCus : call.kds.numCus ≤ 128)
    (reg : Cu.KdsCommand) :
    let info := (Start.startKrnlEcmd2xcmd reg (call.copyCommand pkt (addr .src) (addr .dst))).info
    (∀ t, address info t.register = addr t % 2 ^ 64) ∧
      address info 6 = pkt.word 14 / kdmaBlockSize := by
  have blocks : pkt.word 14 / kdmaBlockSize < 2 ^ 32 :=
    Nat.lt_of_le_of_lt (Nat.div_le_self _ _) (pkt.data.getD 14 0).isLt
  have info := fun (i : Nat) (inside : i < 8) =>
    copyCommand_info pkt (addr .src) (addr .dst) numCus reg inside
  refine ⟨fun t => ?_, ?_⟩
  · cases t <;> rw [CopySide.register, address, info _ (by decide), info _ (by decide)] <;>
      simp [ertFillCopyboCmd] <;> omega
  · rw [address, info _ (by decide), info _ (by decide)]
    simp [ertFillCopyboCmd]
    omega

variable {t : CopySide} {start start' : Nat}

theorem boPaddr_ok_iff {addr : Nat} :
    call.boPaddr (pkt.copyBo t) (pkt.copyOff t) (pkt.word 14) = .ok addr ↔
      ∃ start, call.Passes pkt t start ∧ addr = (start + pkt.copyOff t) % 2 ^ 64 := by
  constructor
  · intro ok
    unfold Call.boPaddr at ok
    split at ok
    · cases ok
    next bo found =>
      split at ok
      · cases ok
      next start isLocal =>
        split at ok
        · cases ok
        next inside =>
          cases ok
          exact ⟨start, ⟨bo, found, isLocal, by omega, by omega⟩, rfl⟩
  · rintro ⟨start, ⟨bo, found, isLocal, before, inside⟩, rfl⟩
    have accepted : ¬ (bo.size ≤ pkt.copyOff t ∨ bo.size < (pkt.copyOff t + pkt.word 14) % 2 ^ 64) := by
      omega
    simp only [Call.boPaddr, found, isLocal, if_neg accepted]

theorem Call.Passes.unique (passes : call.Passes pkt t start) (passes' : call.Passes pkt t start') :
    start = start' := by
  obtain ⟨bo, found, isLocal, -⟩ := passes
  obtain ⟨bo', found', isLocal', -⟩ := passes'
  cases found.symm.trans found'
  exact Option.some.inj (isLocal.symm.trans isLocal')

theorem Call.Local.passes (inside : call.Local pkt t start) : call.Passes pkt t start := by
  obtain ⟨bo, found, isLocal, before, le⟩ := inside
  exact ⟨bo, found, isLocal, before, (Nat.mod_le _ _).trans le⟩

end Command

/-! ### Whole blocks -/

section Blocks

variable {start off : Nat}

theorem dvd_mod_iff (n : Nat) : kdmaBlockSize ∣ n % 2 ^ 64 ↔ kdmaBlockSize ∣ n :=
  Nat.dvd_mod_iff (by decide)

/-- The driver adds the offset a second time. -/
theorem tested_iff :
    ((start + off) % 2 ^ 64 + off) % kdmaBlockSize = 0 ↔ kdmaBlockSize ∣ start + 2 * off := by
  unfold kdmaBlockSize
  omega

theorem offset_whole (address : kdmaBlockSize ∣ start + off) (tested : kdmaBlockSize ∣ start + 2 * off) :
    kdmaBlockSize ∣ off := by
  unfold kdmaBlockSize at *
  omega

theorem tested_whole (whole : kdmaBlockSize ∣ off) :
    kdmaBlockSize ∣ start + 2 * off ↔ kdmaBlockSize ∣ start + off := by
  unfold kdmaBlockSize at *
  omega

end Blocks

/-! ### The copy -/

section Copy

variable {call : Call} {xcus : Xcus} {pkt : ErtPacket}

/-- The driver accepts what passes its tests. -/
theorem copiesByCu_iff : CopiesByCu call pkt ↔ ∃ start : CopySide → Nat,
    (∀ t, call.Passes pkt t (start t)) ∧ (∀ t, kdmaBlockSize ∣ start t + 2 * pkt.copyOff t)
      ∧ kdmaBlockSize ∣ pkt.word 14 ∧ call.kds.numCdma ≠ 0 := by
  constructor
  · rintro ⟨⟨srcAddr, srcFound, srcTested⟩, ⟨dstAddr, dstFound, dstTested⟩, size, cdma⟩
    obtain ⟨src, srcPasses, rfl⟩ := (boPaddr_ok_iff (t := .src)).mp srcFound
    obtain ⟨dst, dstPasses, rfl⟩ := (boPaddr_ok_iff (t := .dst)).mp dstFound
    refine ⟨fun | .src => src | .dst => dst, fun t => ?_, fun t => ?_, Nat.dvd_of_mod_eq_zero size, cdma⟩
    · cases t
      · exact srcPasses
      · exact dstPasses
    · cases t
      · exact tested_iff.mp srcTested
      · exact tested_iff.mp dstTested
  · rintro ⟨start, passes, tested, size, cdma⟩
    have side (t : CopySide) := boPaddr_ok_iff.mpr ⟨start t, passes t, rfl⟩
    exact ⟨⟨_, side .src, tested_iff.mpr (tested .src)⟩, ⟨_, side .dst, tested_iff.mpr (tested .dst)⟩,
      Nat.mod_eq_zero_of_dvd size, cdma⟩

/-- A command that copies the range was made from addresses of whole blocks, for all CUs for copies. -/
theorem copies_iff (numCus : call.kds.numCus ≤ 128) (reg : Cu.KdsCommand) {start : CopySide → Nat}
    (passes : ∀ t, call.Passes pkt t (start t)) (size : kdmaBlockSize ∣ pkt.word 14)
    {addr : CopySide → Nat} (found : ∀ t, addr t = (start t + pkt.copyOff t) % 2 ^ 64) :
    Copies call xcus pkt (call.copyCommand pkt (addr .src) (addr .dst))
        (Start.startKrnlEcmd2xcmd reg (call.copyCommand pkt (addr .src) (addr .dst))).info ↔
      (∀ t, call.Local pkt t (start t) ∧ kdmaBlockSize ∣ start t + pkt.copyOff t)
      ∧ ∀ i < 128, xcus[i]? = some (some true) ↔
        call.kds.numCus - call.kds.numCdma ≤ i ∧ i < call.kds.numCus := by
  obtain ⟨registers, blocks⟩ := address_info pkt addr numCus reg
  have info (t : CopySide) := (registers t).trans (by rw [found, Nat.mod_mod] :
    addr t % 2 ^ 64 = (start t + pkt.copyOff t) % 2 ^ 64)
  have mask {i : Nat} (inside : i < 128) :
      maskBit (call.copyCommand pkt (addr .src) (addr .dst)).data i = true ↔ _ :=
    maskBit_copyCommand numCus inside
  constructor
  · rintro ⟨sides, -, cus⟩
    refine ⟨fun t => ?_, fun i inside => (cus i inside).symm.trans (mask inside)⟩
    obtain ⟨start', inside, -, whole⟩ := sides t
    cases inside.passes.unique (passes t)
    rw [info, dvd_mod_iff] at whole
    exact ⟨inside, whole⟩
  · rintro ⟨sides, cus⟩
    refine ⟨fun t => ⟨start t, (sides t).1, info t, ?_⟩, ?_,
      fun i inside => (mask inside).trans (cus i inside).symm⟩
    · rw [info, dvd_mod_iff]
      exact (sides t).2
    · rw [blocks, Nat.div_mul_cancel size]

/-- A copy that is left to a CU is the one that was asked for, and a copy of whole blocks between two
local buffers is left to one, exactly if the request is placed well. -/
theorem copyboEcmd2xcmd_right_iff (call : Call) (xcus : Xcus) (pkt : ErtPacket)
    {xcmd : KdsCommand} (numCus : call.kds.numCus ≤ 128) (allocated : xcmd.info = true) (w : World)
    (reg : Cu.KdsCommand) :
    ∃ w' xcmd' ret, call.copyboEcmd2xcmd pkt xcmd w = .ok (w', xcmd', ret) ∧
      (CopyRight call xcus pkt reg ret ↔ Placed call xcus pkt) := by
  obtain ⟨w', xcmd', ret, returned, -, -, zero⟩ := copyboEcmd2xcmd_spec pkt w allocated
  rw [copiesByCu_iff] at zero
  refine ⟨w', xcmd', ret, returned, fun right start passes size cdma either => ?_,
    fun placed => ⟨fun done => ?_, fun start inside whole size cdma => ?_⟩⟩
  · have done : ret = 0 := by
      rcases either with sides | tested
      · exact right.2 start (fun t => (sides t).1) (fun t => (dvd_mod_iff _).mpr (sides t).2) size cdma
      · exact zero.mpr ⟨start, passes, tested, size, cdma⟩
    obtain ⟨start', passes', tested, -⟩ := zero.mp done
    cases funext fun t => (passes' t).unique (passes t)
    obtain ⟨addr, found, copies⟩ := right.1 done
    have made (t : CopySide) : addr t = (start t + pkt.copyOff t) % 2 ^ 64 :=
      Except.ok.inj ((found t).symm.trans (boPaddr_ok_iff.mpr ⟨start t, passes t, rfl⟩))
    obtain ⟨sides, cus⟩ := (copies_iff numCus reg passes size made).mp copies
    exact ⟨fun t => ⟨offset_whole (sides t).2 (tested t), (sides t).1⟩, cus⟩
  · obtain ⟨start, passes, tested, size, cdma⟩ := zero.mp done
    obtain ⟨sides, cus⟩ := placed start passes size cdma (.inr tested)
    refine ⟨fun t => (start t + pkt.copyOff t) % 2 ^ 64,
      fun t => boPaddr_ok_iff.mpr ⟨start t, passes t, rfl⟩,
      (copies_iff numCus reg passes size fun t => rfl).mpr ⟨fun t => ⟨(sides t).2, ?_⟩, cus⟩⟩
    exact (tested_whole (sides t).1).mp (tested t)
  · have whole' (t : CopySide) := (dvd_mod_iff _).mp (whole t)
    obtain ⟨sides, -⟩ := placed start (fun t => (inside t).passes) size cdma
      (.inl fun t => ⟨inside t, whole' t⟩)
    exact zero.mpr ⟨start, fun t => (inside t).passes, fun t => (tested_whole (sides t).1).mpr (whole' t),
      size, cdma⟩

end Copy

/-- A request to copy 64 bytes from offset `src` of object 2 to offset `dst` of object 3. -/
def copyRequest (src dst : BitVec 32) : ErtPacket :=
  ⟨0x03810C01, [0, 0, 0, 0, 0, 0, 0, 0, src, 0, 2, dst, 0, 3, 64, 0]⟩

/-- Two CUs, of which the second is for copies, and buffers of a page at `start`. -/
def copyCall (start : Nat) : Call :=
  { callFor true (page true 0 []) with lookup := fun _ => some ⟨pageSize, false, some start, ⟨0, []⟩⟩ }

def startXcmd : KdsCommand := ⟨.cu, .none, .new, 0, -1, true, .execbufXgq, 1, false⟩

theorem copyboEcmd2xcmd_right_block :
    ∃ w' xcmd' ret, (copyCall 0).copyboEcmd2xcmd (copyRequest 64 128) startXcmd World.init =
      .ok (w', xcmd', ret) ∧
      CopyRight (copyCall 0) [some false, some true] (copyRequest 64 128) Start.blankXcmd ret := by
  obtain ⟨w', xcmd', ret, returned, right⟩ := copyboEcmd2xcmd_right_iff (copyCall 0)
    [some false, some true] (copyRequest 64 128) (by decide) (show startXcmd.info = true from rfl)
    World.init Start.blankXcmd
  refine ⟨w', xcmd', ret, returned, right.mpr fun start passes _ _ _ => ⟨fun t => ?_, fun i _ => ?_⟩⟩
  · obtain ⟨bo, found, at', -⟩ := passes t
    cases found
    cases t <;> exact ⟨by decide, _, rfl, at', by decide, by decide⟩
  · match i with
    | 0 | 1 => decide
    | i + 2 => simp [copyCall, callFor]

/-- A copy from half a block behind a page is accepted, and its address is no multiple of a block.
One whose addresses are multiples of a block is refused. A CU for copies that was added first does
not get the command. -/
theorem copyboEcmd2xcmd_misjudges :
    (∃ w xcmd, (copyCall 0).copyboEcmd2xcmd (copyRequest 32 32) startXcmd World.init =
        .ok (w, xcmd, 0)) ∧
      address (Start.startKrnlEcmd2xcmd Start.blankXcmd
        ((copyCall 0).copyCommand (copyRequest 32 32) 32 32)).info 0 = 32 ∧
      (∃ w xcmd, (copyCall 32).copyboEcmd2xcmd (copyRequest 32 32) startXcmd World.init =
        .ok (w, xcmd, -EINVAL)) ∧
      kdsAddCu (kdsAddCu [none, none] true) false = [some true, some false] ∧
      maskBit ((copyCall 0).copyCommand (copyRequest 64 64) 64 64).data 0 = false := by
  refine ⟨⟨_, _, rfl⟩, by decide, ⟨_, _, rfl⟩, by decide, by decide⟩

end Xrt.Execbuf
