import Xrt.Lib.Counter

/-!
# One ring of an XGQ

The ring functions of `xgq_impl.h` on the software representation that one side keeps of
a ring, and the geometry of a ring: a power-of-two number of slots at addresses that are
computed with a 32-bit product.
-/
namespace Xrt.Xgq

open Lib

/-- `struct xgq_ring`, without the back pointer and the addresses of the shared words. -/
structure XgqRing where
  xrSlotNum : BitVec 32
  xrSlotSz : BitVec 32
  xrProduced : BitVec 32
  xrConsumed : BitVec 32
  xrSlotAddr : BitVec 64
  deriving DecidableEq, Repr

def xgqInitRing (slots : BitVec 64) (slotNum slotSize : BitVec 32) : XgqRing :=
  ⟨slotNum, slotSize, 0, 0, slots⟩

variable (ring : XgqRing)

def xgqRingFull : Bool :=
  decide (ring.xrSlotNum ≤ ring.xrProduced - ring.xrConsumed)

def xgqRingEmpty : Bool :=
  decide (ring.xrProduced = ring.xrConsumed)

/-- The product has 32 bits, only the sum has 64. -/
def xgqRingSlotPtrProduced : BitVec 64 :=
  ring.xrSlotAddr +
    (ring.xrSlotSz * (ring.xrProduced &&& (ring.xrSlotNum - 1))).setWidth 64

def xgqRingSlotPtrConsumed : BitVec 64 :=
  ring.xrSlotAddr +
    (ring.xrSlotSz * (ring.xrConsumed &&& (ring.xrSlotNum - 1))).setWidth 64

def xgqRingReadProduced (value : BitVec 32) : XgqRing :=
  { ring with xrProduced := value }

def xgqRingReadConsumed (value : BitVec 32) : XgqRing :=
  { ring with xrConsumed := value }

/-- The part of `xgq_produce` after `xgq_can_produce`: the slot address and the new ring. -/
def xgqProduceSlot : BitVec 64 × XgqRing :=
  (xgqRingSlotPtrProduced ring, { ring with xrProduced := ring.xrProduced + 1 })

/-- The part of `xgq_consume` after `xgq_can_consume`. -/
def xgqConsumeSlot : BitVec 64 × XgqRing :=
  (xgqRingSlotPtrConsumed ring, { ring with xrConsumed := ring.xrConsumed + 1 })

/-- The two values and the loop counter of `xgq_double_read32`. -/
structure DoubleRead where
  val0 : BitVec 32
  val1 : BitVec 32
  i : Nat
  deriving DecidableEq, Repr

/-- `val[i++ & 0x1] = value`. -/
def DoubleRead.store (d : DoubleRead) (value : BitVec 32) : DoubleRead :=
  if d.i % 2 = 0 then ⟨value, d.val1, d.i + 1⟩ else ⟨d.val0, value, d.i + 1⟩

/-- Where a refresh of a cached counter stands: before its first read of the shared word,
or inside the loop of `xgq_double_read32`. -/
inductive Refresh
  | first
  | again (d : DoubleRead)
  deriving DecidableEq, Repr

/-- One shared read of a refresh: it goes on, or it returns the value to cache. -/
def Refresh.read (doubleRead : Bool) : Refresh → BitVec 32 → Refresh ⊕ BitVec 32
  | .first, value =>
    if doubleRead then .inl (.again ⟨value - 1, value, 0⟩) else .inr value
  | .again d, value =>
    let d := d.store value
    if d.val0 = d.val1 then .inr d.val0 else .inl (.again d)

theorem Refresh.read_returns (doubleRead : Bool) (r : Refresh) (value result : BitVec 32)
    (returned : r.read doubleRead value = .inr result) : result = value := by
  cases r with
  | first =>
    simp only [Refresh.read] at returned
    split at returned
    · cases returned
    · exact (Sum.inr.inj returned).symm
  | again d =>
    simp only [Refresh.read] at returned
    split at returned
    next equal =>
      have stored := Sum.inr.inj returned
      -- the freshly read value sits in one of the two cells, and both cells agree
      unfold DoubleRead.store at equal stored
      split at equal
      next even =>
        rw [if_pos even] at stored
        exact stored.symm
      next odd =>
        rw [if_neg odd] at stored
        rw [← stored]
        exact equal
    · cases returned

/-- The geometry of a ring. `xgq_attach` refuses a slot count that is not a power of two
or is below two. -/
structure RingLayout where
  slotNum : BitVec 32
  slotSz : BitVec 32
  slotAddr : BitVec 64
  order : Nat
  order_pos : 1 ≤ order
  slotNum_eq : slotNum.toNat = 2 ^ order

namespace RingLayout

variable (L : RingLayout)

/-- What the computation of a slot address relies on. -/
def ProductFits : Prop := L.slotSz.toNat * (L.slotNum.toNat - 1) < 2 ^ 32

/-- Number of 32-bit words of a slot, as `xgq_copy_to_ring` counts them. -/
def words : Nat := L.slotSz.toNat / 4

/-- Address of the slot that a free-running counter value selects. -/
def slotOf (counter : BitVec 32) : BitVec 64 :=
  L.slotAddr + (L.slotSz * (counter &&& (L.slotNum - 1))).setWidth 64

theorem two_le_slotNum : 2 ≤ L.slotNum.toNat := by
  rw [L.slotNum_eq]
  calc 2 = 2 ^ 1 := rfl
    _ ≤ 2 ^ L.order := Nat.pow_le_pow_right (by decide) L.order_pos

/-- The ring's slot geometry in one side's representation of it. -/
def Describes : Prop :=
  ring.xrSlotNum = L.slotNum ∧ ring.xrSlotSz = L.slotSz ∧ ring.xrSlotAddr = L.slotAddr

theorem slotPtrProduced_eq {ring : XgqRing} (geometry : L.Describes ring) :
    xgqRingSlotPtrProduced ring = L.slotOf ring.xrProduced := by
  obtain ⟨num, size, addr⟩ := geometry
  simp only [xgqRingSlotPtrProduced, slotOf, num, size, addr]

theorem slotPtrConsumed_eq {ring : XgqRing} (geometry : L.Describes ring) :
    xgqRingSlotPtrConsumed ring = L.slotOf ring.xrConsumed := by
  obtain ⟨num, size, addr⟩ := geometry
  simp only [xgqRingSlotPtrConsumed, slotOf, num, size, addr]

end RingLayout

/-- Address of the `k`-th 32-bit word behind a slot address. -/
def wordAddr (slot : BitVec 64) (k : Nat) : BitVec 64 := slot + BitVec.ofNat 64 (4 * k)

namespace RingLayout

variable (L : RingLayout)

private theorem offset_toNat (fits : L.ProductFits) (base : BitVec 32) (j k : Nat) (inside : k < L.words) :
    ((L.slotSz * (count base j &&& (L.slotNum - 1))).setWidth 64 +
      BitVec.ofNat 64 (4 * k)).toNat =
    L.slotSz.toNat * ((base.toNat + j) % L.slotNum.toNat) + 4 * k := by
  have index := count_mask_toNat base L.slotNum_eq j
  have two := L.two_le_slotNum
  have below : (base.toNat + j) % L.slotNum.toNat ≤ L.slotNum.toNat - 1 := by
    have := Nat.mod_lt (base.toNat + j) (show 0 < L.slotNum.toNat by omega)
    omega
  have product := Nat.lt_of_le_of_lt (Nat.mul_le_mul_left L.slotSz.toNat below) fits
  have word : 4 * k < 2 ^ 32 := by
    unfold words at inside
    omega
  rw [BitVec.toNat_add, BitVec.toNat_setWidth, BitVec.toNat_mul, index, BitVec.toNat_ofNat,
    Nat.mod_eq_of_lt product, Nat.mod_eq_of_lt (show _ < 2 ^ 64 by omega),
    Nat.mod_eq_of_lt (show 4 * k < 2 ^ 64 by omega), Nat.mod_eq_of_lt (by omega)]

theorem wordAddr_inj (fits : L.ProductFits) (base : BitVec 32) {j j' k k' : Nat} (inside : k < L.words)
    (inside' : k' < L.words)
    (same : wordAddr (L.slotOf (count base j)) k = wordAddr (L.slotOf (count base j')) k') :
    (base.toNat + j) % L.slotNum.toNat = (base.toNat + j') % L.slotNum.toNat ∧ k = k' := by
  unfold wordAddr slotOf at same
  rw [BitVec.add_assoc, BitVec.add_assoc, BitVec.add_right_inj] at same
  have offsets := congrArg BitVec.toNat same
  rw [L.offset_toNat fits base j k inside, L.offset_toNat fits base j' k' inside'] at offsets
  have small : 4 * k < L.slotSz.toNat := by
    unfold words at inside
    omega
  have small' : 4 * k' < L.slotSz.toNat := by
    unfold words at inside'
    omega
  have slots := congrArg (· / L.slotSz.toNat) offsets
  simp only [Nat.mul_add_div (show 0 < L.slotSz.toNat by omega), Nat.div_eq_of_lt small,
    Nat.div_eq_of_lt small', Nat.add_zero] at slots
  rw [slots] at offsets
  exact ⟨slots, by omega⟩

end RingLayout

end Xrt.Xgq
