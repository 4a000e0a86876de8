import Xrt.Lib.Footprint
import Xrt.Lib.Text

/-!
# Patching control code

`struct patcher`: a symbol of the control code has one type and a list of places. The type says how
the value of the argument gets into the words at each place. Scalars replace the bits of a mask,
addresses are added to the address that the words hold already.
-/
namespace Xrt.Aie

open Lib

inductive Error
  /-- an exception with its text -/
  | runtime (what : String)
  /-- access outside of a container -/
  | undefined
deriving DecidableEq, Repr

inductive SymbolType
  | ucDmaRemotePtrSymbolKind
  | shimDmaBaseAddrSymbolKind
  | scalar32bitKind
  | controlPacket48
  | shimDma48
  | shimDmaAie4BaseAddrSymbolKind
  | unknownSymbolKind
  /-- a number without a name -/
  | other (value : BitVec 32)
deriving DecidableEq, Repr

def SymbolType.cast (value : BitVec 32) : SymbolType :=
  if value = 1 then .ucDmaRemotePtrSymbolKind
  else if value = 2 then .shimDmaBaseAddrSymbolKind
  else if value = 3 then .scalar32bitKind
  else if value = 4 then .controlPacket48
  else if value = 5 then .shimDma48
  else if value = 6 then .shimDmaAie4BaseAddrSymbolKind
  else if value = 8 then .unknownSymbolKind
  else .other value

inductive BufType
  | ctrltext
  | ctrldata
  | preemptSave
  | preemptRestore
deriving DecidableEq, Repr

def BufType.number : BufType → Nat
  | .ctrltext => 0
  | .ctrldata => 1
  | .preemptSave => 2
  | .preemptRestore => 3

def sectionNameToString : BufType → Text
  | .ctrltext => ascii ".ctrltext"
  | .ctrldata => ascii ".ctrldata"
  | .preemptSave => ascii ".preempt_save"
  | .preemptRestore => ascii ".preempt_restore"

structure PatchInfo where
  offsetToPatchBuffer : BitVec 64
  offsetToBaseBoAddr : BitVec 32
  /-- for `scalar32bitKind` only -/
  mask : BitVec 32
deriving DecidableEq, Repr

structure Patcher where
  bufType : BufType
  symbolType : SymbolType
  ctrlcodePatchinfo : List PatchInfo
deriving DecidableEq, Repr

/-! ### The ways to patch -/

/-- Word `i` behind a pointer. -/
def word (m : ByteMem) (ptr : BitVec 64) (i : Nat) : BitVec 32 := read32 m (wordAt ptr i)

def setWord (m : ByteMem) (ptr : BitVec 64) (i : Nat) (v : BitVec 32) : ByteMem :=
  write32 m (wordAt ptr i) v

/-- 2 GiB -/
def ddrAieAddrOffset : BitVec 64 := 0x80000000

def patch32 (m : ByteMem) (dataToPatch registerValue : BitVec 64) (mask : BitVec 32) :
    Except Error ByteMem :=
  if dataToPatch &&& 0x3 ≠ 0 then .error (.runtime "address is not 4 byte aligned for patch32")
  else
    .ok (write32 m dataToPatch
      (read32 m dataToPatch &&& ~~~ mask ||| registerValue.setWidth 32 &&& mask))

def patch57 (m : ByteMem) (ptr patch : BitVec 64) : ByteMem :=
  -- 57 bits in three words; the value is added to what they hold
  let held := ((word m ptr 8).setWidth 64 &&& 0x1FF) <<< 48
    ||| ((word m ptr 2).setWidth 64 &&& 0xFFFF) <<< 32 ||| (word m ptr 1).setWidth 64
  let baseAddress := held + patch
  let m := setWord m ptr 1 ((baseAddress &&& 0xFFFFFFFF).setWidth 32)
  let m := setWord m ptr 2
    (word m ptr 2 &&& 0xFFFF0000 ||| (baseAddress >>> 32 &&& 0xFFFF).setWidth 32)
  setWord m ptr 8 (word m ptr 8 &&& 0xFFFFFE00 ||| (baseAddress >>> 48 &&& 0x1FF).setWidth 32)

def patch57Aie4 (m : ByteMem) (ptr patch : BitVec 64) : ByteMem :=
  let held := ((word m ptr 0).setWidth 64 &&& 0x1FFFFFF) <<< 32 ||| (word m ptr 1).setWidth 64
  -- the offset of the DDR memory is added again at every patch
  let baseAddress := held + (patch + ddrAieAddrOffset)
  let m := setWord m ptr 1 ((baseAddress &&& 0xFFFFFFFF).setWidth 32)
  setWord m ptr 0 (word m ptr 0 &&& 0xFE000000 ||| (baseAddress >>> 32 &&& 0x1FFFFFF).setWidth 32)

/-- `patch_ctrl48` and `patch_shim48`: the address is in the words `low` and `low + 1`. The bits of
the sum above bit 47 are not cut off. -/
def patch48 (low : Nat) (m : ByteMem) (ptr patch : BitVec 64) : ByteMem :=
  let held := ((word m ptr (low + 1)).setWidth 64 &&& 0xFFF) <<< 32 ||| (word m ptr low).setWidth 64
  let baseAddress := held + patch + ddrAieAddrOffset
  -- the low two bits are dropped
  let m := setWord m ptr low ((baseAddress &&& 0xFFFFFFFC).setWidth 32)
  setWord m ptr (low + 1) (word m ptr (low + 1) &&& 0xFFFF0000 ||| (baseAddress >>> 32).setWidth 32)

def patchCtrl48 : ByteMem → BitVec 64 → BitVec 64 → ByteMem := patch48 2

def patchShim48 : ByteMem → BitVec 64 → BitVec 64 → ByteMem := patch48 1

/-! ### One place -/

/-- What the loop of `patcher::patch` looks at in one turn. -/
structure Site where
  symbolType : SymbolType
  ptr : BitVec 64
  offsetToBaseBoAddr : BitVec 32
  mask : BitVec 32
deriving DecidableEq, Repr

def Site.patch (site : Site) (newValue : BitVec 64) (m : ByteMem) : Except Error ByteMem :=
  let address := newValue + site.offsetToBaseBoAddr.setWidth 64
  match site.symbolType with
  | .scalar32bitKind =>
    -- a scalar without a mask is skipped
    if site.mask ≠ 0 then patch32 m site.ptr newValue site.mask else .ok m
  | .shimDmaBaseAddrSymbolKind => .ok (patch57 m site.ptr address)
  | .shimDmaAie4BaseAddrSymbolKind => .ok (patch57Aie4 m site.ptr address)
  | .controlPacket48 => .ok (patchCtrl48 m site.ptr address)
  | .shimDma48 => .ok (patchShim48 m site.ptr address)
  -- `uc_dma_remote_ptr_symbol_kind` among them
  | _ => .error (.runtime "Unsupported symbol type")

/-- The loop of `patcher::patch`; what is patched before an exception stays. -/
def patchSites : List (Site × BitVec 64) → ByteMem → Except Error Unit × ByteMem
  | [], m => (.ok (), m)
  | (site, newValue) :: rest, m =>
    match site.patch newValue m with
    | .ok patched => patchSites rest patched
    | .error e => (.error e, m)

def Patcher.site (p : Patcher) (base : BitVec 64) (item : PatchInfo) : Site where
  symbolType := p.symbolType
  ptr := base + item.offsetToPatchBuffer
  offsetToBaseBoAddr := item.offsetToBaseBoAddr
  mask := item.mask

def Patcher.patch (p : Patcher) (base newValue : BitVec 64) : ByteMem → Except Error Unit × ByteMem :=
  patchSites (p.ctrlcodePatchinfo.map fun item => (p.site base item, newValue))

def generateKeyString (argumentName : Text) (type : BufType) : Text :=
  argumentName ++ decimal type.number

theorem generateKeyString_inj {n k : Text} {t u : BufType}
    (same : generateKeyString n t = generateKeyString k u) : n = k ∧ t = u := by
  have one : ∀ t : BufType, ∃ b, decimal t.number = [b] := by
    intro t
    cases t <;> simp [BufType.number, decimal]
  unfold generateKeyString at same
  obtain ⟨b, digit⟩ := one t
  obtain ⟨c, digit'⟩ := one u
  rw [digit, digit'] at same
  obtain ⟨names, digits⟩ := List.append_inj' same rfl
  have types : t.number = u.number := decimal_inj (by rw [digit, digit', digits])
  refine ⟨names, ?_⟩
  cases t <;> cases u <;> first | rfl | cases types

end Xrt.Aie
